import Mathlib.Data.List.Dedup
import SqliteMultimodal.Graph.VTab.Rowid

namespace SqliteMultimodal.Graph.VTab

variable (conv : Conversions)

section Insert

def EndsStored (store : Store) (argv : List Value) : Prop :=
  store.nodes.get ((argv.getD 4 .null).int64 conv).toInt ≠ none ∧
    store.nodes.get ((argv.getD 5 .null).int64 conv).toInt ≠ none

def StoresEdge (store : Store) (draws : Nat → Int64) (argv : List Value) : Prop :=
  ∃ rowid key row, store.edges.get key = none ∧
    row.fromNode = ((argv.getD 4 .null).int64 conv).toInt ∧
    row.toNode = ((argv.getD 5 .null).int64 conv).toInt ∧
    graphUpdate conv store draws argv =
      .done .ok none (some rowid) { store with edges := store.edges.put key row }

def InsertChecked (store : Store) (draws : Nat → Int64) (argv : List Value) : Prop :=
  (StoresEdge conv store draws argv ↔ EndsStored conv store argv) ∧
    (¬ EndsStored conv store argv → ∃ zErrMsg,
      graphUpdate conv store draws argv = .done .constraint (some zErrMsg) none store)

def Insertable (store : Store) (draws : Nat → Int64) (argv : List Value) : Prop :=
  (∃ q, (argv.getD 8 .null).double conv = .finite q) ∧
    (store.edges.get 9223372036854775807 = none ∨
      ∃ i < 100, store.edges.get ((draws i &&& 4611686018427387903) + 1).toInt = none)

instance decidableEndsStored (store : Store) (argv : List Value) :
    Decidable (EndsStored conv store argv) :=
  inferInstanceAs (Decidable (_ ∧ _))

instance decidableInsertable (store : Store) (draws : Nat → Int64) (argv : List Value) :
    Decidable (Insertable conv store draws argv) :=
  match h : (argv.getD 8 .null).double conv with
  | .infinite _ => isFalse fun ⟨⟨_, hq⟩, _⟩ => by cases h.symm.trans hq
  | .finite q => decidable_of_iff (_ ∨ _) ⟨fun hroom => ⟨⟨q, h⟩, hroom⟩, fun hall => hall.2⟩

variable {conv} {store : Store} {draws : Nat → Int64} {argv : List Value}

theorem newRowid_eq_none {ρ : Type} {t : RowTable ρ} (draws : Nat → Int64)
    (ht : ∀ k, t.get k ≠ none → InRange k) :
    newRowid t draws = none ↔ t.get 9223372036854775807 ≠ none ∧
      ∀ i < 100, t.get ((draws i &&& 4611686018427387903) + 1).toInt ≠ none := by
  have hlast : t.nextKey ≤ 9223372036854775807 ↔ t.get 9223372036854775807 = none := by
    constructor
    · exact fun hle => by_contra fun hne => absurd (RowTable.lt_nextKey hne) (not_lt.mpr hle)
    · intro hnone
      obtain hnext | hpred := t.nextKey_pred
      · omega
      · have hne : t.nextKey - 1 ≠ 9223372036854775807 := fun heq => hpred (heq ▸ hnone)
        have := (ht _ hpred).2
        omega
  unfold newRowid
  by_cases hnone : t.get 9223372036854775807 = none
  · rw [if_pos (hlast.mpr hnone)]
    simp [hnone]
  · rw [if_neg (mt hlast.mp hnone), List.find?_eq_none]
    simp [hnone]

theorem insertEdge_refused (hends : ¬ EndsStored conv store argv) :
    ∃ zErrMsg, insertEdge conv store draws argv = .done .constraint (some zErrMsg) none store := by
  unfold EndsStored at hends
  rw [insertEdge]
  simp only
  rw [if_neg hends]
  exact ⟨_, rfl⟩

theorem insertEdge_cases (draws : Nat → Int64) (hends : EndsStored conv store argv) :
    ((∀ q, (argv.getD 8 .null).double conv ≠ .finite q) ∨ newRowid store.edges draws = none) ∧
        (∃ rc zErr, rc ≠ .ok ∧ insertEdge conv store draws argv = .fail rc zErr store) ∨
      ∃ q key rowid row, (argv.getD 8 .null).double conv = .finite q ∧
        newRowid store.edges draws = some key ∧
        row.fromNode = ((argv.getD 4 .null).int64 conv).toInt ∧
        row.toNode = ((argv.getD 5 .null).int64 conv).toInt ∧
        insertEdge conv store draws argv =
          .done .ok none (some rowid) { store with edges := store.edges.put key row } := by
  unfold EndsStored at hends
  rw [insertEdge]
  simp only
  rw [if_pos hends]
  cases (argv.getD 8 .null).double conv with
  | infinite _ => exact .inl ⟨.inl (by rintro _ ⟨⟩), .error, _, by decide, rfl⟩
  | finite q =>
    cases newRowid store.edges draws with
    | none => exact .inl ⟨.inr rfl, .full, _, by decide, rfl⟩
    | some key => exact .inr ⟨q, key, _, _, rfl, rfl, rfl, rfl, rfl⟩

theorem storesEdge_iff (h : Inserts conv argv "edge".toList) (hends : EndsStored conv store argv)
    (hrange : Ids InRange store) :
    StoresEdge conv store draws argv ↔ Insertable conv store draws argv := by
  have hfull := newRowid_eq_none draws hrange.2
  rw [StoresEdge, graphUpdate_edge h]
  obtain ⟨hwhy, rc, zErr, hrc, hfail⟩ | ⟨q, key, rowid, row, hweight, hkey, hfrom, hto, hok⟩ :=
    insertEdge_cases draws hends
  · rw [hfail]
    constructor
    · rintro ⟨_, _, _, -, -, -, heq⟩
      exact absurd (by injection heq) hrc
    · rintro ⟨⟨q, hweight⟩, hroom⟩
      obtain hwhy | hwhy := hwhy
      · exact absurd hweight (hwhy q)
      · obtain ⟨hlast, hdraws⟩ := hfull.mp hwhy
        obtain hroom | ⟨i, hi, hroom⟩ := hroom
        · exact absurd hroom hlast
        · exact absurd hroom (hdraws i hi)
  · refine ⟨fun _ => ⟨⟨q, hweight⟩, ?_⟩, fun _ => ⟨rowid, key, row, newRowid_free hkey, hfrom, hto, hok⟩⟩
    by_contra hroom
    rw [not_or] at hroom
    have hnone := hfull.mpr ⟨hroom.1, fun i hi hfree => hroom.2 ⟨i, hi, hfree⟩⟩
    rw [hnone] at hkey
    exact absurd hkey (Option.some_ne_none key).symm

theorem insertChecked_iff (h : Inserts conv argv "edge".toList) (hrange : Ids InRange store) :
    InsertChecked conv store draws argv ↔
      (EndsStored conv store argv → Insertable conv store draws argv) := by
  constructor
  · exact fun hchecked hends => (storesEdge_iff h hends hrange).mp (hchecked.1.mpr hends)
  · intro himp
    have hrefused : ¬ EndsStored conv store argv → ∃ zErrMsg,
        graphUpdate conv store draws argv = .done .constraint (some zErrMsg) none store :=
      fun hends => by
        rw [graphUpdate_edge h]
        exact insertEdge_refused hends
    refine ⟨⟨?_, fun hends => (storesEdge_iff h hends hrange).mpr (himp hends)⟩, hrefused⟩
    rintro ⟨_, _, _, -, -, -, hok⟩
    by_contra hends
    obtain ⟨zErrMsg, hconstraint⟩ := hrefused hends
    rw [hok] at hconstraint
    cases hconstraint

end Insert

section Delete

def Seen.IsEdgeRow (seen : Seen) (k : Int) : Prop :=
  seen.columns.type = .text "edge".toList ∧ seen.columns.id = .integer (Int64.ofInt k)

instance Seen.decidableIsEdgeRow (seen : Seen) (k : Int) : Decidable (seen.IsEdgeRow k) :=
  inferInstanceAs (Decidable (_ ∧ _))

def edgeKey (rowid : Int64) : Int := (rowid &&& ~~~edgeBit).toInt

def DeletesSelected (conv : Conversions) (c : Config) : Prop :=
  ∀ plan cond, c.statement = some (.delete plan cond) → ∀ k,
    (∀ seen ∈ selected conv c.saved.1 plan cond, ¬ seen.IsEdgeRow k) →
      c.store.edges.get k = c.saved.1.edges.get k

def Deletable (store : Store) (rows : List Seen) (rowid : Int64) : Prop :=
  isEdge rowid = true → store.edges.get (edgeKey rowid) = none ∨
    ∃ seen ∈ rows, seen.IsEdgeRow (edgeKey rowid)

instance decidableDeletable (store : Store) (rows : List Seen) (rowid : Int64) :
    Decidable (Deletable store rows rowid) :=
  inferInstanceAs (Decidable (_ → _ ∨ _))

/-- `DeletesSelected` with what it takes to keep it: the calls that are still to come. -/
def Deleting (conv : Conversions) (c : Config) : Prop :=
  ∀ plan cond, c.statement = some (.delete plan cond) →
    (∀ k, (∀ seen ∈ selected conv c.saved.1 plan cond, ¬ seen.IsEdgeRow k) →
      c.store.edges.get k = c.saved.1.edges.get k) ∧
    ∀ frame ∈ c.frames, ∀ argv ∈ frame, ∃ rowid, argv = [.integer rowid] ∧
      Deletable c.saved.1 (selected conv c.saved.1 plan cond) rowid

variable {conv}

theorem mem_calls_delete {store : Store} {plan : Plan} {cond : Seen → Bool} {argv : List Value}
    (h : argv ∈ (Statement.delete plan cond).calls conv store) :
    ∃ seen ∈ selected conv store plan cond, argv = [.integer seen.rowid] := by
  obtain ⟨rowid, hrowid, rfl⟩ := List.mem_map.mp h
  rw [List.mem_insertionSort, List.mem_dedup] at hrowid
  obtain ⟨seen, hseen, rfl⟩ := List.mem_map.mp hrowid
  exact ⟨seen, hseen, rfl⟩

theorem Effect.delete {store' : Store} {draws : Nat → Int64} {rowid : Int64} {k : Int}
    (h : Effect conv store draws [.integer rowid] store') :
    store'.edges.get k = store.edges.get k ∨
      isEdge rowid = true ∧ k = edgeKey rowid ∧ store'.edges.get k = none := by
  cases h with
  | same => exact .inl rfl
  | upsert row hinsert => exact absurd hinsert.1 (by simp)
  | newNode key row hinsert => exact absurd hinsert.1 (by simp)
  | newEdge key row hinsert => exact absurd hinsert.1 (by simp)
  | modifyNode id f hargv => exact absurd rfl hargv
  | deleteNode => exact .inl rfl
  | deleteEdge _ hedge =>
    simp only [RowTable.get_delete]
    by_cases hk : k = edgeKey rowid
    · exact .inr ⟨hedge, hk, if_pos hk⟩
    · exact .inl (if_neg hk)

theorem Deleting.step {c c' : Config} {a : Action} (h : Deleting conv c)
    (hstart : ∀ plan cond, a = .start (.delete plan cond) →
      ∀ seen ∈ selected conv c.store plan cond,
        Deletable c.store (selected conv c.store plan cond) seen.rowid)
    (hstep : step conv c a = some c') : Deleting conv c' := by
  intro plan cond hstatement
  cases step_stepped hstep with
  | start statement hframes =>
    obtain rfl := Option.some.inj hstatement
    refine ⟨fun _ _ => rfl, fun frame hframe argv hargv => ?_⟩
    obtain rfl := List.mem_singleton.mp hframe
    obtain ⟨seen, hseen, rfl⟩ := mem_calls_delete hargv
    exact ⟨seen.rowid, rfl, hstart plan cond rfl seen hseen⟩
  | finish draws frames hframes =>
    obtain ⟨hedges, hcalls⟩ := h plan cond hstatement
    rw [hframes] at hcalls
    exact ⟨hedges, fun frame hframe => hcalls frame (List.mem_cons_of_mem _ hframe)⟩
  | take draws argv calls frames hframes store heffect =>
    obtain ⟨hedges, hcalls⟩ := h plan cond hstatement
    rw [hframes] at hcalls
    obtain ⟨rowid, rfl, hdelete⟩ := hcalls _ List.mem_cons_self argv List.mem_cons_self
    refine ⟨fun k hk => ?_, fun frame hframe argv' hargv' => ?_⟩
    · obtain hsame | ⟨hedge, rfl, hgone⟩ := heffect.delete (k := k)
      · exact hsame.trans (hedges k hk)
      · obtain hnone | ⟨seen, hseen, hrow⟩ := hdelete hedge
        · exact hgone.trans hnone.symm
        · exact absurd hrow (hk seen hseen)
    · obtain rfl | hframe := List.mem_cons.mp hframe
      · exact hcalls _ List.mem_cons_self argv' (List.mem_cons_of_mem _ hargv')
      · exact hcalls frame (List.mem_cons_of_mem _ hframe) argv' hargv'
  | undo => exact ⟨fun _ _ => rfl, fun frame hframe => absurd hframe List.not_mem_nil⟩
  | nest draws argv calls frames hframes nested hexec =>
    obtain ⟨-, hcalls⟩ := h plan cond hstatement
    rw [hframes] at hcalls
    obtain ⟨rowid, rfl, -⟩ := hcalls _ List.mem_cons_self argv List.mem_cons_self
    have hdelete : graphUpdate conv c.store draws [.integer rowid] = deleteRow c.store rowid := rfl
    rw [hdelete, deleteRow] at hexec
    split at hexec <;> cases hexec

end Delete

section History

def Event.Removes (e : Event) (n : Int) : Prop :=
  e.argv.length = 1 ∧ e.before.nodes.get n ≠ none ∧ e.after.nodes.get n = none

def Event.Adds (conv : Conversions) (e : Event) (k : Int) : Prop :=
  Inserts conv e.argv "edge".toList ∧ e.before.edges.get k = none ∧ e.after.edges.get k ≠ none

def RemovedSince (conv : Conversions) (log : List Event) (k n : Int) : Prop :=
  ∃ later e earlier, log = later ++ e :: earlier ∧ e.Adds conv k ∧
    (∀ e' ∈ later, ¬ e'.Adds conv k) ∧ ∃ d ∈ later, d.Removes n

def DanglingExplained (conv : Conversions) (store : Store) (log : List Event) : Prop :=
  ∀ k row, store.edges.get k = some row → ∀ n, n = row.fromNode ∨ n = row.toNode →
    store.nodes.get n = none → RemovedSince conv log k n

def Explained (conv : Conversions) (store : Store) (log : List Event) : Prop :=
  ∀ k row, store.edges.get k = some row → ∃ later e earlier, log = later ++ e :: earlier ∧
    e.Adds conv k ∧ (∀ e' ∈ later, ¬ e'.Adds conv k) ∧
    ∀ n, n = row.fromNode ∨ n = row.toNode → store.nodes.get n ≠ none ∨ ∃ d ∈ later, d.Removes n

variable {conv} {store store' : Store} {draws : Nat → Int64} {argv : List Value} {log : List Event}

theorem Explained.dangling (h : Explained conv store log) : DanglingExplained conv store log := by
  intro k row hrow n hn hnone
  obtain ⟨later, e, earlier, hlog, hadds, hlater, hends⟩ := h k row hrow
  exact ⟨later, e, earlier, hlog, hadds, hlater, (hends n hn).resolve_left (absurd hnone)⟩

theorem Effect.nodes (h : Effect conv store draws argv store') {n : Int}
    (hn : store.nodes.get n ≠ none) : store'.nodes.get n ≠ none ∨ argv.length = 1 := by
  cases h with
  | same => exact .inl hn
  | upsert row =>
    left
    rw [RowTable.get_put]
    split
    · exact Option.some_ne_none _
    · exact hn
  | newNode key row =>
    left
    rw [RowTable.get_put]
    split
    · exact Option.some_ne_none _
    · exact hn
  | newEdge => exact .inl hn
  | modifyNode id f =>
    left
    rw [RowTable.get_modify]
    split
    · simpa using hn
    · exact hn
  | deleteNode hargv => exact .inr hargv
  | deleteEdge => exact .inl hn

theorem Effect.edges (h : Effect conv store draws argv store') {k : Int} {row : EdgeRow}
    (hrow : store'.edges.get k = some row) : store.edges.get k = some row ∨
      Inserts conv argv "edge".toList ∧ store.edges.get k = none ∧
        store'.nodes.get row.fromNode ≠ none ∧ store'.nodes.get row.toNode ≠ none := by
  cases h with
  | same => exact .inl hrow
  | upsert => exact .inl hrow
  | newNode => exact .inl hrow
  | newEdge key new hinsert hkey hfrom hto =>
    simp only [RowTable.get_put] at hrow
    split at hrow
    next heq =>
      cases hrow
      exact .inr ⟨hinsert, heq ▸ newRowid_free hkey, hfrom, hto⟩
    next => exact .inl hrow
  | modifyNode => exact .inl hrow
  | deleteNode => exact .inl hrow
  | deleteEdge =>
    simp only [RowTable.get_delete] at hrow
    split at hrow
    next => cases hrow
    next => exact .inl hrow

theorem Explained.call (h : Explained conv store log)
    (heffect : Effect conv store draws argv store') :
    Explained conv store' (⟨argv, store, store'⟩ :: log) := by
  intro k row hrow
  obtain hold | ⟨hinsert, hfree, hfrom, hto⟩ := heffect.edges hrow
  · obtain ⟨later, e, earlier, rfl, hadds, hlater, hends⟩ := h k row hold
    refine ⟨⟨argv, store, store'⟩ :: later, e, earlier, rfl, hadds, ?_, fun n hn => ?_⟩
    · rintro e' (_ | ⟨_, he'⟩)
      · rintro ⟨-, hnone, -⟩
        exact absurd (hold.symm.trans hnone) (Option.some_ne_none row)
      · exact hlater e' he'
    · obtain hstored | ⟨d, hd, hremoves⟩ := hends n hn
      · by_cases hstill : store'.nodes.get n = none
        · have hargv := (heffect.nodes hstored).resolve_left (absurd hstill)
          exact .inr ⟨_, List.mem_cons_self, hargv, hstored, hstill⟩
        · exact .inl hstill
      · exact .inr ⟨d, List.mem_cons_of_mem _ hd, hremoves⟩
  · refine ⟨[], _, log, rfl, ⟨hinsert, hfree, ?_⟩, fun _ he' => absurd he' List.not_mem_nil, ?_⟩
    · rw [hrow]
      exact Option.some_ne_none row
    · rintro n (rfl | rfl)
      · exact .inl hfrom
      · exact .inl hto

theorem reached_explained {ok : Config → Action → Prop} {c : Config}
    (h : Machine.Reached (step conv) ok .start c) : Explained conv c.store c.log :=
  reached_history h (fun _ _ hrow => absurd hrow.symm (Option.some_ne_none _))
    fun _ _ _ _ _ _ hc _ _ heffect => hc.call heffect

end History

section Runs

def Sound (conv : Conversions) (c : Config) : Action → Prop
  | .start (.delete plan cond) => ∀ seen ∈ selected conv c.store plan cond,
    Deletable c.store (selected conv c.store plan cond) seen.rowid
  | .start _ => True
  | .call draws => c.NextCall fun argv => Inserts conv argv "edge".toList →
    EndsStored conv c.store argv → Insertable conv c.store draws argv

instance decidableSound (conv : Conversions) (c : Config) :
    (a : Action) → Decidable (Sound conv c a)
  | .start (.delete _ _) => inferInstanceAs (Decidable (∀ _ ∈ _, _))
  | .start (.insert _) => isTrue trivial
  | .start (.update _ _ _) => isTrue trivial
  | .call _ => Config.decidableNextCall c _

theorem reached_deleting {conv : Conversions} {c : Config}
    (h : Machine.Reached (step conv) (Sound conv) .start c) : Deleting conv c := by
  refine h.invariant (fun _ _ hstatement => absurd hstatement.symm (Option.some_ne_none _))
    fun c a c' hc hok hstep => hc.step ?_ hstep
  rintro plan cond rfl
  exact hok

theorem edges_dangle_only_by_delete (conv : Conversions) (c : Config)
    (h : Machine.Reached (step conv) (Sound conv) .start c) :
    (∀ draws, Sound conv c (.call draws) → c.NextCall fun argv =>
      Inserts conv argv "edge".toList → InsertChecked conv c.store draws argv) ∧
    DeletesSelected conv c ∧ DanglingExplained conv c.store c.log := by
  refine ⟨fun draws hok argv calls frames hframes hinsert => ?_, fun plan cond hstatement => ?_,
    (reached_explained h).dangling⟩
  · exact (insertChecked_iff hinsert (reached_inRange h)).mpr (hok argv calls frames hframes hinsert)
  · exact (reached_deleting h plan cond hstatement).1

theorem deleted_node_leaves_edge : ∃ c,
    Machine.run (step plainConversions) .start (insertActions (nodeColumns 1) ++
      insertActions (edgeColumns 1 1) ++ deleteNodeActions) = some c ∧
    c.store.nodes.get 1 = none ∧ c.store.edges.get 1 = some ⟨1, 1, some [], 0, some []⟩ ∧
    RemovedSince plainConversions c.log 1 1 := by
  refine ⟨_, rfl, by decide +kernel, by decide +kernel, ?_⟩
  have hsound := edges_dangle_only_by_delete plainConversions _ (Machine.Reached.run .start
    (insertActions (nodeColumns 1) ++ insertActions (edgeColumns 1 1) ++ deleteNodeActions) rfl
    (by decide +kernel))
  exact hsound.2.2 1 ⟨1, 1, some [], 0, some []⟩ (by decide +kernel) 1 (.inl rfl) (by decide +kernel)

theorem tagged_node_delete_unsound : ¬ ∀ conv c,
    Machine.Reached (step conv) (fun _ _ => True) .start c →
      (∀ draws, c.NextCall fun argv =>
        Inserts conv argv "edge".toList → InsertChecked conv c.store draws argv) ∧
      DeletesSelected conv c ∧ DanglingExplained conv c.store c.log := by
  intro hall
  obtain ⟨-, hdeletes, -⟩ := hall plainConversions _ (Machine.Reached.run .start
    (insertActions (nodeColumns 4611686018427387905) ++
      insertActions (edgeColumns 4611686018427387905 4611686018427387905) ++ deleteNodeActions)
    rfl fun _ _ => trivial)
  have hedge := hdeletes _ _ rfl 1 (by decide +kernel)
  exact absurd hedge (by decide +kernel)

end Runs

end SqliteMultimodal.Graph.VTab
