import SqliteMultimodal.Graph.Value
import SqliteMultimodal.Lib.Block

/-! The labels and the relationship types of a schema.  Every allocation succeeds; how large an array
is follows from the count of its names alone. -/

namespace SqliteMultimodal.Graph.Schema

section Code

structure CypherSchema where
  azNodeLabels : Block Text
  nNodeLabels : Nat
  azRelTypes : Block Text
  nRelTypes : Nat

def graphInitSchema : CypherSchema := ⟨Block.alloc 16, 0, Block.alloc 16, 0⟩

def sqlite3Stricmp (a b : Text) : Int := Text.strcmp (a.map Char.toLower) (b.map Char.toLower)

def scanFrom (az : Block Text) (zName : Text) : Nat → Nat → Option Bool
  | 0, _ => some false
  | nLeft + 1, i => do
    let z ← az.load i
    if sqlite3Stricmp z zName = 0 then some true else scanFrom az zName nLeft (i + 1)

def grow (az : Block Text) (n : Nat) : Block Text :=
  if n ≥ 16 ∧ n &&& (n - 1) = 0 then az.realloc (n * 2) else az

def register (az : Block Text) (n : Nat) (zName : Text) : Option (Block Text × Nat) := do
  if ← scanFrom az zName n 0 then some (az, n)
  else
    let az ← (grow az n).store n zName
    some (az, n + 1)

def graphRegisterLabel (pSchema : CypherSchema) (zLabel : Option Text) :
    Option (ResultCode × CypherSchema) :=
  match zLabel with
  | none => some (.misuse, pSchema)
  | some zLabel => do
    let (azNodeLabels, nNodeLabels) ← register pSchema.azNodeLabels pSchema.nNodeLabels zLabel
    some (.ok, { pSchema with azNodeLabels, nNodeLabels })

def graphRegisterRelationshipType (pSchema : CypherSchema) (zType : Option Text) :
    Option (ResultCode × CypherSchema) :=
  match zType with
  | none => some (.misuse, pSchema)
  | some zType => do
    let (azRelTypes, nRelTypes) ← register pSchema.azRelTypes pSchema.nRelTypes zType
    some (.ok, { pSchema with azRelTypes, nRelTypes })

end Code

section Runs

inductive Call
  | label (zLabel : Option Text)
  | relationshipType (zType : Option Text)

def Call.label? : Call → Option Text
  | .label zLabel => zLabel
  | .relationshipType _ => none

def Call.relationshipType? : Call → Option Text
  | .label _ => none
  | .relationshipType zType => zType

def step (pSchema : CypherSchema) : Call → Option CypherSchema
  | .label zLabel => (graphRegisterLabel pSchema zLabel).map Prod.snd
  | .relationshipType zType => (graphRegisterRelationshipType pSchema zType).map Prod.snd

def run (pSchema : CypherSchema) (calls : List Call) : Option CypherSchema :=
  calls.foldlM step pSchema

end Runs

section Names

structure Room (n nSlots : Nat) : Prop where
  power : nSlots.isPowerOfTwo
  least : 16 ≤ nSlots
  le : n ≤ nSlots
  tight : nSlots = 16 ∨ nSlots < 2 * n

theorem Room.zero : Room 0 16 := ⟨⟨4, rfl⟩, Nat.le_refl _, Nat.zero_le _, .inl rfl⟩

variable {az : Block Text} {n nSlots : Nat}

theorem Room.grow (h : Room n az.length) : n < (grow az n).length ∧ Room (n + 1) (grow az n).length := by
  have hle := h.le
  have hleast := h.least
  rw [Schema.grow]
  by_cases hfull : n ≥ 16 ∧ n &&& (n - 1) = 0
  · rw [if_pos hfull, Block.length_realloc]
    have hpower : n.isPowerOfTwo :=
      (Nat.and_sub_one_eq_zero_iff_isPowerOfTwo (by omega)).mp hfull.2
    exact ⟨by omega, Nat.isPowerOfTwo_mul_two_of_isPowerOfTwo hpower, by omega, by omega,
      .inr (by omega)⟩
  · rw [if_neg hfull]
    have hlt : n < az.length := by
      refine lt_of_le_of_ne hle fun heq => hfull ⟨heq ▸ hleast, ?_⟩
      exact (Nat.and_sub_one_eq_zero_iff_isPowerOfTwo (by omega)).mpr (heq ▸ h.power)
    exact ⟨hlt, h.power, hleast, hlt, h.tight.imp_right (by omega)⟩

structure Listing (az : Block Text) (n : Nat) (names passed : List Text) : Prop where
  filled : az.Filled names
  count : n = names.length
  room : Room n az.length
  distinct : names.Pairwise fun a b => sqlite3Stricmp a b ≠ 0
  registered : ∀ z ∈ passed, ∃ name ∈ names, sqlite3Stricmp name z = 0
  passed : ∀ name ∈ names, name ∈ passed

theorem Listing.nil : Listing (Block.alloc 16) 0 [] [] where
  filled := Block.Filled.nil _
  count := rfl
  room := (Block.length_alloc (β := Text) 16).symm ▸ Room.zero
  distinct := .nil
  registered _ h := absurd h List.not_mem_nil
  passed _ h := absurd h List.not_mem_nil

theorem stricmp_self (z : Text) : sqlite3Stricmp z z = 0 := Text.strcmp_eq_zero.mpr rfl

theorem scanFrom_eq (before : List Text) {rest : List Text} (h : az.Filled (before ++ rest))
    (zName : Text) :
    scanFrom az zName rest.length before.length =
      some (rest.any fun z => sqlite3Stricmp z zName = 0) := by
  induction rest generalizing before with
  | nil => rfl
  | cons z rest ih =>
    have hload : az.load before.length = some z := by
      rw [h.load (by rw [List.length_append, List.length_cons]; omega)]
      simp
    have hnext := ih (before ++ [z]) (by rwa [List.append_assoc])
    rw [List.length_append, List.length_singleton] at hnext
    rw [List.length_cons, scanFrom, hload, Option.bind_eq_bind, Option.bind_some, hnext,
      List.any_cons]
    by_cases heq : sqlite3Stricmp z zName = 0 <;> simp [heq]

theorem Listing.grow {names passed : List Text} (h : Listing az n names passed) :
    (grow az n).Filled names := by
  rw [Schema.grow]
  split
  next hfull =>
    have hcount := h.count
    exact h.filled.realloc (by omega)
  next => exact h.filled

theorem Listing.register {names passed : List Text} (h : Listing az n names passed) (zName : Text) :
    ∃ az' n' names', register az n zName = some (az', n') ∧
      Listing az' n' names' (passed ++ [zName]) ∧ names <+: names' := by
  have hscan := scanFrom_eq [] h.filled zName
  rw [← h.count, List.length_nil] at hscan
  rw [Schema.register, hscan, Option.bind_eq_bind, Option.bind_some]
  cases hany : names.any fun z => sqlite3Stricmp z zName = 0 with
  | true =>
    obtain ⟨name, hname, heq⟩ := List.any_eq_true.mp hany
    refine ⟨az, n, names, if_pos rfl, ⟨h.filled, h.count, h.room, h.distinct, ?_, ?_⟩,
      List.prefix_refl _⟩
    · intro z hz
      obtain hz | hz := List.mem_append.mp hz
      · exact h.registered z hz
      · rw [List.mem_singleton.mp hz]
        exact ⟨name, hname, of_decide_eq_true heq⟩
    · exact fun z hz => List.mem_append_left _ (h.passed z hz)
  | false =>
    obtain ⟨hlt, hroom⟩ := h.room.grow
    have hfilled := h.grow.push (h.count ▸ hlt) zName
    have hnew : ∀ name ∈ names, sqlite3Stricmp name zName ≠ 0 := by
      intro name hname heq
      rw [List.any_eq_false] at hany
      exact hany name hname (decide_eq_true heq)
    refine ⟨(Schema.grow az n).set n (some zName), n + 1, names ++ [zName], ?_, ?_,
      List.prefix_append _ _⟩
    · rw [if_neg Bool.false_ne_true, Block.store_eq hlt]
      rfl
    · rw [← h.count] at hfilled
      refine ⟨hfilled, ?_, ?_, ?_, ?_, ?_⟩
      · rw [List.length_append, h.count, List.length_singleton]
      · rwa [List.length_set]
      · rw [List.pairwise_append]
        refine ⟨h.distinct, List.pairwise_singleton _ _, fun a ha b hb => ?_⟩
        rw [List.mem_singleton.mp hb]
        exact hnew a ha
      · intro z hz
        obtain hz | hz := List.mem_append.mp hz
        · obtain ⟨name, hname, heq⟩ := h.registered z hz
          exact ⟨name, List.mem_append_left _ hname, heq⟩
        · rw [List.mem_singleton.mp hz]
          exact ⟨zName, List.mem_append_right _ (List.mem_singleton_self _), stricmp_self zName⟩
      · intro name hname
        obtain hname | hname := List.mem_append.mp hname
        · exact List.mem_append_left _ (h.passed name hname)
        · exact List.mem_append_right _ hname

theorem Listing.keeps {az' : Block Text} {n' : Nat} {names names' passed passed' : List Text}
    (h : Listing az n names passed) (h' : Listing az' n' names' passed') (hnames : names <+: names') :
    n ≤ n' ∧ ∀ i < n, az'.load i = az.load i := by
  obtain ⟨more, rfl⟩ := hnames
  refine ⟨?_, fun i hi => ?_⟩
  · rw [h.count, h'.count, List.length_append]
    exact Nat.le_add_right _ _
  · have hlt : i < names.length := h.count ▸ hi
    rw [h.filled.load hlt, h'.filled.left.load hlt]

end Names

section Schemas

structure Lists (pSchema : CypherSchema) (labels types : List Text) (calls : List Call) : Prop where
  nodeLabels : Listing pSchema.azNodeLabels pSchema.nNodeLabels labels (calls.filterMap Call.label?)
  relTypes : Listing pSchema.azRelTypes pSchema.nRelTypes types
    (calls.filterMap Call.relationshipType?)

variable {pSchema : CypherSchema} {labels types : List Text} {calls : List Call}

theorem lists_init : Lists graphInitSchema [] [] [] := ⟨.nil, .nil⟩

theorem Lists.step (h : Lists pSchema labels types calls) (call : Call) :
    ∃ pSchema' labels' types', step pSchema call = some pSchema' ∧
      Lists pSchema' labels' types' (calls ++ [call]) ∧ labels <+: labels' ∧ types <+: types' := by
  have hsame : ∀ {az n names} {f : Call → Option Text}, f call = none →
      Listing az n names (calls.filterMap f) → Listing az n names ((calls ++ [call]).filterMap f) := by
    intro az n names f hf hlisting
    rwa [List.filterMap_append, List.filterMap_cons_none hf, List.filterMap_nil, List.append_nil]
  have hmore : ∀ {az n names z} {f : Call → Option Text}, f call = some z →
      Listing az n names (calls.filterMap f ++ [z]) →
      Listing az n names ((calls ++ [call]).filterMap f) := by
    intro az n names z f hf hlisting
    rwa [List.filterMap_append, List.filterMap_cons_some hf, List.filterMap_nil]
  cases call with
  | label zLabel =>
    cases zLabel with
    | none =>
      exact ⟨pSchema, labels, types, rfl, ⟨hsame rfl h.nodeLabels, hsame rfl h.relTypes⟩,
        List.prefix_refl _, List.prefix_refl _⟩
    | some zLabel =>
      obtain ⟨az, n, labels', hregister, hlabels, hprefix⟩ := h.nodeLabels.register zLabel
      refine ⟨{ pSchema with azNodeLabels := az, nNodeLabels := n }, labels', types, ?_,
        ⟨hmore rfl hlabels, hsame rfl h.relTypes⟩, hprefix, List.prefix_refl _⟩
      rw [Schema.step, graphRegisterLabel, hregister]
      rfl
  | relationshipType zType =>
    cases zType with
    | none =>
      exact ⟨pSchema, labels, types, rfl, ⟨hsame rfl h.nodeLabels, hsame rfl h.relTypes⟩,
        List.prefix_refl _, List.prefix_refl _⟩
    | some zType =>
      obtain ⟨az, n, types', hregister, htypes, hprefix⟩ := h.relTypes.register zType
      refine ⟨{ pSchema with azRelTypes := az, nRelTypes := n }, labels, types', ?_,
        ⟨hsame rfl h.nodeLabels, hmore rfl htypes⟩, List.prefix_refl _, hprefix⟩
      rw [Schema.step, graphRegisterRelationshipType, hregister]
      rfl

theorem Lists.run (h : Lists pSchema labels types calls) (more : List Call) :
    ∃ pSchema' labels' types', run pSchema more = some pSchema' ∧
      Lists pSchema' labels' types' (calls ++ more) ∧ labels <+: labels' ∧ types <+: types' := by
  induction more generalizing pSchema labels types calls with
  | nil =>
    refine ⟨pSchema, labels, types, rfl, ?_, List.prefix_refl _, List.prefix_refl _⟩
    rwa [List.append_nil]
  | cons call more ih =>
    obtain ⟨s₁, labels₁, types₁, hstep, h₁, hlabels₁, htypes₁⟩ := h.step call
    obtain ⟨s₂, labels₂, types₂, hrun, h₂, hlabels₂, htypes₂⟩ := ih h₁
    refine ⟨s₂, labels₂, types₂, ?_, ?_, hlabels₁.trans hlabels₂, htypes₁.trans htypes₂⟩
    · rw [Schema.run, List.foldlM_cons, hstep]
      exact hrun
    · rwa [List.append_assoc] at h₂

/-- Every run stays inside of both arrays, lists what it was passed without repetition, and leaves
what was listed where it is. -/
theorem run_lists (calls : List Call) :
    ∃ pSchema labels types, run graphInitSchema calls = some pSchema ∧
      Lists pSchema labels types calls ∧
      ∀ m, ∃ pSchema', run graphInitSchema (calls.take m) = some pSchema' ∧
        (pSchema'.nNodeLabels ≤ pSchema.nNodeLabels ∧
          ∀ i < pSchema'.nNodeLabels,
            pSchema.azNodeLabels.load i = pSchema'.azNodeLabels.load i) ∧
        pSchema'.nRelTypes ≤ pSchema.nRelTypes ∧
          ∀ i < pSchema'.nRelTypes, pSchema.azRelTypes.load i = pSchema'.azRelTypes.load i := by
  obtain ⟨s, labels, types, hrun, h, -, -⟩ := lists_init.run calls
  refine ⟨s, labels, types, hrun, h, fun m => ?_⟩
  obtain ⟨s₁, labels₁, types₁, hrun₁, h₁, -, -⟩ := lists_init.run (calls.take m)
  obtain ⟨s₂, labels₂, types₂, hrun₂, h₂, hlabels, htypes⟩ := h₁.run (calls.drop m)
  have heq : s₂ = s := by
    rw [Schema.run, ← List.take_append_drop m calls, List.foldlM_append] at hrun
    rw [Schema.run] at hrun₁
    rw [hrun₁] at hrun
    exact Option.some.inj (hrun₂.symm.trans hrun)
  subst heq
  exact ⟨s₁, hrun₁, h₁.nodeLabels.keeps h₂.nodeLabels hlabels,
    h₁.relTypes.keeps h₂.relTypes htypes⟩

end Schemas

end SqliteMultimodal.Graph.Schema
