import Mathlib.Data.Finset.Card
import SqliteMultimodal.Graph.Storage
import SqliteMultimodal.Lib.Json

namespace SqliteMultimodal.Graph.Labels

abbrev NodeTable := RowTable NodeRow

def update (t : NodeTable) (iNodeId : Int) (labels : Option Text) : NodeTable :=
  t.modify iNodeId fun row => { row with labels := labels }

def select (t : NodeTable) (iNodeId : Int) : Option Text := (t.get iNodeId).bind (·.labels)

/-- Without labels there is no text, and `%Q` writes `NULL`. -/
def graphSetNodeLabels (t : NodeTable) (iNodeId : Int) (azLabels : List Text) :
    ResultCode × NodeTable :=
  let zLabelsJson := if azLabels = [] then none
    else some (azLabels.zipIdx.foldl
      (fun z label => z ++ (if label.2 > 0 then [','] else []) ++ quoted label.1) ['['] ++ [']'])
  (.ok, update t iNodeId zLabelsJson)

def graphAddNodeLabel (t : NodeTable) (iNodeId : Int) (zLabel : Text) : ResultCode × NodeTable :=
  if iNodeId ≤ 0 then (.misuse, t)
  else
    match select t iNodeId with
    | none => (.ok, update t iNodeId (some (bracketed (quoted zLabel))))
    | some zExistingLabels =>
      if (Text.strstr (quoted zLabel) zExistingLabels).isSome then (.ok, t)
      else if zExistingLabels.getLast? = some ']' then
        (.ok, update t iNodeId (some (zExistingLabels.dropLast ++ ',' :: quoted zLabel ++ [']'])))
      else (.ok, update t iNodeId (some (bracketed (quoted zLabel))))

/-- The loop of `graphRemoveNodeLabel`. `label` is what has been read of a label, inside quotes. -/
def rebuild (zLabel zNewArray : Text) (bFirst : Bool) (label : Option Text) : Text → Text
  | [] => zNewArray
  | c :: t =>
    match label with
    | none =>
      if c = '"' then rebuild zLabel zNewArray bFirst (some []) t
      else rebuild zLabel zNewArray bFirst none t
    | some label =>
      if c = '"' then
        if label ≠ zLabel then
          rebuild zLabel (zNewArray ++ (if bFirst then [] else [',']) ++ quoted label) false none t
        else rebuild zLabel zNewArray bFirst none t
      else rebuild zLabel zNewArray bFirst (some (label ++ [c])) t

def graphRemoveNodeLabel (t : NodeTable) (iNodeId : Int) (zLabel : Text) :
    ResultCode × NodeTable :=
  if iNodeId ≤ 0 then (.misuse, t)
  else
    match select t iNodeId with
    | none => (.ok, t)
    | some zExistingLabels =>
      (.ok, update t iNodeId (some (rebuild zLabel ['['] true none zExistingLabels ++ [']'])))

def graphNodeHasLabel (t : NodeTable) (iNodeId : Int) (zLabel : Text) : Int :=
  if iNodeId ≤ 0 then 0
  else
    match select t iNodeId with
    | none => 0
    | some zLabels => if (Text.strstr (quoted zLabel) zLabels).isSome then 1 else 0

inductive Call
  | set (azLabels : List Text) (distinct : azLabels.Nodup)
  | add (zLabel : Text)
  | remove (zLabel : Text)

namespace Call

def run (t : NodeTable) (iNodeId : Int) : Call → ResultCode × NodeTable
  | set azLabels _ => graphSetNodeLabels t iNodeId azLabels
  | add zLabel => graphAddNodeLabel t iNodeId zLabel
  | remove zLabel => graphRemoveNodeLabel t iNodeId zLabel

def apply (labels : Finset Text) : Call → Finset Text
  | set azLabels _ => azLabels.toFinset
  | add zLabel => insert zLabel labels
  | remove zLabel => labels.erase zLabel

def runs (t : NodeTable) (iNodeId : Int) (calls : List Call) : NodeTable :=
  calls.foldl (fun t call => (call.run t iNodeId).2) t

def applies (labels : Finset Text) (calls : List Call) : Finset Text := calls.foldl apply labels

end Call

def Stored (t : NodeTable) (iNodeId : Int) (labels : Finset Text) : Prop :=
  ∃ z ls, select t iNodeId = some z ∧ Json.stringArray z = some ls ∧ ls.Nodup ∧
    ls.toFinset = labels

def Found (t : NodeTable) (iNodeId : Int) (labels : Finset Text) (l : Text) : Prop :=
  graphNodeHasLabel t iNodeId l = 1 ↔ l ∈ labels

section Listed

def listed (bFirst : Bool) : List Text → Text
  | [] => []
  | l :: ls => (if bFirst then [] else [',']) ++ quoted l ++ listed false ls

theorem labelsJson_eq (ls : List Text) : labelsJson ls = '[' :: listed true ls ++ [']'] := by
  have hjoin : ∀ b (l : Text) (ls : List Text), listed b (l :: ls) =
      (if b then [] else [',']) ++ Text.join ',' ((l :: ls).map quoted) := by
    intro b l ls
    induction ls generalizing b l with
    | nil => simp [listed, Text.join]
    | cons k ls ih =>
      rw [List.map_cons, Text.join_cons ',' (quoted l) (by simp), listed, ih false k]
      simp
  cases ls with
  | nil => rfl
  | cons l ls =>
    rw [hjoin]
    rfl

theorem listed_append (b : Bool) (ls ms : List Text) :
    listed b (ls ++ ms) = listed b ls ++ listed (b && ls.isEmpty) ms := by
  induction ls generalizing b with
  | nil => simp [listed]
  | cons l ls ih => simp [listed, ih]

theorem foldl_listed (ls : List Text) (k : Nat) (z : Text) :
    (ls.zipIdx k).foldl
      (fun z label => z ++ (if label.2 > 0 then [','] else []) ++ quoted label.1) z =
        z ++ listed (k = 0) ls := by
  induction ls generalizing k z with
  | nil => simp [listed]
  | cons l ls ih =>
    rw [List.zipIdx_cons, List.foldl_cons, ih]
    by_cases hk : k = 0
    · simp [listed, hk]
    · simp [listed, hk, Nat.pos_of_ne_zero hk]

variable {ls : List Text}

theorem splitOn_listed (hls : ∀ l ∈ ls, '"' ∉ l) :
    ((listed false ls ++ [']']).splitOn '"').dropLast = ls.flatMap fun l => [[','], l] := by
  induction ls with
  | nil => rfl
  | cons l ls ih =>
    obtain ⟨hl, hls⟩ := List.forall_mem_cons.mp hls
    have hsplit : (listed false (l :: ls) ++ [']']).splitOn '"' =
        [','] :: l :: (listed false ls ++ [']']).splitOn '"' := by
      have htext : listed false (l :: ls) ++ [']'] =
          [','] ++ '"' :: (l ++ '"' :: (listed false ls ++ [']'])) := by
        simp [listed, quoted]
      rw [htext, List.splitOn_append_cons_self_of_not_mem (by decide),
        List.splitOn_append_cons_self_of_not_mem hl]
    rw [hsplit, List.dropLast_cons_of_ne_nil (List.cons_ne_nil _ _),
      List.dropLast_cons_of_ne_nil (List.splitOn_ne_nil _ _), ih hls]
    rfl

theorem mem_inner_labelsJson (hls : ∀ l ∈ ls, '"' ∉ l) (l : Text) :
    l ∈ Text.inner '"' (labelsJson ls) ↔ l ∈ ls ∨ l = [','] ∧ 2 ≤ ls.length := by
  cases ls with
  | nil =>
    have hnil : Text.inner '"' (labelsJson []) = [] := rfl
    simp [hnil]
  | cons k ls =>
    obtain ⟨hk, hls⟩ := List.forall_mem_cons.mp hls
    have htext : labelsJson (k :: ls) =
        ['['] ++ '"' :: (k ++ '"' :: (listed false ls ++ [']'])) := by
      simp [labelsJson_eq, listed, quoted]
    rw [Text.inner, htext, List.splitOn_append_cons_self_of_not_mem (by decide),
      List.splitOn_append_cons_self_of_not_mem hk, List.tail_cons,
      List.dropLast_cons_of_ne_nil (List.splitOn_ne_nil _ _), splitOn_listed hls]
    cases ls with
    | nil => simp
    | cons j ls =>
      simp only [List.mem_cons, List.mem_flatMap, List.length_cons, List.not_mem_nil, or_false]
      constructor
      · rintro (rfl | ⟨i, hi, rfl | rfl⟩)
        · exact Or.inl (Or.inl rfl)
        · exact Or.inr ⟨rfl, by omega⟩
        · exact Or.inl (Or.inr hi)
      · rintro ((rfl | hl) | ⟨rfl, -⟩)
        · exact Or.inl rfl
        · exact Or.inr ⟨l, hl, Or.inr rfl⟩
        · exact Or.inr ⟨j, Or.inl rfl, Or.inl rfl⟩

theorem count_labelsJson (hls : ∀ l ∈ ls, '"' ∉ l) :
    (labelsJson ls).count '"' = 2 * ls.length := by
  have hcount : ∀ b, (listed b ls).count '"' = 2 * ls.length := by
    induction ls with
    | nil => exact fun b => rfl
    | cons l ls ih =>
      intro b
      obtain ⟨hl, hls⟩ := List.forall_mem_cons.mp hls
      have hzero := List.count_eq_zero.mpr hl
      have hcomma : (if b = true then [] else [',']).count '"' = 0 := by cases b <;> rfl
      rw [listed, List.count_append, List.count_append, ih hls, hcomma, quoted, List.count_append,
        List.count_cons_self, hzero, List.length_cons]
      simp
      omega
  rw [labelsJson_eq, List.count_append, List.count_cons, hcount]
  simp

theorem rebuild_label (zLabel z : Text) (bFirst : Bool) (label : Text) {l : Text} (hl : '"' ∉ l)
    (t : Text) : rebuild zLabel z bFirst (some label) (l ++ '"' :: t) =
      if label ++ l ≠ zLabel then
        rebuild zLabel (z ++ (if bFirst then [] else [',']) ++ quoted (label ++ l)) false none t
      else rebuild zLabel z bFirst none t := by
  induction l generalizing label with
  | nil => simp [rebuild]
  | cons c l ih =>
    obtain ⟨hc, hl⟩ := not_or.mp (List.mem_cons.not.mp hl)
    rw [List.cons_append, rebuild, if_neg (Ne.symm hc), ih _ hl, List.append_assoc,
      List.singleton_append]

theorem rebuild_listed (zLabel z : Text) (bFirst b : Bool) (hls : ∀ l ∈ ls, '"' ∉ l) :
    rebuild zLabel z bFirst none (listed b ls ++ [']']) =
      z ++ listed bFirst (ls.filter (· ≠ zLabel)) := by
  induction ls generalizing z bFirst b with
  | nil => simp [listed, rebuild]
  | cons l ls ih =>
    obtain ⟨hl, hls⟩ := List.forall_mem_cons.mp hls
    have hcomma : ∀ t, rebuild zLabel z bFirst none ((if b then [] else [',']) ++ '"' :: t) =
        rebuild zLabel z bFirst (some []) t := by
      intro t
      cases b <;> simp [rebuild]
    have htext : listed b (l :: ls) ++ [']'] =
        (if b then [] else [',']) ++ '"' :: (l ++ '"' :: (listed false ls ++ [']'])) := by
      simp [listed, quoted]
    rw [htext, hcomma, rebuild_label zLabel z bFirst [] hl, List.nil_append]
    by_cases h : l = zLabel
    · rw [if_neg (not_not.mpr h), ih z bFirst false hls]
      simp [h]
    · rw [if_pos h, ih _ false false hls]
      simp [h, listed]

theorem stringArray_labelsJson (hls : ∀ l ∈ ls, ∀ c ∈ l, Json.Plain c) :
    Json.stringArray (labelsJson ls) = some ls := by
  refine Json.whole_eq rfl (Json.container_join (by decide) rfl (fun l hl t => ?_)
    (fun l _ t => ?_) [])
  · rw [quoted, List.append_assoc, List.cons_append, Json.skip_cons rfl]
    exact Json.scan_plain (hls l hl) t
  · rw [quoted, List.append_assoc, List.cons_append, Json.skip_cons rfl]
    simp

end Listed

def Searchable (labels : Finset Text) (l : Text) : Prop :=
  labels.card ≤ 1 ∨ '"' ∉ l ∧ (l = [','] → [','] ∈ labels)

def Call.Fits (labels : Finset Text) : Call → Prop
  | .set azLabels _ => azLabels ≠ [] ∧ ∀ l ∈ azLabels, ∀ c ∈ l, Json.Plain c
  | .add zLabel => labels ≠ ∅ ∧ (∀ c ∈ zLabel, Json.Plain c) ∧ Searchable labels zLabel
  | .remove _ => True

def Call.AllFit (labels : Finset Text) : List Call → Prop
  | [] => True
  | call :: calls => call.Fits labels ∧ AllFit (call.apply labels) calls

structure Canonical (t : NodeTable) (iNodeId : Int) (ls : List Text) : Prop where
  text : select t iNodeId = some (labelsJson ls)
  plain : ∀ l ∈ ls, ∀ c ∈ l, Json.Plain c
  nodup : ls.Nodup

theorem select_update {t : NodeTable} {iNodeId : Int} {z : Text} (h : select t iNodeId = some z)
    (labels : Option Text) : select (update t iNodeId labels) iNodeId = labels := by
  obtain ⟨row, hrow, -⟩ := Option.bind_eq_some_iff.mp h
  rw [select, update, RowTable.get_modify, if_pos rfl, hrow]
  rfl

namespace Canonical

variable {t : NodeTable} {iNodeId : Int} {ls : List Text}

theorem quote_not_mem (h : Canonical t iNodeId ls) : ∀ l ∈ ls, '"' ∉ l :=
  fun l hl hmem => (h.plain l hl _ hmem).1 rfl

theorem card_eq (h : Canonical t iNodeId ls) : ls.toFinset.card = ls.length :=
  List.toFinset_card_of_nodup h.nodup

theorem strstr_iff (h : Canonical t iNodeId ls) {l : Text} (hl : Searchable ls.toFinset l) :
    (Text.strstr (quoted l) (labelsJson ls)).isSome ↔ l ∈ ls := by
  rw [Text.strstr_isSome]
  by_cases hquote : '"' ∈ l
  · obtain hcard | ⟨hnot, -⟩ := hl
    · have hmem : l ∉ ls := fun hmem => h.quote_not_mem l hmem hquote
      refine iff_of_false (fun hinfix => ?_) hmem
      have hle := hinfix.sublist.count_le '"'
      have hpos := List.count_pos_iff.mpr hquote
      rw [count_labelsJson h.quote_not_mem, quoted, List.count_append, List.count_cons_self,
        List.count_singleton_self] at hle
      rw [h.card_eq] at hcard
      omega
    · exact absurd hquote hnot
  · rw [quoted, Text.infix_iff_mem_inner hquote, mem_inner_labelsJson h.quote_not_mem,
      or_iff_left_iff_imp]
    rintro ⟨rfl, htwo⟩
    obtain hcard | ⟨-, hcomma⟩ := hl
    · rw [h.card_eq] at hcard
      omega
    · exact List.mem_toFinset.mp (hcomma rfl)

theorem stored (h : Canonical t iNodeId ls) : Stored t iNodeId ls.toFinset :=
  ⟨labelsJson ls, ls, h.text, stringArray_labelsJson h.plain, h.nodup, rfl⟩

theorem found (h : Canonical t iNodeId ls) (hid : 0 < iNodeId) {l : Text}
    (hl : Searchable ls.toFinset l) : Found t iNodeId ls.toFinset l := by
  rw [Found, graphNodeHasLabel, if_neg (not_le.mpr hid), h.text, List.mem_toFinset,
    ← h.strstr_iff hl]
  simp [Option.isSome_iff_ne_none]

theorem updated (h : Canonical t iNodeId ls) {ls' : List Text} {z : Text} (hz : z = labelsJson ls')
    (hplain : ∀ l ∈ ls', ∀ c ∈ l, Json.Plain c) (hnodup : ls'.Nodup) :
    Canonical (update t iNodeId (some z)) iNodeId ls' :=
  ⟨by rw [select_update h.text, hz], hplain, hnodup⟩

theorem set (h : Canonical t iNodeId ls) {azLabels : List Text} (hne : azLabels ≠ [])
    (hplain : ∀ l ∈ azLabels, ∀ c ∈ l, Json.Plain c) (hnodup : azLabels.Nodup) :
    Canonical (graphSetNodeLabels t iNodeId azLabels).2 iNodeId azLabels := by
  simp only [graphSetNodeLabels, if_neg hne]
  refine h.updated ?_ hplain hnodup
  rw [foldl_listed, labelsJson_eq]
  rfl

theorem add (h : Canonical t iNodeId ls) (hid : 0 < iNodeId) {l : Text} (hne : ls ≠ [])
    (hplain : ∀ c ∈ l, Json.Plain c) (hl : Searchable ls.toFinset l) :
    Canonical (graphAddNodeLabel t iNodeId l).2 iNodeId (if l ∈ ls then ls else ls ++ [l]) := by
  rw [graphAddNodeLabel, if_neg (not_le.mpr hid), h.text]
  by_cases hmem : l ∈ ls
  · simp only [(h.strstr_iff hl).mpr hmem, if_pos hmem, if_true]
    exact h
  · have hlast : (labelsJson ls).getLast? = some ']' := by
      rw [labelsJson, bracketed, List.getLast?_concat]
    have hnone : ¬(Text.strstr (quoted l) (labelsJson ls)).isSome :=
      fun hsome => hmem ((h.strstr_iff hl).mp hsome)
    simp only [if_neg hnone, if_pos hlast, if_neg hmem]
    refine h.updated ?_ ?_ ?_
    · rw [labelsJson_eq, labelsJson_eq, List.dropLast_concat, listed_append]
      simp [listed, hne]
    · intro k hk
      obtain hk | hk := List.mem_append.mp hk
      · exact h.plain k hk
      · rwa [List.mem_singleton.mp hk]
    · exact List.nodup_append.mpr ⟨h.nodup, List.nodup_singleton l, fun a ha b hb hab =>
        hmem (List.mem_singleton.mp hb ▸ hab ▸ ha)⟩

theorem remove (h : Canonical t iNodeId ls) (hid : 0 < iNodeId) (l : Text) :
    Canonical (graphRemoveNodeLabel t iNodeId l).2 iNodeId (ls.filter (· ≠ l)) := by
  rw [graphRemoveNodeLabel, if_neg (not_le.mpr hid), h.text]
  refine h.updated ?_ (fun k hk => h.plain k (List.mem_of_mem_filter hk)) (h.nodup.filter _)
  have hscan : rebuild l ['['] true none (labelsJson ls) =
      rebuild l ['['] true none (listed true ls ++ [']']) := by
    rw [labelsJson_eq]
    rfl
  rw [hscan, rebuild_listed l ['['] true true h.quote_not_mem, labelsJson_eq]
  rfl

theorem run (h : Canonical t iNodeId ls) (hid : 0 < iNodeId) {call : Call}
    (hfits : call.Fits ls.toFinset) :
    ∃ ls', Canonical (call.run t iNodeId).2 iNodeId ls' ∧
      ls'.toFinset = call.apply ls.toFinset := by
  cases call with
  | set azLabels distinct =>
    exact ⟨azLabels, h.set hfits.1 hfits.2 distinct, rfl⟩
  | add l =>
    obtain ⟨hne, hplain, hl⟩ := hfits
    refine ⟨_, h.add hid (fun hnil => hne (by rw [hnil]; rfl)) hplain hl, ?_⟩
    ext k
    by_cases hmem : l ∈ ls
    · simp only [if_pos hmem, Call.apply, Finset.mem_insert, List.mem_toFinset]
      exact ⟨Or.inr, fun hk => hk.elim (fun heq => heq ▸ hmem) id⟩
    · simp only [if_neg hmem, Call.apply, Finset.mem_insert, List.mem_toFinset, List.mem_append,
        List.mem_singleton]
      exact or_comm
  | remove l =>
    refine ⟨_, h.remove hid l, ?_⟩
    ext k
    simp [Call.apply, and_comm]

theorem runs (h : Canonical t iNodeId ls) (hid : 0 < iNodeId) {calls : List Call}
    (hfits : Call.AllFit ls.toFinset calls) :
    ∃ ls', Canonical (Call.runs t iNodeId calls) iNodeId ls' ∧
      ls'.toFinset = Call.applies ls.toFinset calls := by
  induction calls generalizing t ls with
  | nil => exact ⟨ls, h, rfl⟩
  | cons call calls ih =>
    obtain ⟨ls', hcall, hset⟩ := h.run hid hfits.1
    obtain ⟨ls'', hcalls, hsets⟩ := ih hcall (by rw [hset]; exact hfits.2)
    exact ⟨ls'', hcalls, by rw [hsets, hset]; rfl⟩

end Canonical

theorem Call.AllFit.of_isPrefix {labels : Finset Text} {calls done : List Call}
    (h : Call.AllFit labels calls) (hdone : done <+: calls) : Call.AllFit labels done := by
  induction done generalizing labels calls with
  | nil => trivial
  | cons call done ih =>
    obtain ⟨rest, rfl⟩ := hdone
    exact ⟨h.1, ih h.2 ⟨rest, rfl⟩⟩

/-- Along a run whose calls all fit, the labels are the set that the calls stand for. -/
theorem labels_are_a_set {t : NodeTable} {iNodeId : Int} (hid : 0 < iNodeId)
    (hfresh : select t iNodeId = some "[]".toList) {calls : List Call}
    (hfits : Call.AllFit ∅ calls) {done : List Call} (hdone : done <+: calls) :
    Stored (Call.runs t iNodeId done) iNodeId (Call.applies ∅ done) ∧
      ∀ l, Searchable (Call.applies ∅ done) l →
        Found (Call.runs t iNodeId done) iNodeId (Call.applies ∅ done) l := by
  have hstart : Canonical t iNodeId [] :=
    ⟨hfresh, fun l hl => absurd hl List.not_mem_nil, List.nodup_nil⟩
  obtain ⟨ls, hls, hset⟩ := hstart.runs hid (hfits.of_isPrefix hdone)
  rw [List.toFinset_nil] at hset
  rw [← hset]
  exact ⟨hls.stored, fun l hl => hls.found hid hl⟩

def unlabelled : NodeTable := ⟨[(1, ⟨some "[]".toList, some "\x7b\x7d".toList⟩)], by decide⟩

theorem labels_are_a_set_three_calls :
    let done : List Call := [.set ["A".toList, "B,".toList] (by decide), .add "C".toList,
      .remove "A".toList]
    Stored (Call.runs unlabelled 1 done) 1 (Call.applies ∅ done) ∧
      ∀ l, Searchable (Call.applies ∅ done) l →
        Found (Call.runs unlabelled 1 done) 1 (Call.applies ∅ done) l :=
  labels_are_a_set (t := unlabelled) (by decide) (by decide)
    (show Call.AllFit ∅ [.set ["A".toList, "B,".toList] (by decide), .add "C".toList,
        .remove "A".toList] from
      ⟨⟨by decide, by simp [Json.Plain]⟩, ⟨by decide, by simp [Json.Plain],
        Or.inr ⟨by decide, by decide⟩⟩, trivial, trivial⟩)
    (List.prefix_refl _)

theorem add_first_label :
    let t := Call.runs unlabelled 1 [.add "A".toList]
    select t 1 = some "[,\"A\"]".toList ∧ ¬Stored t 1 (Call.applies ∅ [.add "A".toList]) := by
  refine ⟨by decide, ?_⟩
  rintro ⟨z, ls, hz, hls, -⟩
  rw [show select _ 1 = some "[,\"A\"]".toList by decide] at hz
  obtain rfl := Option.some.inj hz
  rw [show Json.stringArray "[,\"A\"]".toList = none by decide] at hls
  exact absurd hls (Option.some_ne_none ls).symm

end SqliteMultimodal.Graph.Labels
