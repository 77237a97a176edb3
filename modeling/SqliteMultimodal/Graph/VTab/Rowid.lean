import SqliteMultimodal.Graph.VTab.Effects
import SqliteMultimodal.Lib.Bitmap

namespace SqliteMultimodal.Graph.VTab

section Bit

theorem getLsbD_edgeBit (i : Nat) : edgeBit.toBitVec.getLsbD i = decide (i = 62) := by
  have hbits : edgeBit.toBitVec = BitVec.twoPow 64 62 := by decide
  rw [hbits, BitVec.getLsbD_twoPow]
  by_cases hi : i = 62
  · simp [hi]
  · simp [hi, eq_comm]

theorem isEdge_iff {r : Int64} : isEdge r = true ↔ r &&& edgeBit = edgeBit := by
  rw [isEdge, decide_eq_true_iff]
  constructor
  · refine Int64.and_mask_eq fun i j hi hj => ?_
    rw [getLsbD_edgeBit, decide_eq_true_iff] at hi hj
    rw [hi, hj]
  · intro h
    rw [h]
    decide

theorem isEdge_eq_false {r : Int64} : isEdge r = false ↔ r &&& edgeBit = 0 := by
  rw [isEdge, decide_eq_false_iff_not, not_not]

theorem isEdge_or (r : Int64) : isEdge (r ||| edgeBit) = true :=
  isEdge_iff.mpr (Int64.or_and_mask r edgeBit)

theorem isEdge_and_not (r : Int64) : isEdge (r &&& ~~~edgeBit) = false :=
  isEdge_eq_false.mpr (Int64.and_not_and_mask r edgeBit)

theorem and_not_or {r : Int64} (h : isEdge r = true) : r &&& ~~~edgeBit ||| edgeBit = r :=
  Int64.and_not_or_mask (isEdge_iff.mp h)

theorem or_and_not {r : Int64} (h : isEdge r = false) : (r ||| edgeBit) &&& ~~~edgeBit = r :=
  Int64.or_and_not_mask (isEdge_eq_false.mp h)

theorem or_eq {r : Int64} (h : isEdge r = true) : r ||| edgeBit = r := by
  conv_lhs => rw [← and_not_or h]
  rw [Int64.or_assoc, Int64.or_self, and_not_or h]

theorem isEdge_eq_getLsbD (r : Int64) : isEdge r = r.toBitVec.getLsbD 62 := by
  have hand : (r &&& edgeBit).toBitVec.getLsbD 62 = r.toBitVec.getLsbD 62 := by
    rw [Int64.toBitVec_and, BitVec.getLsbD_and, getLsbD_edgeBit]
    simp
  by_cases h : isEdge r = true
  · rw [h, ← hand, isEdge_iff.mp h, getLsbD_edgeBit]
    rfl
  · rw [Bool.not_eq_true] at h
    rw [h, ← hand, isEdge_eq_false.mp h]
    rfl

theorem isEdge_ofInt {k : Int} (h0 : 0 < k) (hk : k ≤ 9223372036854775807) :
    isEdge (Int64.ofInt k) = decide (4611686018427387904 ≤ k) := by
  rw [isEdge_eq_getLsbD, Int64.getLsbD_ofInt h0.le (by decide), Nat.testBit_eq_decide_div_mod_eq,
    decide_eq_decide]
  omega

end Bit

section Ids

def Ids (P : Int → Prop) (store : Store) : Prop :=
  (∀ k, store.nodes.get k ≠ none → P k) ∧ ∀ k, store.edges.get k ≠ none → P k

variable {conv : Conversions} {P : Int → Prop} {store store' : Store} {draws : Nat → Int64}
  {argv : List Value}

theorem get_put_ne {ρ : Type} {t : RowTable ρ} {k j : Int} {row : ρ} (hk : P k)
    (ht : ∀ j, t.get j ≠ none → P j) (hj : (t.put k row).get j ≠ none) : P j := by
  rw [RowTable.get_put] at hj
  split at hj
  next heq => exact heq ▸ hk
  next => exact ht j hj

theorem get_delete_ne {ρ : Type} {t : RowTable ρ} {k j : Int} (ht : ∀ j, t.get j ≠ none → P j)
    (hj : (t.delete k).get j ≠ none) : P j := by
  rw [RowTable.get_delete] at hj
  split at hj
  next => exact absurd rfl hj
  next => exact ht j hj

theorem Effect.ids (h : Effect conv store draws argv store') (hids : Ids P store)
    (hupsert : Inserts conv argv "node".toList → 0 < (argv.getD 3 .null).int64 conv →
      P ((argv.getD 3 .null).int64 conv).toInt)
    (hnode : Inserts conv argv "node".toList → ¬ 0 < (argv.getD 3 .null).int64 conv →
      ∀ k, newRowid store.nodes draws = some k → P k)
    (hedge : Inserts conv argv "edge".toList → ∀ k, newRowid store.edges draws = some k → P k) :
    Ids P store' := by
  obtain ⟨hnodes, hedges⟩ := hids
  cases h with
  | same => exact ⟨hnodes, hedges⟩
  | upsert row hinsert hid => exact ⟨fun k => get_put_ne (hupsert hinsert hid) hnodes, hedges⟩
  | newNode key row hinsert hid hkey =>
    exact ⟨fun k => get_put_ne (hnode hinsert hid key hkey) hnodes, hedges⟩
  | newEdge key row hinsert hkey =>
    exact ⟨hnodes, fun k => get_put_ne (hedge hinsert key hkey) hedges⟩
  | modifyNode id f =>
    refine ⟨fun k hk => hnodes k ?_, hedges⟩
    rw [RowTable.get_modify] at hk
    split at hk
    next => simpa using hk
    next => exact hk
  | deleteNode => exact ⟨fun k => get_delete_ne hnodes, hedges⟩
  | deleteEdge => exact ⟨hnodes, fun k => get_delete_ne hedges⟩

end Ids

section NewRowid

variable {ρ : Type} {t : RowTable ρ} {draws : Nat → Int64} {k : Int}

/-- An id that a `sqlite3_int64` holds. -/
def InRange (k : Int) : Prop := 0 < k ∧ k ≤ 9223372036854775807

theorem draw_inRange (r : Int64) :
    0 < ((r &&& 4611686018427387903) + 1).toInt ∧
      ((r &&& 4611686018427387903) + 1).toInt ≤ 4611686018427387904 := by
  have hle : (r &&& 4611686018427387903).toBitVec.toNat ≤ 4611686018427387903 := by
    rw [Int64.toBitVec_and, BitVec.toNat_and]
    exact Nat.and_le_right
  have hint : (r &&& 4611686018427387903).toInt = (r &&& 4611686018427387903).toBitVec.toNat := by
    rw [Int64.toInt, BitVec.toInt_eq_toNat_of_lt (by omega)]
  have hone : (1 : Int64).toInt = 1 := rfl
  generalize (r &&& 4611686018427387903).toBitVec.toNat = n at hle hint
  rw [Int64.toInt_add, hint, hone, Int.bmod_eq_of_le (by omega) (by omega)]
  omega

theorem newRowid_free (h : newRowid t draws = some k) : t.get k = none := by
  unfold newRowid at h
  split at h
  next =>
    cases h
    exact t.get_nextKey
  next =>
    have hfree := List.find?_some h
    exact of_decide_eq_true hfree

theorem nextKey_pos (ht : ∀ k, t.get k ≠ none → 0 < k) : 0 < t.nextKey := by
  obtain hnext | hpred := t.nextKey_pred
  · rw [hnext]
    decide
  · have hpos := ht _ hpred
    omega

theorem newRowid_inRange (ht : ∀ k, t.get k ≠ none → InRange k) (h : newRowid t draws = some k) :
    InRange k := by
  unfold newRowid at h
  split at h
  next hle =>
    cases h
    exact ⟨nextKey_pos fun k hk => (ht k hk).1, hle⟩
  next =>
    obtain ⟨i, -, rfl⟩ := List.mem_map.mp (List.mem_of_find?_eq_some h)
    obtain ⟨hpos, hle⟩ := draw_inRange (draws i)
    exact ⟨hpos, by omega⟩

end NewRowid

section Reached

variable {conv : Conversions} {store store' : Store} {draws : Nat → Int64} {argv : List Value}

theorem upsert_inRange (h : 0 < (argv.getD 3 .null).int64 conv) :
    InRange ((argv.getD 3 .null).int64 conv).toInt :=
  ⟨Int64.lt_iff_toInt_lt.mp h, Int64.toInt_le _⟩

theorem Effect.inRange (h : Effect conv store draws argv store') (hrange : Ids InRange store) :
    Ids InRange store' :=
  h.ids hrange (fun _ => upsert_inRange) (fun _ _ _ => newRowid_inRange hrange.1)
    fun _ _ => newRowid_inRange hrange.2

theorem reached_inRange {ok : Config → Action → Prop} {c : Config}
    (h : Machine.Reached (step conv) ok .start c) : Ids InRange c.store := by
  refine reached_history (P := fun store _ => Ids InRange store) h ?_
    fun c draws argv calls frames store' hc _ _ heffect => heffect.inRange hc
  exact ⟨fun k hk => absurd rfl hk, fun k hk => absurd rfl hk⟩

end Reached

end SqliteMultimodal.Graph.VTab
