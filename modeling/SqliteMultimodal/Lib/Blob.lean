import Mathlib.Data.List.Basic

universe u

namespace Blob

variable {β : Type u}

def read (b : List β) (offset n : Nat) : Option (List β) :=
  if offset + n ≤ b.length then some ((b.drop offset).take n) else none

def write (b : List β) (offset : Nat) (data : List β) : Option (List β) :=
  if offset + data.length ≤ b.length then
    some (b.take offset ++ data ++ b.drop (offset + data.length))
  else none

variable {b b' data : List β} {offset n : Nat}

theorem length_write (h : write b offset data = some b') : b'.length = b.length := by
  unfold write at h
  split at h
  next hle =>
    obtain rfl := Option.some.inj h
    simp only [List.length_append, List.length_take, List.length_drop]
    omega
  next => simp at h

theorem getElem?_write (h : write b offset data = some b') (i : Nat) :
    b'[i]? = if offset ≤ i ∧ i < offset + data.length then data[i - offset]? else b[i]? := by
  unfold write at h
  split at h
  next hle =>
    obtain rfl := Option.some.inj h
    have hlen : (b.take offset).length = offset := by
      rw [List.length_take]
      omega
    rw [List.append_assoc]
    rcases Nat.lt_or_ge i offset with hi | hi
    · rw [List.getElem?_append_left (by omega), List.getElem?_take_of_lt hi, if_neg (by omega)]
    · rw [List.getElem?_append_right (by omega), hlen]
      rcases Nat.lt_or_ge i (offset + data.length) with hi' | hi'
      · rw [List.getElem?_append_left (by omega), if_pos ⟨hi, hi'⟩]
      · rw [List.getElem?_append_right (by omega), List.getElem?_drop, if_neg (by omega)]
        congr 1
        omega
  next => simp at h

theorem read_eq_some {x : List β} :
    read b offset n = some x ↔ x.length = n ∧ offset + n ≤ b.length ∧
      ∀ i < n, x[i]? = b[offset + i]? := by
  unfold read
  split
  next hle =>
    rw [Option.some.injEq]
    constructor
    · rintro rfl
      refine ⟨?_, hle, fun i hi => ?_⟩
      · rw [List.length_take, List.length_drop]
        omega
      · rw [List.getElem?_take_of_lt hi, List.getElem?_drop]
    · rintro ⟨hlen, -, hget⟩
      apply List.ext_getElem?
      intro i
      rcases Nat.lt_or_ge i n with hi | hi
      · rw [List.getElem?_take_of_lt hi, List.getElem?_drop, hget i hi]
      · rw [List.getElem?_eq_none (by rw [List.length_take]; omega),
          List.getElem?_eq_none (by omega)]
  next hle => simp [hle]

theorem read_write_self (h : write b offset data = some b') :
    read b' offset data.length = some data := by
  have hlen := length_write h
  refine read_eq_some.mpr ⟨rfl, ?_, fun i hi => ?_⟩
  · unfold write at h
    split at h
    · omega
    · simp at h
  · rw [getElem?_write h, if_pos ⟨by omega, by omega⟩, Nat.add_sub_cancel_left]

theorem read_write_of_disjoint (h : write b offset data = some b') {offset' : Nat}
    (hdisj : offset' + n ≤ offset ∨ offset + data.length ≤ offset') :
    read b' offset' n = read b offset' n := by
  have hlen := length_write h
  cases hr : read b offset' n with
  | none =>
    unfold read at hr ⊢
    rw [hlen]
    split at hr
    · simp at hr
    next hle => rw [if_neg hle]
  | some x =>
    obtain ⟨hx, hle, hget⟩ := read_eq_some.mp hr
    refine read_eq_some.mpr ⟨hx, hlen ▸ hle, fun i hi => ?_⟩
    rw [getElem?_write h, if_neg (by omega), hget i hi]

section Items

variable {β : Type u} {size i : Nat} {data : List β}

def items (size : Nat) (data : List β) : List (List β) :=
  (List.range (data.length / size)).map fun i => (data.drop (i * size)).take size

@[simp] theorem length_items : (items size data).length = data.length / size := by
  rw [items, List.length_map, List.length_range]

theorem getElem?_items (h : i < data.length / size) :
    (items size data)[i]? = some ((data.drop (i * size)).take size) := by
  rw [items, List.getElem?_map, List.getElem?_range h, Option.map_some]

theorem items_eq_nil_iff : items size data = [] ↔ data.length / size = 0 := by
  rw [← List.length_eq_zero_iff, length_items]

theorem items_nil : items size ([] : List β) = [] := by
  rw [items, List.length_nil, Nat.zero_div, List.range_zero, List.map_nil]

theorem read_of_items {x : List β} (h : (items size data)[i]? = some x) :
    read data (i * size) size = some x := by
  have hlt : i < data.length / size := by
    have := (List.getElem?_eq_some_iff.mp h).1
    rwa [length_items] at this
  have hle : (i + 1) * size ≤ data.length :=
    Nat.le_trans (Nat.mul_le_mul_right size hlt) (Nat.div_mul_le_self data.length size)
  rw [Nat.succ_mul] at hle
  rw [getElem?_items hlt] at h
  rw [read, if_pos hle, h]

theorem take_drop_take {n : Nat} (h : i < n) :
    ((data.take (size * n)).drop (i * size)).take size = (data.drop (i * size)).take size := by
  have hle : size * (i + 1) ≤ size * n := Nat.mul_le_mul_left size h
  rw [Nat.mul_succ, Nat.mul_comm size i] at hle
  rw [List.drop_take, List.take_take, Nat.min_eq_left (by omega)]

theorem items_take_whole {n : Nat} (h : n = data.length / size) :
    items size (data.take (size * n)) = items size data := by
  obtain rfl | hpos := Nat.eq_zero_or_pos size
  · simp only [items, Nat.div_zero, List.range_zero, List.map_nil]
  have hle : size * n ≤ data.length := h ▸ Nat.mul_div_le data.length size
  rw [items, items, List.length_take_of_le hle, Nat.mul_div_cancel_left n hpos, h]
  exact List.map_congr_left fun i hi => take_drop_take (List.mem_range.mp hi)

theorem items_take_append_drop (size n : Nat) (data : List β) :
    items size (data.take (size * n)) ++ items size (data.drop (size * n)) = items size data := by
  obtain hlt | hle := Nat.lt_or_ge data.length (size * n)
  · rw [List.take_of_length_le (Nat.le_of_lt hlt),
      List.drop_eq_nil_of_le (Nat.le_of_lt hlt), items_nil, List.append_nil]
  obtain rfl | hpos := Nat.eq_zero_or_pos size
  · simp only [items, Nat.div_zero, List.range_zero, List.map_nil, List.append_nil]
  have hsplit : data.length / size = n + (data.drop (size * n)).length / size := by
    rw [List.length_drop, Nat.sub_mul_div, Nat.add_sub_cancel']
    exact (Nat.le_div_iff_mul_le hpos).mpr (Nat.mul_comm n size ▸ hle)
  have htake : items size (data.take (size * n)) =
      (List.range n).map fun i => (data.drop (i * size)).take size := by
    rw [items, List.length_take_of_le hle, Nat.mul_div_cancel_left n hpos]
    exact List.map_congr_left fun i hi => take_drop_take (List.mem_range.mp hi)
  rw [htake, items, items, hsplit, List.range_add, List.map_append, List.map_map]
  refine congrArg _ (List.map_congr_left fun i _ => ?_)
  rw [Function.comp, List.drop_drop, Nat.add_mul, Nat.mul_comm size n]

theorem read_of_take {x : List β} {m offset n : Nat} (h : read (data.take m) offset n = some x) :
    read data offset n = some x := by
  obtain ⟨hx, hle, hget⟩ := read_eq_some.mp h
  rw [List.length_take] at hle
  refine read_eq_some.mpr ⟨hx, by omega, fun i hi => ?_⟩
  rw [hget i hi, List.getElem?_take_of_lt (by omega)]

end Items

end Blob
