import Mathlib.Data.List.Basic

universe u

abbrev Block (β : Type u) := List (Option β)

namespace Block

variable {β : Type u}

section Operations

def alloc (n : Nat) : Block β := List.replicate n none

def realloc (b : Block β) (n : Nat) : Block β := b.take n ++ alloc (n - b.length)

def load (b : Block β) (i : Nat) : Option β := b[i]?.join

def store (b : Block β) (i : Nat) (x : β) : Option (Block β) :=
  if i < b.length then some (b.set i (some x)) else none

def storeAll (b : Block β) (i : Nat) : List β → Option (Block β)
  | [] => some b
  | x :: xs => (store b i x).bind fun b => storeAll b (i + 1) xs

end Operations

def Filled (b : Block β) (xs : List β) : Prop := xs.map some <+: b

variable {b : Block β} {xs ys : List β} {i n : Nat}

theorem length_alloc (n : Nat) : (alloc n : Block β).length = n := List.length_replicate

theorem length_realloc (b : Block β) (n : Nat) : (realloc b n).length = n := by
  rw [realloc, List.length_append, List.length_take, length_alloc]
  omega

theorem Filled.nil (b : Block β) : Filled b [] := List.nil_prefix

theorem Filled.length_le (h : Filled b xs) : xs.length ≤ b.length := by
  have hle := List.IsPrefix.length_le h
  rwa [List.length_map] at hle

theorem Filled.left (h : Filled b (xs ++ ys)) : Filled b xs := by
  rw [Filled, List.map_append] at h
  exact (List.prefix_append _ _).trans h

theorem Filled.load (h : Filled b xs) (hi : i < xs.length) : load b i = some xs[i] := by
  obtain ⟨free, rfl⟩ := h
  rw [Block.load, List.getElem?_append_left (by rwa [List.length_map]), List.getElem?_map,
    List.getElem?_eq_getElem hi]
  rfl

theorem store_eq (hi : i < b.length) (x : β) : store b i x = some (b.set i (some x)) := if_pos hi

theorem Filled.set (h : Filled b xs) (hi : i < xs.length) (x : β) :
    Filled (b.set i (some x)) (xs.set i x) := by
  obtain ⟨free, rfl⟩ := h
  rw [List.set_append_left _ _ (by rwa [List.length_map]), Filled, List.map_set]
  exact List.prefix_append _ _

theorem Filled.push (h : Filled b xs) (hroom : xs.length < b.length) (x : β) :
    Filled (b.set xs.length (some x)) (xs ++ [x]) := by
  obtain ⟨free, rfl⟩ := h
  rw [List.length_append, List.length_map] at hroom
  cases free with
  | nil => exact absurd hroom (Nat.lt_irrefl _)
  | cons y free =>
    rw [List.set_append_right _ _ (Nat.le_of_eq (List.length_map some)), List.length_map,
      Nat.sub_self, Filled, List.map_append]
    exact ⟨free, List.append_assoc _ _ _⟩

theorem Filled.pushAll (h : Filled b xs) (ys : List β) (hroom : xs.length + ys.length ≤ b.length) :
    ∃ b', storeAll b xs.length ys = some b' ∧ b'.length = b.length ∧ Filled b' (xs ++ ys) := by
  induction ys generalizing b xs with
  | nil => exact ⟨b, rfl, rfl, by rwa [List.append_nil]⟩
  | cons y ys ih =>
    rw [List.length_cons] at hroom
    have hlt : xs.length < b.length := by omega
    have hnext := ih (h.push hlt y) (by simp only [List.length_append, List.length_set,
      List.length_cons, List.length_nil]; omega)
    rw [List.length_append, List.length_singleton, List.length_set, List.append_assoc] at hnext
    obtain ⟨b', hstore, hlength, hfilled⟩ := hnext
    refine ⟨b', ?_, hlength, hfilled⟩
    rw [storeAll, store_eq hlt]
    exact hstore

theorem Filled.realloc (h : Filled b xs) (hn : xs.length ≤ n) : Filled (realloc b n) xs := by
  have htake : xs.map some <+: b.take n := by
    obtain ⟨free, rfl⟩ := h
    rw [List.take_append, List.take_of_length_le (by rwa [List.length_map])]
    exact List.prefix_append _ _
  exact htake.trans (List.prefix_append _ _)

section Strings

def nul : Char := '\x00'

def cString : Block Char → Option (List Char)
  | [] => none
  | none :: _ => none
  | some c :: b => if c = nul then some [] else (cString b).map (c :: ·)

theorem cString_of_filled {b : Block Char} {t : List Char} (h : Filled b (t ++ [nul]))
    (ht : nul ∉ t) : cString b = some t := by
  obtain ⟨free, rfl⟩ := h
  induction t with
  | nil => exact if_pos rfl
  | cons c t ih =>
    rw [List.mem_cons, not_or] at ht
    rw [List.cons_append, List.map_cons, List.cons_append, cString, if_neg (Ne.symm ht.1), ih ht.2]
    rfl

end Strings

end Block
