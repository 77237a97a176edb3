import Mathlib.Data.List.Basic

universe u

abbrev Heap (α : Type u) := Nat → Option α

namespace Heap

variable {α : Type u}

def store (h : Heap α) (a : Nat) (x : α) : Heap α := fun b => if b = a then some x else h b

def free (h : Heap α) (a : Nat) : Heap α := fun b => if b = a then none else h b

@[simp] theorem store_self (h : Heap α) (a : Nat) (x : α) : h.store a x a = some x := if_pos rfl

theorem store_ne {a b : Nat} (hne : b ≠ a) (h : Heap α) (x : α) : h.store a x b = h b := if_neg hne

@[simp] theorem free_self (h : Heap α) (a : Nat) : h.free a a = none := if_pos rfl

theorem free_ne {a b : Nat} (hne : b ≠ a) (h : Heap α) : h.free a b = h b := if_neg hne

variable (next : α → Option Nat)

def Follows (h : Heap α) : Option Nat → List Nat → Prop
  | _, [] => True
  | p, a :: as => p = some a ∧ ∃ x, h a = some x ∧ Follows h (next x) as

def Linked (h : Heap α) : Option Nat → List Nat → Prop
  | p, [] => p = none
  | p, a :: as => p = some a ∧ ∃ x, h a = some x ∧ Linked h (next x) as

def Segment (h : Heap α) : Option Nat → List Nat → Option Nat → Prop
  | p, [], q => p = q
  | p, a :: as, q => p = some a ∧ ∃ x, h a = some x ∧ Segment h (next x) as q

variable {next} {h h' : Heap α} {p : Option Nat} {as : List Nat}

theorem Linked.congr (hlinked : Linked next h p as)
    (heq : ∀ a ∈ as, (h' a).map next = (h a).map next) : Linked next h' p as := by
  induction as generalizing p with
  | nil => exact hlinked
  | cons a as ih =>
    obtain ⟨hp, x, hx, hrest⟩ := hlinked
    have ha := heq a List.mem_cons_self
    rw [hx] at ha
    obtain ⟨y, hy, hnext⟩ := Option.map_eq_some_iff.mp ha
    exact ⟨hp, y, hy, hnext ▸ ih hrest fun b hb => heq b (List.mem_cons_of_mem a hb)⟩

theorem Follows.congr (hfollows : Follows next h p as)
    (heq : ∀ a ∈ as, (h' a).map next = (h a).map next) : Follows next h' p as := by
  induction as generalizing p with
  | nil => trivial
  | cons a as ih =>
    obtain ⟨hp, x, hx, hrest⟩ := hfollows
    have ha := heq a List.mem_cons_self
    rw [hx] at ha
    obtain ⟨y, hy, hnext⟩ := Option.map_eq_some_iff.mp ha
    exact ⟨hp, y, hy, hnext ▸ ih hrest fun b hb => heq b (List.mem_cons_of_mem a hb)⟩

theorem Follows.live (hfollows : Follows next h p as) {a : Nat} (ha : a ∈ as) :
    ∃ x, h a = some x := by
  induction as generalizing p with
  | nil => exact absurd ha List.not_mem_nil
  | cons b as ih =>
    obtain ⟨-, x, hx, hrest⟩ := hfollows
    obtain rfl | ha := List.mem_cons.mp ha
    · exact ⟨x, hx⟩
    · exact ih hrest ha

theorem Linked.head (hlinked : Linked next h p as) : p = as.head? := by
  cases as with
  | nil => exact hlinked
  | cons a as => exact hlinked.1

theorem Linked.live (hlinked : Linked next h p as) {a : Nat} (ha : a ∈ as) : ∃ x, h a = some x := by
  induction as generalizing p with
  | nil => exact absurd ha List.not_mem_nil
  | cons b as ih =>
    obtain ⟨-, x, hx, hrest⟩ := hlinked
    obtain rfl | ha := List.mem_cons.mp ha
    · exact ⟨x, hx⟩
    · exact ih hrest ha

theorem Linked.unique {bs : List Nat} (hlinked : Linked next h p as) (hother : Linked next h p bs) :
    as = bs := by
  induction as generalizing p bs with
  | nil =>
    cases bs with
    | nil => rfl
    | cons b bs => exact absurd (hother.1.symm.trans hlinked) (Option.some_ne_none b)
  | cons a as ih =>
    obtain ⟨hp, x, hx, hrest⟩ := hlinked
    cases bs with
    | nil => exact absurd (hp.symm.trans hother) (Option.some_ne_none a)
    | cons b bs =>
      obtain ⟨hp', y, hy, hrest'⟩ := hother
      obtain rfl := Option.some.inj (hp.symm.trans hp')
      obtain rfl := Option.some.inj (hx.symm.trans hy)
      rw [ih hrest hrest']

theorem linked_append {bs : List Nat} :
    Linked next h p (as ++ bs) ↔ ∃ q, Segment next h p as q ∧ Linked next h q bs := by
  induction as generalizing p with
  | nil => exact ⟨fun hlinked => ⟨p, rfl, hlinked⟩, fun ⟨_, hq, hlinked⟩ => hq ▸ hlinked⟩
  | cons a as ih =>
    constructor
    · rintro ⟨hp, x, hx, hrest⟩
      obtain ⟨q, hsegment, hlinked⟩ := ih.mp hrest
      exact ⟨q, ⟨hp, x, hx, hsegment⟩, hlinked⟩
    · rintro ⟨q, ⟨hp, x, hx, hsegment⟩, hlinked⟩
      exact ⟨hp, x, hx, ih.mpr ⟨q, hsegment, hlinked⟩⟩

theorem Segment.congr {q : Option Nat} (hsegment : Segment next h p as q)
    (heq : ∀ a ∈ as, h' a = h a) : Segment next h' p as q := by
  induction as generalizing p with
  | nil => exact hsegment
  | cons a as ih =>
    obtain ⟨hp, x, hx, hrest⟩ := hsegment
    exact ⟨hp, x, (heq a List.mem_cons_self).trans hx,
      ih hrest fun b hb => heq b (List.mem_cons_of_mem a hb)⟩

theorem Linked.nodup (hlinked : Linked next h p as) : as.Nodup := by
  induction as generalizing p with
  | nil => exact List.nodup_nil
  | cons a as ih =>
    obtain ⟨rfl, x, hx, hrest⟩ := hlinked
    refine List.nodup_cons.mpr ⟨fun ha => ?_, ih hrest⟩
    obtain ⟨us, vs, rfl⟩ := List.append_of_mem ha
    obtain ⟨q, -, hfrom⟩ := linked_append.mp hrest
    obtain rfl := hfrom.1
    have hwhole : Linked next h (some a) (a :: (us ++ a :: vs)) := ⟨rfl, x, hx, hrest⟩
    have hlen := congrArg List.length (hfrom.unique hwhole)
    simp only [List.length_cons, List.length_append] at hlen
    omega

theorem Linked.snoc {l a : Nat} {y z : α} (hlinked : Linked next h p (as ++ [l]))
    (ha : h a = none) (hy : next y = some a) (hz : next z = none) :
    Linked next ((h.store a z).store l y) p (as ++ [l] ++ [a]) := by
  have hnodup := hlinked.nodup
  have hl : l ∉ as := fun hmem => (List.nodup_append.mp hnodup).2.2 l hmem l List.mem_cons_self rfl
  have hne : ∀ b ∈ as ++ [l], b ≠ a := by
    rintro b hb rfl
    obtain ⟨x, hx⟩ := hlinked.live hb
    exact Option.some_ne_none x (hx.symm.trans ha)
  obtain ⟨q, hsegment, rfl, x, hx, -⟩ := linked_append.mp hlinked
  rw [List.append_assoc]
  refine linked_append.mpr ⟨some l, hsegment.congr fun b hb => ?_, rfl, y, store_self _ _ _, hy, z,
    ?_, hz⟩
  · have hbl : b ≠ l := fun hbl => hl (hbl ▸ hb)
    rw [store_ne hbl, store_ne (hne b (List.mem_append_left _ hb))]
  · rw [store_ne (hne l (List.mem_append_right _ List.mem_cons_self)).symm, store_self]

theorem Linked.dropLast {k l : Nat} {y : α} (hlinked : Linked next h p (as ++ [k] ++ [l]))
    (hy : next y = none) : Linked next ((h.store k y).free l) p (as ++ [k]) := by
  have hnodup := hlinked.nodup
  rw [List.append_assoc] at hlinked hnodup
  obtain ⟨q, hsegment, rfl, x, hx, hrest⟩ := linked_append.mp hlinked
  have hdisjoint := (List.nodup_append.mp hnodup).2.2
  have hkl : k ≠ l :=
    List.ne_of_not_mem_cons (List.nodup_cons.mp (List.nodup_append.mp hnodup).2.1).1
  refine linked_append.mpr ⟨some k, hsegment.congr fun b hb => ?_, rfl, y, ?_, hy⟩
  · have hbk : b ≠ k := hdisjoint b hb k List.mem_cons_self
    have hbl : b ≠ l := hdisjoint b hb l (List.mem_cons_of_mem k List.mem_cons_self)
    rw [free_ne hbl, store_ne hbk]
  · rw [free_ne hkl, store_self]

end Heap
