import Mathlib.Data.List.GetD
import SqliteMultimodal.Lib.Selection
import SqliteMultimodal.Lib.Sorting

universe u v

namespace Sorting

variable {β : Type u} {D : Type v} [LinearOrder D] [Inhabited β] (key : β → D)

def IsChild (c i : Nat) : Prop := c = i * 2 + 1 ∨ c = i * 2 + 2

def HeapFrom (p : Nat) (heap : List β) : Prop :=
  ∀ i c, p ≤ i → IsChild c i → c < heap.length →
    key (heap.getD c default) ≤ key (heap.getD i default)

/-- Only the element at `idx` may be smaller than its children, and they are not larger than its
parent. -/
structure SiftReady (p : Nat) (heap : List β) (idx : Nat) : Prop where
  others : ∀ i c, p ≤ i → i ≠ idx → IsChild c i → c < heap.length →
    key (heap.getD c default) ≤ key (heap.getD i default)
  grand : ∀ i c, p ≤ i → IsChild idx i → IsChild c idx → c < heap.length →
    key (heap.getD c default) ≤ key (heap.getD i default)

section Sift

variable {key} {p : Nat} {heap : List β} {idx : Nat}

theorem IsChild.lt {c i : Nat} (h : IsChild c i) : i < c := by
  unfold IsChild at h
  omega

theorem IsChild.parent_unique {c i j : Nat} (h : IsChild c i) (h' : IsChild c j) : i = j := by
  unfold IsChild at h h'
  omega

theorem largest_child (h : largest key heap idx ≠ idx) : IsChild (largest key heap idx) idx := by
  unfold largest at h ⊢
  dsimp only at h ⊢
  split_ifs at h ⊢ with h₁ h₂ h₂
  · exact .inr rfl
  · exact .inl rfl
  · exact .inr rfl
  · exact absurd rfl h

theorem le_largest (key : β → D) (heap : List β) (idx : Nat) :
    key (heap.getD idx default) ≤ key (heap.getD (largest key heap idx) default) ∧
      ∀ c, IsChild c idx → c < heap.length →
        key (heap.getD c default) ≤ key (heap.getD (largest key heap idx) default) := by
  unfold largest
  dsimp only
  split_ifs with h₁ h₂ h₂
  · refine ⟨h₁.2.le.trans h₂.2.le, ?_⟩
    rintro c (rfl | rfl) hc
    · exact h₂.2.le
    · exact le_rfl
  · refine ⟨h₁.2.le, ?_⟩
    rintro c (rfl | rfl) hc
    · exact le_rfl
    · exact not_lt.mp fun hlt => h₂ ⟨hc, hlt⟩
  · refine ⟨h₂.2.le, ?_⟩
    rintro c (rfl | rfl) hc
    · exact (not_lt.mp fun hlt => h₁ ⟨hc, hlt⟩).trans h₂.2.le
    · exact le_rfl
  · refine ⟨le_rfl, ?_⟩
    rintro c (rfl | rfl) hc
    · exact not_lt.mp fun hlt => h₁ ⟨hc, hlt⟩
    · exact not_lt.mp fun hlt => h₂ ⟨hc, hlt⟩

theorem getD_swap {i j : Nat} (hi : i < heap.length) (hj : j < heap.length) (k : Nat) :
    (swap heap i j).getD k default =
      if k = j then heap.getD i default else if k = i then heap.getD j default
        else heap.getD k default := by
  have hj' : j < (heap.set i (heap.getD j default)).length := by rwa [List.length_set]
  rw [swap, List.getD_eq_getElem?_getD]
  split_ifs with hkj hki
  · rw [hkj, List.getElem?_set_self hj', Option.getD_some]
  · rw [hki, List.getElem?_set_ne (hki ▸ Ne.symm hkj), List.getElem?_set_self hi, Option.getD_some]
  · rw [List.getElem?_set_ne (Ne.symm hkj), List.getElem?_set_ne (Ne.symm hki),
      List.getD_eq_getElem?_getD]

theorem length_swap (heap : List β) (i j : Nat) : (swap heap i j).length = heap.length := by
  rw [swap, List.length_set, List.length_set]

theorem SiftReady.finish (h : SiftReady key p heap idx) (hstop : largest key heap idx = idx) :
    HeapFrom key p heap := by
  intro i c hi hc hlt
  by_cases hidx : i = idx
  · subst hidx
    have hle := (le_largest key heap i).2 c hc hlt
    rwa [hstop] at hle
  · exact h.others i c hi hidx hc hlt

theorem SiftReady.move (h : SiftReady key p heap idx) (hp : p ≤ idx)
    (hne : largest key heap idx ≠ idx) :
    SiftReady key p (swap heap idx (largest key heap idx)) (largest key heap idx) := by
  have hchild := largest_child hne
  obtain ⟨hle, hall⟩ := le_largest key heap idx
  have hlt := (largest_cases key heap idx).resolve_left hne
  generalize largest key heap idx = m at hne hchild hle hall hlt
  have hget := getD_swap (Nat.lt_trans hlt.1 hlt.2) hlt.2
  constructor
  · intro i c hi him hc hclt
    rw [length_swap] at hclt
    have hci := hc.lt
    rw [hget, hget, if_neg him]
    by_cases hcm : c = m
    · obtain rfl : i = idx := (hcm ▸ hc).parent_unique hchild
      rwa [if_pos hcm, if_pos rfl]
    · rw [if_neg hcm]
      by_cases hcidx : c = idx
      · rw [if_pos hcidx, if_neg (Nat.ne_of_lt (hcidx ▸ hci))]
        exact h.grand i m hi (hcidx ▸ hc) hchild hlt.2
      · rw [if_neg hcidx]
        split_ifs with hidx
        · exact hall c (hidx ▸ hc) hclt
        · exact h.others i c hi hidx hc hclt
  · intro i c hi hm hc hclt
    obtain rfl := hm.parent_unique hchild
    rw [length_swap] at hclt
    have hcm := hc.lt
    rw [hget, hget, if_neg (Nat.ne_of_gt hcm), if_neg (Nat.ne_of_gt (Nat.lt_trans hlt.1 hcm)),
      if_neg (Nat.ne_of_lt hlt.1), if_pos rfl]
    exact h.others m c (Nat.le_trans hp hlt.1.le) (Nat.ne_of_gt hlt.1) hc hclt

theorem heapFrom_siftDownFuel {n : Nat} (h : SiftReady key p heap idx) (hp : p ≤ idx)
    (hn : heap.length ≤ n + idx) : HeapFrom key p (siftDownFuel key n heap idx) := by
  induction n generalizing heap idx with
  | zero =>
    intro i c hi hc hlt
    change c < heap.length at hlt
    refine h.others i c hi (fun hidx => ?_) hc hlt
    have := hc.lt
    omega
  | succ n ih =>
    unfold siftDownFuel
    dsimp only
    split
    next hstop => exact h.finish hstop
    next hne =>
      have hlt := (largest_cases key heap idx).resolve_left hne
      refine ih (h.move hp hne) (Nat.le_trans hp hlt.1.le) ?_
      rw [length_swap]
      omega

theorem heapFrom_siftDown (h : SiftReady key p heap idx) (hp : p ≤ idx) :
    HeapFrom key p (siftDown key heap idx) :=
  heapFrom_siftDownFuel h hp (Nat.le_add_right _ _)

end Sift

section Up

variable {key} {heap : List β} {idx : Nat}

variable (key) in
def siftUpFuel : Nat → List β → Nat → List β
  | 0, heap, _ => heap
  | n + 1, heap, i =>
    if 0 < i ∧ key (heap.getD ((i - 1) / 2) default) < key (heap.getD i default) then
      siftUpFuel n (swap heap i ((i - 1) / 2)) ((i - 1) / 2)
    else heap

variable (key) in
def siftUp (heap : List β) (i : Nat) : List β := siftUpFuel key i heap i

/-- Only the element at `idx` may be larger than its parent, and its children are not. -/
structure RiseReady (key : β → D) (heap : List β) (idx : Nat) : Prop where
  others : ∀ i c, c ≠ idx → IsChild c i → c < heap.length →
    key (heap.getD c default) ≤ key (heap.getD i default)
  grand : ∀ i c, IsChild idx i → IsChild c idx → c < heap.length →
    key (heap.getD c default) ≤ key (heap.getD i default)

theorem isChild_parent {i : Nat} (h : 0 < i) : IsChild i ((i - 1) / 2) := by
  unfold IsChild
  omega

theorem RiseReady.finish (h : RiseReady key heap idx)
    (hstop : ¬ (0 < idx ∧ key (heap.getD ((idx - 1) / 2) default) < key (heap.getD idx default))) :
    HeapFrom key 0 heap := by
  intro i c _ hc hlt
  by_cases hidx : c = idx
  · subst hidx
    have hpos : 0 < c := (Nat.zero_le i).trans_lt hc.lt
    obtain rfl := hc.parent_unique (isChild_parent hpos)
    exact not_lt.mp fun hkey => hstop ⟨hpos, hkey⟩
  · exact h.others i c hidx hc hlt

theorem RiseReady.move (h : RiseReady key heap idx) (hlen : idx < heap.length) (hpos : 0 < idx)
    (hkey : key (heap.getD ((idx - 1) / 2) default) < key (heap.getD idx default)) :
    RiseReady key (swap heap idx ((idx - 1) / 2)) ((idx - 1) / 2) := by
  have hchild := isChild_parent hpos
  generalize (idx - 1) / 2 = p at hchild hkey
  have hlt := hchild.lt
  have hget := getD_swap hlen (hlt.trans hlen)
  constructor
  · intro i c hcp hc hclt
    rw [length_swap] at hclt
    have hci := hc.lt
    rw [hget, hget, if_neg hcp]
    by_cases hcidx : c = idx
    · obtain rfl := (hcidx ▸ hc).parent_unique hchild
      rw [if_pos hcidx, if_pos rfl]
      exact hkey.le
    · rw [if_neg hcidx]
      split_ifs with hip hiidx
      · exact (h.others p c hcidx (hip ▸ hc) hclt).trans hkey.le
      · exact h.grand p c hchild (hiidx ▸ hc) hclt
      · exact h.others i c hcidx hc hclt
  · intro i c hp hc hclt
    rw [length_swap] at hclt
    have hip := hp.lt
    have hpi := h.others i p (Nat.ne_of_lt hlt) hp (hlt.trans hlen)
    rw [hget, hget, if_neg (Nat.ne_of_gt hc.lt), if_neg (Nat.ne_of_lt hip),
      if_neg (Nat.ne_of_lt (hip.trans hlt))]
    split_ifs with hcidx
    · exact hpi
    · exact (h.others p c hcidx hc hclt).trans hpi

theorem heapFrom_siftUpFuel {n : Nat} (h : RiseReady key heap idx) (hlen : idx < heap.length)
    (hn : idx ≤ n) : HeapFrom key 0 (siftUpFuel key n heap idx) := by
  induction n generalizing heap idx with
  | zero =>
    refine h.finish fun hpos => ?_
    exact absurd hpos.1 (Nat.not_lt.mpr hn)
  | succ n ih =>
    unfold siftUpFuel
    split
    next hup =>
      have hlt := (isChild_parent hup.1).lt
      refine ih (h.move hlen hup.1 hup.2) ?_ ?_
      · rw [length_swap]
        exact hlt.trans hlen
      · exact Nat.le_of_lt_succ (hlt.trans_le hn)
    next hstop => exact h.finish hstop

theorem HeapFrom.riseReady (h : HeapFrom key 0 heap) (x : β) :
    RiseReady key (heap ++ [x]) heap.length where
  others i c hne hc hlt := by
    rw [List.length_append, List.length_singleton] at hlt
    have hc' : c < heap.length := by omega
    have hi := hc.lt.trans hc'
    rw [List.getD_append _ _ _ _ hc', List.getD_append _ _ _ _ hi]
    exact h i c (Nat.zero_le i) hc hc'
  grand i c _ hc hlt := by
    rw [List.length_append, List.length_singleton] at hlt
    have hlt' := hc.lt
    omega

theorem heapFrom_siftUp (h : HeapFrom key 0 heap) (x : β) :
    HeapFrom key 0 (siftUp key (heap ++ [x]) heap.length) :=
  heapFrom_siftUpFuel (h.riseReady x) (by simp) le_rfl

variable (key) in
theorem siftUpFuel_perm (n : Nat) {heap : List β} {i : Nat} (hi : i < heap.length) :
    (siftUpFuel key n heap i).Perm heap := by
  induction n generalizing heap i with
  | zero => exact .refl heap
  | succ n ih =>
    unfold siftUpFuel
    split
    next hup =>
      have hlt := (isChild_parent hup.1).lt.trans hi
      exact (ih (by rwa [length_swap])).trans (swap_perm hi hlt)
    next => exact .refl heap

end Up

section Build

variable {key} {heap : List β}

theorem heapFrom_half (heap : List β) : HeapFrom key (heap.length / 2) heap := by
  intro i c hi hc hlt
  unfold IsChild at hc
  omega

theorem HeapFrom.siftReady {p : Nat} (h : HeapFrom key (p + 1) heap) : SiftReady key p heap p where
  others i c hi hne hc hlt := h i c (by omega) hc hlt
  grand i c hi hchild := by
    have := hchild.lt
    omega

theorem heapFrom_build {p : Nat} (h : HeapFrom key p heap) :
    HeapFrom key 0 ((List.range p).reverse.foldl (siftDown key) heap) := by
  induction p generalizing heap with
  | zero => exact h
  | succ p ih =>
    rw [List.range_succ, List.reverse_append, List.reverse_singleton, List.singleton_append,
      List.foldl_cons]
    exact ih (heapFrom_siftDown h.siftReady (Nat.le_refl p))

variable (key) in
theorem build_perm (is : List Nat) (heap : List β) :
    (is.foldl (siftDown key) heap).Perm heap := by
  induction is generalizing heap with
  | nil => exact .refl heap
  | cons i is ih => exact (ih _).trans (siftDown_perm key heap i)

theorem HeapFrom.le_root (h : HeapFrom key 0 heap) {i : Nat} (hi : i < heap.length) :
    key (heap.getD i default) ≤ key (heap.getD 0 default) := by
  induction i using Nat.strong_induction_on with
  | h i ih =>
    rcases Nat.eq_zero_or_pos i with rfl | hpos
    · exact le_rfl
    · have hchild : IsChild i ((i - 1) / 2) := by
        unfold IsChild
        omega
      exact (h _ i (Nat.zero_le _) hchild hi).trans (ih _ hchild.lt (Nat.lt_trans hchild.lt hi))

theorem HeapFrom.le_head {x : β} {t : List β} (h : HeapFrom key 0 (x :: t)) :
    ∀ y ∈ t, key y ≤ key x := by
  intro y hy
  obtain ⟨i, hi⟩ := List.mem_iff_getElem?.mp (List.mem_cons_of_mem x hy)
  have hle := h.le_root (List.getElem?_eq_some_iff.mp hi).1
  rwa [List.getD_eq_getElem?_getD, hi] at hle

theorem HeapFrom.setRoot (h : HeapFrom key 0 heap) (x : β) (n : Nat) :
    SiftReady key 0 ((heap.set 0 x).take n) 0 where
  others i c _ hne hc hlt := by
    rw [List.length_take, List.length_set] at hlt
    have hci := hc.lt
    have hget : ∀ k, k ≠ 0 → k < n → ((heap.set 0 x).take n).getD k default =
        heap.getD k default := by
      intro k hk hkn
      rw [List.getD_eq_getElem?_getD, List.getElem?_take_of_lt hkn,
        List.getElem?_set_ne (Ne.symm hk), List.getD_eq_getElem?_getD]
    rw [hget c (by omega) (by omega), hget i hne (by omega)]
    exact h i c (Nat.zero_le i) hc (by omega)
  grand i c _ hchild := by
    have := hchild.lt
    omega

end Build

section Drain

variable {key}

theorem drain_sorted {n : Nat} {heap buf : List β} (hheap : HeapFrom key 0 heap)
    (hlen : heap.length = n) (hbuf : buf.Pairwise fun a b => key a ≤ key b)
    (hle : ∀ a ∈ heap, ∀ b ∈ buf, key a ≤ key b) :
    (drain key n heap buf).Pairwise fun a b => key a ≤ key b := by
  induction n generalizing heap buf with
  | zero => exact hbuf
  | succ n ih =>
    obtain ⟨x, t, rfl⟩ := List.exists_cons_of_length_eq_add_one hlen
    have hready := hheap.setRoot ((x :: t).getD ((x :: t).length - 1) default)
      (((x :: t).set 0 ((x :: t).getD ((x :: t).length - 1) default)).length - 1)
    rw [← List.dropLast_eq_take] at hready
    have hperm := (siftDown_perm key _ 0).trans (perm_popRoot x t)
    have hroot : ∀ y ∈ t, key y ≤ key x := hheap.le_head
    refine ih (heapFrom_siftDown hready (Nat.le_refl 0)) ?_ ?_ ?_
    · rw [hperm.length_eq]
      exact Nat.succ.inj hlen
    · exact List.pairwise_cons.mpr ⟨hle x List.mem_cons_self, hbuf⟩
    · intro a ha b hb
      have hat := hperm.mem_iff.mp ha
      obtain rfl | hb := List.mem_cons.mp hb
      · exact hroot a hat
      · exact hle a (List.mem_cons_of_mem x hat) b hb

theorem drain_eq_append (n : Nat) (heap buf : List β) :
    drain key n heap buf = drain key n heap [] ++ buf := by
  induction n generalizing heap buf with
  | zero => rfl
  | succ n ih => rw [drain, ih, drain, ih _ [_], List.append_assoc, List.singleton_append]

theorem le_head_of_drain_sorted {x : β} {t : List β}
    (h : (drain key (x :: t).length (x :: t) []).Pairwise fun a b => key a ≤ key b) :
    ∀ y ∈ t, key y ≤ key x := by
  rw [List.length_cons, drain, drain_eq_append, List.pairwise_append] at h
  have hperm := (siftDown_perm key _ 0).trans (perm_popRoot x t)
  have hdrain : (drain key t.length (siftDown key ((x :: t).set 0
      ((x :: t).getD ((x :: t).length - 1) default)).dropLast 0) []).Perm (_ ++ []) :=
    drain_perm key hperm.length_eq
  rw [List.append_nil] at hdrain
  intro y hy
  exact h.2.2 y ((hdrain.trans hperm).mem_iff.mpr hy) x List.mem_cons_self

end Drain

section Bounded

variable {key} {k : Nat} {heap : List β}

variable (key) in
def offer (k : Nat) (heap : List β) (x : β) : List β :=
  if heap.length < k then
    let heap := heap ++ [x]
    if heap.length = k then (List.range (k / 2)).reverse.foldl (siftDown key) heap else heap
  else if key x < key (heap.getD 0 default) then siftDown key (heap.set 0 x) 0
  else heap

variable (key) in
/-- The array after `seen` has been offered: the `k` smallest, in the order of a heap once there are
`k` of them, and all of them in their own order before that. -/
structure Keeps (k : Nat) (seen heap : List β) : Prop where
  smallest : Smallest key k (seen : Multiset β) heap
  ordered : heap.length = k → HeapFrom key 0 heap
  unsorted : seen.length < k → heap = seen

variable (key) in
theorem Keeps.zero (seen : List β) : Keeps key 0 seen [] where
  smallest := ⟨seen, by simp⟩
  ordered _ _ c _ _ hlt := absurd hlt (Nat.not_lt_zero c)
  unsorted h := absurd h (Nat.not_lt_zero _)

variable (key k) in
theorem Keeps.nil : Keeps key k [] [] where
  smallest := .zero key k
  ordered _ _ c _ _ hlt := absurd hlt (Nat.not_lt_zero c)
  unsorted _ := rfl

theorem Keeps.offer {seen : List β} (h : Keeps key k seen heap) (hk : 0 < k) (x : β) :
    Keeps key k (seen ++ [x]) (offer key k heap x) := by
  have hseen : ((seen ++ [x] : List β) : Multiset β) = x ::ₘ (seen : Multiset β) :=
    Multiset.coe_eq_coe.mpr (List.perm_append_singleton x seen)
  have hcard := h.smallest.card_eq
  rw [Multiset.coe_card, Multiset.coe_card] at hcard
  unfold Sorting.offer
  split
  next hlt =>
    have hall := h.smallest.cons_of_lt hlt x
    have hcons : x ::ₘ (heap : Multiset β) = (heap ++ [x] : List β) :=
      (Multiset.coe_eq_coe.mpr (List.perm_append_singleton x heap)).symm
    rw [hcons, ← hseen] at hall
    dsimp only
    split
    next hfull =>
      have hperm := build_perm key (List.range (k / 2)).reverse (heap ++ [x])
      refine ⟨?_, fun _ => ?_, fun hshort => ?_⟩
      · rwa [Multiset.coe_eq_coe.mpr hperm]
      · refine heapFrom_build ?_
        rw [← hfull]
        exact heapFrom_half _
      · rw [List.length_append] at hshort hfull
        omega
    next hnot =>
      refine ⟨hall, fun hfull => absurd hfull hnot, fun hshort => ?_⟩
      rw [List.length_append, List.length_singleton] at hshort
      rw [h.unsorted (by omega)]
  next hge =>
    have hfull : heap.length = k := by omega
    obtain ⟨m, t, rfl⟩ := List.exists_cons_of_length_pos (hfull ▸ hk)
    have hroot := (h.ordered hfull).le_head
    have hshort : ¬ (seen ++ [x]).length < k := by
      rw [List.length_append]
      omega
    split
    next hbelow =>
      have hperm := siftDown_perm key ((m :: t).set 0 x) 0
      refine ⟨?_, fun _ => ?_, fun h => absurd h hshort⟩
      · have hkept : Smallest key k (seen : Multiset β) (m ::ₘ (t : Multiset β)) := h.smallest
        rw [Multiset.coe_eq_coe.mpr hperm, hseen]
        exact hkept.replace hfull hroot hbelow
      · have hready := (h.ordered hfull).setRoot x ((m :: t).set 0 x).length
        rw [List.take_length] at hready
        exact heapFrom_siftDown hready (Nat.le_refl 0)
    next hnot =>
      refine ⟨?_, h.ordered, fun h => absurd h hshort⟩
      have hadd : Smallest key k ((seen : Multiset β) + {x}) (m :: t : List β) := by
        refine h.smallest.add_of_le hfull fun a ha b hb => ?_
        have hx : key m ≤ key x := not_lt.mp hnot
        rw [Multiset.mem_singleton.mp hb]
        obtain rfl | hat := List.mem_cons.mp (Multiset.mem_coe.mp ha)
        · exact hx
        · exact (hroot a hat).trans hx
      rwa [hseen, ← Multiset.singleton_add, add_comm]

theorem Keeps.foldl_offer {seen : List β} (h : Keeps key k seen heap) (hk : 0 < k) (xs : List β) :
    Keeps key k (seen ++ xs) (xs.foldl (Sorting.offer key k) heap) := by
  induction xs generalizing seen heap with
  | nil => rwa [List.append_nil]
  | cons x xs ih =>
    have hstep := ih (h.offer hk x)
    rwa [List.append_assoc, List.singleton_append] at hstep

end Bounded

end Sorting
