import Mathlib.Algebra.Order.Group.Multiset
import Mathlib.Data.Finset.Defs
import Mathlib.Data.Multiset.Filter
import Mathlib.Data.Multiset.Sort
import Mathlib.Logic.Function.Basic

universe u v

section Selection

variable {β : Type u} {γ : Type v} [LinearOrder γ]

def Smallest (key : β → γ) (k : Nat) (xs kept : Multiset β) : Prop :=
  ∃ rest, kept + rest = xs ∧ kept.card = min k xs.card ∧ ∀ a ∈ kept, ∀ b ∈ rest, key a ≤ key b

namespace Smallest

variable {key : β → γ} {k : Nat} {xs ys kept : Multiset β}

theorem zero (key : β → γ) (k : Nat) : Smallest key k 0 0 :=
  ⟨0, by simp⟩

theorem le (h : Smallest key k xs kept) : kept ≤ xs := by
  obtain ⟨rest, rfl, -⟩ := h
  exact Multiset.le_add_right _ _

theorem card_eq (h : Smallest key k xs kept) : kept.card = min k xs.card := by
  obtain ⟨rest, -, hcard, -⟩ := h
  exact hcard

theorem eq_of_card_lt (h : Smallest key k xs kept) (hlt : kept.card < k) : kept = xs := by
  apply Multiset.eq_of_le_of_card_le h.le
  have := h.card_eq
  omega

theorem of_min {n : Nat} (h : Smallest key (min k n) xs kept) (hn : xs.card ≤ n) :
    Smallest key k xs kept := by
  obtain ⟨rest, hrest, hcard, hle⟩ := h
  exact ⟨rest, hrest, by omega, hle⟩

theorem cons_of_lt (h : Smallest key k xs kept) (hlt : kept.card < k) (x : β) :
    Smallest key k (x ::ₘ xs) (x ::ₘ kept) := by
  have heq := h.eq_of_card_lt hlt
  subst heq
  refine ⟨0, by simp, ?_, by simp⟩
  simp only [Multiset.card_cons]
  omega

theorem add_of_le (h : Smallest key k xs kept) (hfull : kept.card = k)
    (hle : ∀ a ∈ kept, ∀ b ∈ ys, key a ≤ key b) : Smallest key k (xs + ys) kept := by
  obtain ⟨rest, rfl, -, hrest⟩ := h
  refine ⟨rest + ys, (add_assoc _ _ _).symm, ?_, ?_⟩
  · simp only [Multiset.card_add]
    omega
  · intro a ha b hb
    obtain hb | hb := Multiset.mem_add.mp hb
    · exact hrest a ha b hb
    · exact hle a ha b hb

theorem replace (h : Smallest key k xs (m ::ₘ kept)) (hfull : kept.card + 1 = k)
    (hmax : ∀ a ∈ kept, key a ≤ key m) {x : β} (hx : key x < key m) :
    Smallest key k (x ::ₘ xs) (x ::ₘ kept) := by
  obtain ⟨rest, rfl, -, hrest⟩ := h
  refine ⟨m ::ₘ rest, ?_, ?_, ?_⟩
  · rw [Multiset.cons_add, Multiset.add_cons, Multiset.cons_add, Multiset.cons_swap]
  · simp only [Multiset.card_cons, Multiset.card_add]
    omega
  · intro a ha b hb
    have ham : key a ≤ key m := by
      obtain rfl | ha := Multiset.mem_cons.mp ha
      · exact hx.le
      · exact hmax a ha
    obtain rfl | hb := Multiset.mem_cons.mp hb
    · exact ham
    · exact ham.trans (hrest m (Multiset.mem_cons_self ..) b hb)

theorem cons_of_le (h : Smallest key k xs kept) {x : β} (hle : ∀ y ∈ xs, key x ≤ key y) :
    Smallest key (k + 1) (x ::ₘ xs) (x ::ₘ kept) := by
  obtain ⟨rest, rfl, hcard, hrest⟩ := h
  refine ⟨rest, Multiset.cons_add x kept rest, ?_, fun a ha b hb => ?_⟩
  · simp only [Multiset.card_cons]
    omega
  · obtain rfl | ha := Multiset.mem_cons.mp ha
    · exact hle b (Multiset.mem_add.mpr (.inr hb))
    · exact hrest a ha b hb

theorem take_of_sorted {l : List β} (h : l.Pairwise (fun a b => key a ≤ key b)) (k : Nat) :
    Smallest key k (l : Multiset β) (l.take k : List β) := by
  refine ⟨(l.drop k : List β), ?_, by simp, fun a ha b hb => ?_⟩
  · rw [Multiset.coe_add, List.take_append_drop]
  · rw [← List.take_append_drop k l, List.pairwise_append] at h
    exact h.2.2 a (Multiset.mem_coe.mp ha) b (Multiset.mem_coe.mp hb)

theorem map {δ : Type*} {key' : δ → γ} (f : β → δ) (hkey : ∀ x ∈ xs, key' (f x) = key x)
    (h : Smallest key k xs kept) : Smallest key' k (xs.map f) (kept.map f) := by
  obtain ⟨rest, rfl, hcard, hle⟩ := h
  refine ⟨rest.map f, (Multiset.map_add f kept rest).symm, by simpa using hcard, ?_⟩
  intro a ha b hb
  obtain ⟨x, hx, rfl⟩ := Multiset.mem_map.mp ha
  obtain ⟨y, hy, rfl⟩ := Multiset.mem_map.mp hb
  rw [hkey x (Multiset.mem_add.mpr (.inl hx)), hkey y (Multiset.mem_add.mpr (.inr hy))]
  exact hle x hx y hy

theorem add [DecidableEq β] {kept' : Multiset β} {sel : Multiset β} (h : Smallest key k xs kept)
    (h' : Smallest key k ys kept') (hsel : Smallest key k (kept + kept') sel) :
    Smallest key k (xs + ys) sel := by
  have bound : ∀ {zs kept other : Multiset β}, Smallest key k zs kept →
      Smallest key k (kept + other) sel → ∀ rest, kept + rest = zs →
      (∀ a ∈ kept, ∀ b ∈ rest, key a ≤ key b) → ∀ a ∈ sel, ∀ b ∈ rest, key a ≤ key b := by
    intro zs kept other hkept hsel rest hrest hle a ha b hb
    obtain ⟨left, hadd, hcard, hleft⟩ := hsel
    have hfull : kept.card = k := by
      have := hkept.card_eq
      have := Multiset.card_pos_iff_exists_mem.mpr ⟨b, hb⟩
      have := congrArg Multiset.card hrest
      simp only [Multiset.card_add] at this
      omega
    -- Either everything of `kept` was selected, or some `c` of it was left.
    by_cases hsub : kept ≤ sel
    · have hselcard : sel.card ≤ kept.card := by
        rw [hcard, hfull]
        exact min_le_left _ _
      rw [← Multiset.eq_of_le_of_card_le hsub hselcard] at ha
      exact hle a ha b hb
    · obtain ⟨c, hc⟩ : ∃ c, sel.count c < kept.count c := by
        simpa [Multiset.le_iff_count] using hsub
      have hcleft : c ∈ left := by
        have := congrArg (Multiset.count c) hadd
        simp only [Multiset.count_add] at this
        exact Multiset.count_pos.mp (by omega)
      have hckept : c ∈ kept := Multiset.count_pos.mp (by omega)
      exact (hleft a ha c hcleft).trans (hle c hckept b hb)
  obtain ⟨rest, hrest, hcard, hle⟩ := id h
  obtain ⟨rest', hrest', hcard', hle'⟩ := id h'
  obtain ⟨left, hadd, hselcard, hleft⟩ := id hsel
  refine ⟨left + rest + rest', ?_, ?_, ?_⟩
  · rw [← hrest, ← hrest', ← add_assoc, ← add_assoc, hadd]
    ac_rfl
  · simp only [Multiset.card_add] at hselcard ⊢
    omega
  · intro a ha b hb
    obtain hb | hb := Multiset.mem_add.mp hb
    · obtain hb | hb := Multiset.mem_add.mp hb
      · exact hleft a ha b hb
      · exact bound h hsel rest hrest hle a ha b hb
    · exact bound h' (add_comm kept kept' ▸ hsel) rest' hrest' hle' a ha b hb

theorem map_key (h : Smallest key k xs kept) :
    kept.map key = ((xs.map key).sort (· ≤ ·)).take k := by
  obtain ⟨rest, rfl, hcard, hle⟩ := h
  have hsorted : ((kept + rest).map key).sort (· ≤ ·) =
      (kept.map key).sort (· ≤ ·) ++ (rest.map key).sort (· ≤ ·) := by
    apply List.Perm.eq_of_pairwise' (r := (· ≤ ·)) (Multiset.pairwise_sort _ _)
    · rw [List.pairwise_append]
      refine ⟨Multiset.pairwise_sort _ _, Multiset.pairwise_sort _ _, ?_⟩
      intro a ha b hb
      obtain ⟨x, hx, rfl⟩ := Multiset.mem_map.mp ((Multiset.mem_sort _).mp ha)
      obtain ⟨y, hy, rfl⟩ := Multiset.mem_map.mp ((Multiset.mem_sort _).mp hb)
      exact hle x hx y hy
    · rw [← Multiset.coe_eq_coe, ← Multiset.coe_add]
      simp only [Multiset.sort_eq, Multiset.map_add]
  have hlen : ((kept.map key).sort (· ≤ ·)).length = kept.card := by simp
  rw [Multiset.card_add] at hcard
  rw [hsorted]
  by_cases hk : k ≤ kept.card
  · rw [List.take_append_of_le_length (by omega), List.take_of_length_le (by omega),
      Multiset.sort_eq]
  · have : rest = 0 := Multiset.card_eq_zero.mp (by omega)
    rw [this, Multiset.map_zero, Multiset.sort_zero, List.append_nil,
      List.take_of_length_le (by omega), Multiset.sort_eq]

end Smallest

/-- `out` lists, in the order of their keys, the `k` of the entries that have the smallest keys. -/
structure Nearest (k : Nat) (entry : β → γ → Prop) (out : List (β × γ)) : Prop where
  entries : ∀ x ∈ out, entry x.1 x.2
  nodup : (out.map Prod.fst).Nodup
  sorted : out.Pairwise fun x y => x.2 ≤ y.2
  length_le : out.length ≤ k
  least : ∀ b key, entry b key → b ∉ out.map Prod.fst →
    out.length = k ∧ ∀ x ∈ out, x.2 ≤ key

theorem Smallest.nearest {k : Nat} {entry : β → γ → Prop} {cands out : List (β × γ)}
    (hentry : ∀ b key, entry b key ↔ (b, key) ∈ cands) (hnodup : (cands.map Prod.fst).Nodup)
    (hsorted : out.Pairwise fun x y => x.2 ≤ y.2)
    (h : Smallest (Prod.snd : β × γ → γ) k (cands : List _) (out : List _)) :
    Nearest k entry out := by
  have hcard : out.length = min k cands.length := h.card_eq
  obtain ⟨rest, hrest, -, hle⟩ := h
  induction rest using Quotient.inductionOn with
  | _ rest =>
    have hperm : (out ++ rest).Perm cands := Multiset.coe_eq_coe.mp hrest
    have hkeys := (hperm.map Prod.fst).nodup_iff.mpr hnodup
    rw [List.map_append] at hkeys
    refine ⟨fun x hx => ?_, (List.nodup_append.mp hkeys).1, hsorted, ?_, fun b key hb hnot => ?_⟩
    · exact (hentry _ _).mpr (hperm.mem_iff.mp (List.mem_append_left rest hx))
    · rw [hcard]
      exact Nat.min_le_left k cands.length
    · obtain hmem | hmem := List.mem_append.mp (hperm.mem_iff.mpr ((hentry b key).mp hb))
      · exact absurd (List.mem_map_of_mem hmem) hnot
      · refine ⟨?_, fun x hx => hle x hx _ hmem⟩
        have hlen := hperm.length_eq
        have hpos := List.length_pos_of_mem hmem
        rw [List.length_append] at hlen
        omega

end Selection

section Keyed

variable {κ : Type u} {β : Type v} {m : Multiset (κ × β)} {f : κ → Option β}

/-- The pairs of `m` are the graph of `f`, each there once. -/
structure Keyed (m : Multiset (κ × β)) (f : κ → Option β) : Prop where
  nodup : (m.map Prod.fst).Nodup
  mem_iff : ∀ k b, (k, b) ∈ m ↔ f k = some b

namespace Keyed

theorem zero : Keyed (0 : Multiset (κ × β)) fun _ => none :=
  ⟨Multiset.nodup_zero, by simp⟩

variable [DecidableEq κ]

theorem cons (h : Keyed m f) {k : κ} (hk : f k = none) (b : β) :
    Keyed ((k, b) ::ₘ m) (Function.update f k (some b)) where
  nodup := by
    rw [Multiset.map_cons, Multiset.nodup_cons]
    refine ⟨fun hmem => ?_, h.nodup⟩
    obtain ⟨⟨k', c⟩, hc, rfl⟩ := Multiset.mem_map.mp hmem
    exact absurd (hk.symm.trans ((h.mem_iff k' c).mp hc)) (by simp)
  mem_iff k' c := by
    rw [Multiset.mem_cons, Prod.mk.injEq, h.mem_iff]
    by_cases hkk : k' = k
    · subst hkk
      simp [hk, eq_comm]
    · rw [Function.update_of_ne hkk]
      simp [hkk]

theorem uncons {k : κ} {b : β} (h : Keyed ((k, b) ::ₘ m) f) :
    Keyed m (Function.update f k none) where
  nodup := by
    have := h.nodup
    rw [Multiset.map_cons, Multiset.nodup_cons] at this
    exact this.2
  mem_iff k' c := by
    have hfresh := h.nodup
    rw [Multiset.map_cons, Multiset.nodup_cons] at hfresh
    by_cases hkk : k' = k
    · subst hkk
      rw [Function.update_self]
      refine ⟨fun hc => absurd (Multiset.mem_map_of_mem Prod.fst hc) hfresh.1, fun hc => ?_⟩
      simp at hc
    · rw [Function.update_of_ne hkk, ← h.mem_iff, Multiset.mem_cons, Prod.mk.injEq]
      simp [hkk]

theorem filter (h : Keyed m f) (k : κ) :
    Keyed (m.filter (·.1 ≠ k)) (Function.update f k none) where
  nodup := Multiset.nodup_of_le (Multiset.map_le_map (Multiset.filter_le _ _)) h.nodup
  mem_iff k' c := by
    rw [Multiset.mem_filter, h.mem_iff]
    by_cases hkk : k' = k
    · subst hkk
      simp
    · rw [Function.update_of_ne hkk]
      simp [hkk]

theorem recons {k : κ} (h : Keyed m (Function.update f k none)) (b : β) :
    Keyed ((k, b) ::ₘ m) (Function.update f k (some b)) := by
  have hcons := h.cons (Function.update_self ..) b
  rwa [Function.update_idem] at hcons

end Keyed

end Keyed
