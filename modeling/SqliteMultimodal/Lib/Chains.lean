import Mathlib.Data.List.GetD
import Mathlib.Data.List.Perm.Basic

universe u

namespace Chains

variable {α : Type u}

def chain (bs : List (List α)) (b : Nat) : List α := bs.getD b []

def Placed (place : α → Nat) (bs : List (List α)) : Prop := ∀ b, ∀ x ∈ chain bs b, place x = b

theorem chain_replicate_nil (n b : Nat) : chain (List.replicate n ([] : List α)) b = [] := by
  unfold chain
  rw [List.getD_eq_getElem?_getD, List.getElem?_replicate]
  split <;> rfl

theorem placed_replicate_nil (place : α → Nat) (n : Nat) :
    Placed place (List.replicate n ([] : List α)) := by
  intro b x hx
  rw [chain_replicate_nil] at hx
  exact absurd hx List.not_mem_nil

theorem mem_flatten_iff {bs : List (List α)} {x : α} :
    x ∈ bs.flatten ↔ ∃ b, x ∈ chain bs b := by
  rw [List.mem_flatten]
  constructor
  · rintro ⟨l, hl, hx⟩
    obtain ⟨b, hb, rfl⟩ := List.mem_iff_getElem.mp hl
    exact ⟨b, by rwa [chain, List.getD_eq_getElem _ _ hb]⟩
  · rintro ⟨b, hx⟩
    by_cases hb : b < bs.length
    · rw [chain, List.getD_eq_getElem _ _ hb] at hx
      exact ⟨_, List.getElem_mem hb, hx⟩
    · rw [chain, List.getD_eq_default _ _ (Nat.le_of_not_lt hb)] at hx
      exact absurd hx List.not_mem_nil

theorem Placed.mem_flatten {place : α → Nat} {bs : List (List α)} (h : Placed place bs) {x : α} :
    x ∈ bs.flatten ↔ x ∈ chain bs (place x) := by
  rw [mem_flatten_iff]
  constructor
  · rintro ⟨b, hx⟩
    rwa [h b x hx]
  · exact fun hx => ⟨_, hx⟩

theorem chain_modify {bs : List (List α)} {b : Nat} (hb : b < bs.length) (f : List α → List α)
    (c : Nat) : chain (bs.modify b f) c = if c = b then f (chain bs b) else chain bs c := by
  unfold chain
  simp only [List.getD_eq_getElem?_getD, List.getElem?_modify]
  by_cases hc : c = b
  · subst hc
    rw [List.getElem?_eq_getElem hb]
    simp
  · simp [hc, Ne.symm hc]

theorem Placed.modify {place : α → Nat} {bs : List (List α)} {b : Nat} (h : Placed place bs)
    (hb : b < bs.length) {f : List α → List α} (hf : ∀ x ∈ f (chain bs b), place x = b) :
    Placed place (bs.modify b f) := by
  intro c x hx
  rw [chain_modify hb] at hx
  split at hx
  next hc => rw [hc]; exact hf x hx
  next => exact h c x hx

theorem flatten_modify_perm {bs : List (List α)} {b : Nat} (hb : b < bs.length)
    {f : List α → List α} (gone new : List α)
    (hf : (gone ++ f (chain bs b)).Perm (new ++ chain bs b)) :
    (gone ++ (bs.modify b f).flatten).Perm (new ++ bs.flatten) := by
  induction bs generalizing b with
  | nil => exact absurd hb (Nat.not_lt_zero b)
  | cons l bs ih =>
    cases b with
    | zero =>
      rw [List.modify_zero_cons, List.flatten_cons, List.flatten_cons, ← List.append_assoc,
        ← List.append_assoc]
      exact hf.append_right _
    | succ b =>
      rw [List.modify_succ_cons, List.flatten_cons, List.flatten_cons]
      refine (List.perm_append_comm_assoc gone l _).trans ?_
      exact ((ih (Nat.lt_of_succ_lt_succ hb) hf).append_left l).trans
        (List.perm_append_comm_assoc l new _)

end Chains
