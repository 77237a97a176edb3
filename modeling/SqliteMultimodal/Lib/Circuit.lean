import Mathlib.SetTheory.Cardinal.NatCard

universe u

namespace Circuit

variable {α : Type u}

def Components (edges : List (α × α)) : Type u := Quot fun a b => (a, b) ∈ edges

def component (edges : List (α × α)) (a : α) : Components edges := Quot.mk _ a

def HasCircuit (edges : List (α × α)) : Prop :=
  ∃ before e after, edges = before ++ e :: after ∧
    component (before ++ after) e.1 = component (before ++ after) e.2

variable {edges edges' : List (α × α)} {a b : α} {e : α × α}

section Components

theorem component_surjective : Function.Surjective (component edges) := Quot.mk_surjective

theorem component_eq_iff :
    component edges a = component edges b ↔ Relation.EqvGen (fun a b => (a, b) ∈ edges) a b :=
  Quot.eq

theorem component_eq (h : (a, b) ∈ edges) : component edges a = component edges b := Quot.sound h

instance [Finite α] : Finite (Components edges) := Finite.of_surjective _ component_surjective

def coarsen (h : edges ⊆ edges') : Components edges → Components edges' :=
  Quot.map id fun _ _ hab => h hab

theorem coarsen_component (h : edges ⊆ edges') (a : α) :
    coarsen h (component edges a) = component edges' a :=
  rfl

theorem coarsen_surjective (h : edges ⊆ edges') : Function.Surjective (coarsen h) := fun c => by
  obtain ⟨a, rfl⟩ := component_surjective c
  exact ⟨component edges a, rfl⟩

theorem component_cons (h : component (e :: edges) a = component (e :: edges) b) :
    component edges a = component edges b ∨
      component edges a = component edges e.1 ∧ component edges b = component edges e.2 ∨
      component edges a = component edges e.2 ∧ component edges b = component edges e.1 := by
  rw [component_eq_iff] at h
  induction h with
  | rel a b hab =>
    obtain rfl | hab := List.mem_cons.mp hab
    · exact .inr (.inl ⟨rfl, rfl⟩)
    · exact .inl (component_eq hab)
  | refl a => exact .inl rfl
  | symm a b _ ih =>
    obtain heq | ⟨hfst, hsnd⟩ | ⟨hsnd, hfst⟩ := ih
    · exact .inl heq.symm
    · exact .inr (.inr ⟨hsnd, hfst⟩)
    · exact .inr (.inl ⟨hfst, hsnd⟩)
  | trans a b c _ _ ihab ihbc =>
    obtain heq | ⟨hfst, hsnd⟩ | ⟨hsnd, hfst⟩ := ihab
    · rwa [heq]
    · rw [hsnd] at ihbc
      grind
    · rw [hfst] at ihbc
      grind

theorem component_cons_of_eq (he : component edges e.1 = component edges e.2) :
    component (e :: edges) a = component (e :: edges) b ↔
      component edges a = component edges b := by
  constructor
  · intro h
    obtain heq | ⟨hfst, hsnd⟩ | ⟨hsnd, hfst⟩ := component_cons h
    · exact heq
    · rw [hfst, hsnd, he]
    · rw [hsnd, hfst, he]
  · intro h
    rw [← coarsen_component (List.subset_cons_self e edges), h]
    rfl

open Classical in
noncomputable def coarsenOthers (edges : List (α × α)) (e : α × α) (c : Components edges) :
    Option (Components (e :: edges)) :=
  if c = component edges e.1 then none else some (coarsen (List.subset_cons_self e edges) c)

theorem coarsenOthers_injective (edges : List (α × α)) (e : α × α) :
    Function.Injective (coarsenOthers edges e) := by
  intro c d hcd
  obtain ⟨a, rfl⟩ := component_surjective c
  obtain ⟨b, rfl⟩ := component_surjective d
  unfold coarsenOthers at hcd
  by_cases ha : component edges a = component edges e.1
  · by_cases hb : component edges b = component edges e.1
    · rw [ha, hb]
    · simp [ha, hb] at hcd
  · by_cases hb : component edges b = component edges e.1
    · simp [ha, hb] at hcd
    · rw [if_neg ha, if_neg hb, Option.some.injEq] at hcd
      obtain heq | ⟨hfst, -⟩ | ⟨-, hfst⟩ := component_cons hcd
      · exact heq
      · exact absurd hfst ha
      · exact absurd hfst hb

end Components

section Count

variable [Finite α]

omit [Finite α] in
theorem card_components_nil : Nat.card (Components ([] : List (α × α))) = Nat.card α := by
  refine (Nat.card_congr (Equiv.ofBijective (component []) ⟨fun a b h => ?_,
    component_surjective⟩)).symm
  rw [component_eq_iff] at h
  induction h with
  | rel a b hab => cases hab
  | refl a => rfl
  | symm a b _ ih => exact ih.symm
  | trans a b c _ _ ihab ihbc => exact ihab.trans ihbc

omit [Finite α] in
theorem card_components_cons_of_eq (he : component edges e.1 = component edges e.2) :
    Nat.card (Components (e :: edges)) = Nat.card (Components edges) := by
  refine (Nat.card_congr (Equiv.ofBijective (coarsen (List.subset_cons_self e edges))
    ⟨fun c d hcd => ?_, coarsen_surjective _⟩)).symm
  obtain ⟨a, rfl⟩ := component_surjective c
  obtain ⟨b, rfl⟩ := component_surjective d
  exact (component_cons_of_eq he).mp hcd

theorem card_components_cons_lt (he : component edges e.1 ≠ component edges e.2) :
    Nat.card (Components (e :: edges)) < Nat.card (Components edges) := by
  have hsub := List.subset_cons_self e edges
  have hsurj := coarsen_surjective hsub
  refine lt_of_le_of_ne (Nat.card_le_card_of_surjective _ hsurj) fun hcard => he ?_
  have hbij := (Nat.bijective_iff_surjective_and_card _).mpr ⟨hsurj, hcard.symm⟩
  have heq : component (e :: edges) e.1 = component (e :: edges) e.2 :=
    component_eq List.mem_cons_self
  exact hbij.injective heq

theorem card_components_le (edges : List (α × α)) (e : α × α) :
    Nat.card (Components edges) ≤ Nat.card (Components (e :: edges)) + 1 := by
  have hle := Nat.card_le_card_of_injective _ (coarsenOthers_injective edges e)
  rwa [Finite.card_option] at hle

theorem card_le (edges : List (α × α)) :
    Nat.card α ≤ Nat.card (Components edges) + edges.length := by
  induction edges with
  | nil => rw [card_components_nil, List.length_nil, Nat.add_zero]
  | cons e edges ih =>
    have hle := card_components_le edges e
    rw [List.length_cons]
    omega

end Count

section Circuits

theorem HasCircuit.cons (h : HasCircuit edges) (e : α × α) : HasCircuit (e :: edges) := by
  obtain ⟨before, e', after, rfl, he'⟩ := h
  refine ⟨e :: before, e', after, rfl, ?_⟩
  rw [List.cons_append, ← coarsen_component (List.subset_cons_self e (before ++ after)), he']
  rfl

theorem hasCircuit_cons_of_eq (he : component edges e.1 = component edges e.2) :
    HasCircuit (e :: edges) :=
  ⟨[], e, edges, rfl, he⟩

theorem card_components_middle (before after : List (α × α)) (e : α × α) :
    Nat.card (Components (before ++ e :: after)) =
      Nat.card (Components (e :: (before ++ after))) := by
  have hrel : (fun a b => (a, b) ∈ before ++ e :: after) =
      fun a b => (a, b) ∈ e :: (before ++ after) := by
    funext a b
    rw [List.perm_middle.mem_iff]
  rw [Components, Components, hrel]

variable [Finite α]

theorem hasCircuit_iff :
    HasCircuit edges ↔ Nat.card α < Nat.card (Components edges) + edges.length := by
  constructor
  · rintro ⟨before, e, after, rfl, he⟩
    have hle := card_le (before ++ after)
    rw [card_components_middle, card_components_cons_of_eq he, List.length_append, List.length_cons]
    rw [List.length_append] at hle
    omega
  · intro hlt
    by_contra hnone
    refine absurd hlt (not_lt.mpr ?_)
    clear hlt
    induction edges with
    | nil => rw [card_components_nil, List.length_nil, Nat.add_zero]
    | cons e edges ih =>
      have hle := ih fun h => hnone (h.cons e)
      have hlt := card_components_cons_lt fun he => hnone (hasCircuit_cons_of_eq he)
      rw [List.length_cons]
      omega

end Circuits

end Circuit
