import Mathlib.Data.List.Forall2
import Mathlib.Data.List.Nodup

universe u v

namespace Except

variable {ε : Type u} {α β : Type v}

def require (p : Prop) [Decidable p] (e : ε) : Except ε PUnit.{v + 1} :=
  if p then .ok ⟨⟩ else .error e

def ofOption (e : ε) : Option α → Except ε α
  | none => .error e
  | some a => .ok a

@[simp] theorem require_eq_ok {p : Prop} [Decidable p] {e : ε} {a : PUnit.{v + 1}} :
    require p e = .ok a ↔ p := by
  unfold require
  split <;> simp_all

@[simp] theorem ofOption_eq_ok {e : ε} {o : Option α} {a : α} :
    ofOption e o = .ok a ↔ o = some a := by
  cases o <;> simp [ofOption]

@[simp] theorem bind_eq_ok {x : Except ε α} {f : α → Except ε β} {b : β} :
    x >>= f = .ok b ↔ ∃ a, x = .ok a ∧ f a = .ok b := by
  cases x <;> simp [bind, Except.bind]

theorem bind_ne_error {x : Except ε α} {f : α → Except ε β} {e : ε} (hx : x ≠ .error e)
    (hf : ∀ a, x = .ok a → f a ≠ .error e) : x >>= f ≠ .error e := by
  cases x with
  | error e' => exact fun h => hx (congrArg Except.error (Except.error.inj h))
  | ok a => exact hf a rfl

theorem require_ne_error {p : Prop} [Decidable p] {e e' : ε} (h : e ≠ e') :
    (require p e : Except ε PUnit.{v + 1}) ≠ .error e' := by
  unfold require
  split <;> simp [h]

theorem ofOption_ne_error {o : Option α} {e e' : ε} (h : e ≠ e') : ofOption e o ≠ .error e' := by
  cases o <;> simp [ofOption, h]

@[simp] theorem ok_bind (a : α) (f : α → Except ε β) : (.ok a : Except ε α) >>= f = f a := rfl

@[simp] theorem error_bind (e : ε) (f : α → Except ε β) :
    (.error e : Except ε α) >>= f = .error e := rfl

theorem mapError_eq_ok {ε' : Type u} {f : ε → ε'} {x : Except ε α} {a : α} :
    x.mapError f = .ok a ↔ x = .ok a := by
  cases x <;> simp [Except.mapError]

@[simp] theorem pure_eq_ok {a b : α} : (pure a : Except ε α) = .ok b ↔ a = b := by
  simp [pure, Except.pure]

theorem foldlM_eq {σ ι : Type v} {γ : Type*} {step : σ → ι → Except ε σ} {g : σ → γ} {xs : List ι}
    (hstep : ∀ s s', ∀ x ∈ xs, step s x = .ok s' → g s' = g s) {s s' : σ}
    (h : xs.foldlM step s = .ok s') : g s' = g s := by
  induction xs generalizing s with
  | nil =>
    obtain rfl : s = s' := by simpa using h
    rfl
  | cons x xs ih =>
    rw [List.foldlM_cons, bind_eq_ok] at h
    obtain ⟨s₁, hx, hxs⟩ := h
    rw [ih (fun s s' y hy => hstep s s' y (List.mem_cons_of_mem x hy)) hxs]
    exact hstep s s₁ x (List.mem_cons_self ..) hx

theorem foldlM_eq_foldl {σ ι : Type v} {step : σ → ι → Except ε σ} {turn : σ → ι → σ}
    {P : σ → Prop} (rows : List ι)
    (hstep : ∀ s row, row ∈ rows → P s → step s row = .ok (turn s row) ∧ P (turn s row)) {s : σ}
    (hs : P s) : rows.foldlM step s = .ok (rows.foldl turn s) := by
  induction rows generalizing s with
  | nil => rfl
  | cons row rows ih =>
    obtain ⟨hrow, hP⟩ := hstep s row List.mem_cons_self hs
    rw [List.foldlM_cons, hrow, List.foldl_cons]
    exact ih (fun s row hmem => hstep s row (List.mem_cons_of_mem _ hmem)) hP

theorem foldlM_ok {σ ι : Type v} {step : σ → ι → Except ε σ} {P : σ → Prop} {xs : List ι}
    (hstep : ∀ s, ∀ x ∈ xs, P s → ∃ s', step s x = .ok s' ∧ P s') {s : σ} (hs : P s) :
    ∃ s', xs.foldlM step s = .ok s' ∧ P s' := by
  induction xs generalizing s with
  | nil => exact ⟨s, rfl, hs⟩
  | cons x xs ih =>
    obtain ⟨s₁, hs₁, hP⟩ := hstep s x List.mem_cons_self hs
    rw [List.foldlM_cons, hs₁, ok_bind]
    exact ih (fun s y hy => hstep s y (List.mem_cons_of_mem x hy)) hP

theorem foldlM_mono {σ ι : Type v} {step step' : σ → ι → Except ε σ} {xs : List ι}
    (hstep : ∀ s x s', step s x = .ok s' → step' s x = .ok s') {s s' : σ}
    (h : xs.foldlM step s = .ok s') : xs.foldlM step' s = .ok s' := by
  induction xs generalizing s with
  | nil => exact h
  | cons x xs ih =>
    rw [List.foldlM_cons, bind_eq_ok] at h
    obtain ⟨s₁, hx, h⟩ := h
    rw [List.foldlM_cons, hstep s x s₁ hx, ok_bind]
    exact ih h

theorem foldlM_at {σ ι : Type v} {κ β : Type*} {step : σ → ι → Except ε σ} (view : σ → κ → β)
    (key : ι → κ) (hstep : ∀ s s' x, step s x = .ok s' → ∀ k, k ≠ key x → view s' k = view s k)
    {xs : List ι} (hnodup : (xs.map key).Nodup) {s s' : σ} (h : xs.foldlM step s = .ok s') {x : ι}
    (hx : x ∈ xs) :
    ∃ s₁ s₂, step s₁ x = .ok s₂ ∧ view s₁ (key x) = view s (key x) ∧
      view s' (key x) = view s₂ (key x) := by
  induction xs generalizing s with
  | nil => simp at hx
  | cons y ys ih =>
    rw [List.foldlM_cons, bind_eq_ok] at h
    obtain ⟨s₁, hy, hys⟩ := h
    rw [List.map_cons, List.nodup_cons] at hnodup
    obtain rfl | hx := List.mem_cons.mp hx
    · refine ⟨s, s₁, hy, rfl, ?_⟩
      refine foldlM_eq (g := fun s => view s (key x)) (fun s s' z hz hs => ?_) hys
      refine hstep s s' z hs _ fun heq => hnodup.1 ?_
      rw [heq]
      exact List.mem_map_of_mem hz
    · obtain ⟨t₁, t₂, ht, hview, hview'⟩ := ih hnodup.2 hys hx
      refine ⟨t₁, t₂, ht, hview.trans (hstep s s₁ y hy _ fun heq => hnodup.1 ?_), hview'⟩
      rw [← heq]
      exact List.mem_map_of_mem hx

theorem mapM_eq_ok {σ τ : Type v} {f : σ → Except ε τ} {xs : List σ} {ys : List τ} :
    xs.mapM f = .ok ys ↔ List.Forall₂ (fun x y => f x = .ok y) xs ys := by
  induction xs generalizing ys with
  | nil =>
    rw [List.mapM_nil, pure_eq_ok, List.forall₂_nil_left_iff]
    exact eq_comm
  | cons x xs ih =>
    simp only [List.mapM_cons, bind_eq_ok, pure_eq_ok, ih, List.forall₂_cons_left_iff]
    grind

theorem exists_of_mem_mapM {σ τ : Type v} {f : σ → Except ε τ} {xs : List σ} {ys : List τ}
    (h : xs.mapM f = .ok ys) {y : τ} (hy : y ∈ ys) : ∃ x ∈ xs, f x = .ok y := by
  have hall := mapM_eq_ok.mp h
  clear h
  induction hall with
  | nil => simp at hy
  | cons hxy _ ih =>
    obtain rfl | hy := List.mem_cons.mp hy
    · exact ⟨_, List.mem_cons_self, hxy⟩
    · obtain ⟨x, hx, hf⟩ := ih hy
      exact ⟨x, List.mem_cons_of_mem _ hx, hf⟩

theorem exists_mapM_ok {σ τ : Type v} {f : σ → Except ε τ} {xs : List σ}
    (h : ∀ x ∈ xs, ∃ y, f x = .ok y) : ∃ ys, xs.mapM f = .ok ys := by
  induction xs with
  | nil => exact ⟨[], rfl⟩
  | cons x xs ih =>
    rw [List.forall_mem_cons] at h
    obtain ⟨⟨y, hy⟩, hxs⟩ := h
    obtain ⟨ys, hys⟩ := ih hxs
    exact ⟨y :: ys, mapM_eq_ok.mpr (.cons hy (mapM_eq_ok.mp hys))⟩

theorem mapM_ofOption_some (e : ε) (xs : List α) : (xs.map some).mapM (ofOption e) = .ok xs := by
  induction xs with
  | nil => rfl
  | cons x xs ih =>
    rw [List.map_cons, List.mapM_cons, ih]
    rfl

section Columns

variable {σ ι : Type v} {β : Type*} {step : σ → ι × Nat → Except ε σ} (view : σ → Nat → β)
  {xs : List ι} {s s' : σ}

theorem foldlM_zipIdx_induct {P : Nat → σ → Prop}
    (hstep : ∀ i x s s', xs[i]? = some x → P i s → step s (x, i) = .ok s' → P (i + 1) s')
    (h : xs.zipIdx.foldlM step s = .ok s') (hs : P 0 s) : P xs.length s' := by
  have hall : ∀ (ys zs : List ι) s, xs = ys ++ zs → (zs.zipIdx ys.length).foldlM step s = .ok s' →
      P ys.length s → P xs.length s' := by
    intro ys zs
    induction zs generalizing ys with
    | nil =>
      rintro s rfl h hs
      obtain rfl : s = s' := by simpa using h
      simpa using hs
    | cons z zs ih =>
      intro s hxs h hs
      rw [List.zipIdx_cons, List.foldlM_cons, bind_eq_ok] at h
      obtain ⟨s₁, hz, hzs⟩ := h
      have hget : xs[ys.length]? = some z := by simp [hxs]
      have hnext := hstep _ z s s₁ hget hs hz
      exact ih (ys ++ [z]) s₁ (by simp [hxs]) (by simpa using hzs) (by simpa using hnext)
  exact hall [] xs s rfl h hs

theorem foldlM_zipIdx_at
    (hstep : ∀ s s' x, step s x = .ok s' → ∀ j, j ≠ x.2 → view s' j = view s j)
    (h : xs.zipIdx.foldlM step s = .ok s') {j : Nat} {x : ι} (hj : xs[j]? = some x) :
    ∃ s₁ s₂, step s₁ (x, j) = .ok s₂ ∧ view s₁ j = view s j ∧ view s' j = view s₂ j := by
  have hnodup : (xs.zipIdx.map Prod.snd).Nodup := by
    rw [List.zipIdx_map_snd]
    exact List.nodup_range'
  exact foldlM_at view Prod.snd hstep hnodup h (List.mk_mem_zipIdx_iff_getElem?.mpr hj)

theorem foldlM_zipIdx_of_le
    (hstep : ∀ s s' x, step s x = .ok s' → ∀ j, j ≠ x.2 → view s' j = view s j)
    (h : xs.zipIdx.foldlM step s = .ok s') {j : Nat} (hj : xs.length ≤ j) :
    view s' j = view s j := by
  refine foldlM_eq (g := fun s => view s j) (fun s s' x hx hs => hstep s s' x hs j ?_) h
  rintro rfl
  have := (List.mem_zipIdx (x := x.1) hx).2.1
  omega

end Columns

section Simulation

variable {ε' : Type*} {σ τ ι : Type v} {E : ε → ε' → Prop}

/-- Both succeed, with results that `R` relates, or both fail, with errors that `E` relates. -/
inductive Sim (E : ε → ε' → Prop) (R : α → β → Prop) : Except ε α → Except ε' β → Prop
  | ok {a : α} {b : β} (h : R a b) : Sim E R (.ok a) (.ok b)
  | error {e : ε} {e' : ε'} (h : E e e') : Sim E R (.error e) (.error e')

theorem Sim.mono {F : ε → ε' → Prop} {R S : α → β → Prop} {x : Except ε α} {y : Except ε' β}
    (h : Sim E R x y) (hRS : ∀ a b, R a b → S a b) (hEF : ∀ e e', E e e' → F e e') :
    Sim F S x y := by
  cases h with
  | ok h => exact .ok (hRS _ _ h)
  | error h => exact .error (hEF _ _ h)

theorem Sim.ok_iff {R : α → β → Prop} {x : Except ε α} {y : Except ε' β} (h : Sim E R x y) :
    (∃ a, x = .ok a) ↔ ∃ b, y = .ok b := by
  cases h with
  | ok h => exact ⟨fun _ => ⟨_, rfl⟩, fun _ => ⟨_, rfl⟩⟩
  | error h =>
    constructor
    · rintro ⟨a, ha⟩
      cases ha
    · rintro ⟨b, hb⟩
      cases hb

theorem Sim.exists_of_ok {R : α → β → Prop} {a : α} {y : Except ε' β} (h : Sim E R (.ok a) y) :
    ∃ b, y = .ok b ∧ R a b := by
  cases h with
  | ok h => exact ⟨_, rfl, h⟩

theorem Sim.right_eq {R : α → β → Prop} {x : Except ε α} {y : Except ε' β} (h : Sim E R x y) :
    Sim E (fun a b => R a b ∧ y = .ok b) x y := by
  cases h with
  | ok h => exact .ok ⟨h, rfl⟩
  | error h => exact .error h

theorem Sim.bind {R : α → β → Prop} {S : σ → τ → Prop} {x : Except ε α} {y : Except ε' β}
    {f : α → Except ε σ} {g : β → Except ε' τ} (h : Sim E R x y)
    (hfg : ∀ a b, R a b → Sim E S (f a) (g b)) : Sim E S (x >>= f) (y >>= g) := by
  cases h with
  | ok h => exact hfg _ _ h
  | error h => exact .error h

theorem Sim.comp {ε'' : Type*} {E' : ε' → ε'' → Prop} {R : α → β → Prop} {S : β → σ → Prop}
    {x : Except ε α} {y : Except ε' β} {z : Except ε'' σ} (h : Sim E R x y) (h' : Sim E' S y z) :
    Sim (fun e e'' => ∃ e', E e e' ∧ E' e' e'') (fun a c => ∃ b, R a b ∧ S b c) x z := by
  cases h with
  | ok h =>
    cases h' with
    | ok h' => exact .ok ⟨_, h, h'⟩
  | error h =>
    cases h' with
    | error h' => exact .error ⟨_, h, h'⟩

theorem Sim.require_bind {p q : Prop} [Decidable p] [Decidable q] {e : ε} {e' : ε'}
    {R : σ → τ → Prop} {f : PUnit.{v + 1} → Except ε σ} {g : PUnit.{v + 1} → Except ε' τ}
    (hpq : p ↔ q) (he : E e e') (hfg : p → Sim E R (f ⟨⟩) (g ⟨⟩)) :
    Sim E R (require p e >>= f) (require q e' >>= g) := by
  unfold require
  by_cases hp : p
  · rw [if_pos hp, if_pos (hpq.mp hp)]
    exact hfg hp
  · rw [if_neg hp, if_neg fun hq => hp (hpq.mpr hq)]
    exact .error he

theorem Sim.foldlM {R : σ → τ → Prop} {f : σ → ι → Except ε σ} {g : τ → ι → Except ε' τ}
    {xs : List ι} (hstep : ∀ s t, ∀ x ∈ xs, R s t → Sim E R (f s x) (g t x)) {s : σ} {t : τ}
    (h : R s t) : Sim E R (xs.foldlM f s) (xs.foldlM g t) := by
  induction xs generalizing s t with
  | nil => exact .ok h
  | cons x xs ih =>
    rw [List.foldlM_cons, List.foldlM_cons]
    refine (hstep s t x List.mem_cons_self h).bind fun s' t' h' => ?_
    exact ih (fun s t y hy => hstep s t y (List.mem_cons_of_mem x hy)) h'

end Simulation

end Except
