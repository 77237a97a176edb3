import Mathlib.Data.List.Basic

universe u v

namespace Machine

variable {σ : Type u} {α : Type v} (step : σ → α → Option σ)

def run (s : σ) : List α → Option σ
  | [] => some s
  | a :: actions => (step s a).bind fun s' => run s' actions

/-- The states that the runs from `s₀` reach whose steps all meet `ok`. -/
inductive Reached (ok : σ → α → Prop) (s₀ : σ) : σ → Prop
  | start : Reached ok s₀ s₀
  | next {s s' : σ} {a : α} : Reached ok s₀ s → ok s a → step s a = some s' → Reached ok s₀ s'

variable {step} {ok : σ → α → Prop} {s₀ s s' : σ}

theorem Reached.invariant {P : σ → Prop} (h : Reached step ok s₀ s) (hstart : P s₀)
    (hnext : ∀ s a s', P s → ok s a → step s a = some s' → P s') : P s := by
  induction h with
  | start => exact hstart
  | next _ hok hstep ih => exact hnext _ _ _ ih hok hstep

theorem Reached.mono {ok' : σ → α → Prop} (h : Reached step ok s₀ s)
    (hok : ∀ s a, ok s a → ok' s a) : Reached step ok' s₀ s := by
  induction h with
  | start => exact .start
  | next _ ha hstep ih => exact ih.next (hok _ _ ha) hstep

theorem Reached.trans (h : Reached step ok s₀ s) (h' : Reached step ok s s') :
    Reached step ok s₀ s' := by
  induction h' with
  | start => exact h
  | next _ hok hstep ih => exact ih.next hok hstep

def trace (step : σ → α → Option σ) (s : σ) : List α → List (σ × α)
  | [] => []
  | a :: actions => (s, a) :: ((step s a).map fun s' => trace step s' actions).getD []

theorem Reached.run (h : Reached step ok s₀ s) (actions : List α)
    (hrun : run step s actions = some s')
    (hok : ∀ sa ∈ trace step s actions, ok sa.1 sa.2) : Reached step ok s₀ s' := by
  induction actions generalizing s with
  | nil =>
    obtain rfl := Option.some.inj hrun
    exact h
  | cons a actions ih =>
    obtain ⟨t, hstep, hrun⟩ := Option.bind_eq_some_iff.mp hrun
    rw [trace, hstep] at hok
    exact ih (h.next (hok (s, a) List.mem_cons_self) hstep) hrun
      fun sa hsa => hok sa (List.mem_cons_of_mem _ hsa)

theorem run_iff {P I : σ → Prop}
    (hnext : ∀ s a s', I s → step s a = some s' → (P s' ↔ ok s a) ∧ (P s' → I s'))
    {s s' : σ} {actions : List α} (hp : P s) (hi : I s) (hrun : run step s actions = some s') :
    (∀ m t, run step s (actions.take m) = some t → P t) ↔
      ∀ sa ∈ trace step s actions, ok sa.1 sa.2 := by
  induction actions generalizing s with
  | nil =>
    refine iff_of_true (fun m t ht => ?_) fun _ hsa => absurd hsa List.not_mem_nil
    rw [List.take_nil] at ht
    exact Option.some.inj ht ▸ hp
  | cons a actions ih =>
    obtain ⟨t, hstep, hrun⟩ := Option.bind_eq_some_iff.mp hrun
    obtain ⟨hiff, hkeep⟩ := hnext s a t hi hstep
    have hcons : ∀ m, run step s ((a :: actions).take (m + 1)) = run step t (actions.take m) := by
      intro m
      rw [List.take_succ_cons, Machine.run, hstep, Option.bind_some]
    rw [trace, hstep, List.forall_mem_cons, Option.map_some, Option.getD_some]
    constructor
    · intro h
      have ht : P t := h 1 t (hcons 0)
      refine ⟨hiff.mp ht, (ih ht (hkeep ht) hrun).mp fun m u hu => h (m + 1) u ?_⟩
      rw [hcons, hu]
    · rintro ⟨ha, hactions⟩ m u hu
      have ht : P t := hiff.mpr ha
      cases m with
      | zero => exact Option.some.inj hu ▸ hp
      | succ m =>
        rw [hcons] at hu
        exact (ih ht (hkeep ht) hrun).mpr hactions m u hu

end Machine
