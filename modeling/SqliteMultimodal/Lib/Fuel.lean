import Mathlib.Data.Finset.Card
import Mathlib.Order.Lattice.Nat
import SqliteMultimodal.Lib.Except

universe u v

namespace Fuel

variable {α : Type u} {β : Type v}

def Settles (p : Nat → α) (a : α) : Prop := ∃ n, ∀ m, n ≤ m → p m = a

variable {p : Nat → α} {a : α}

namespace Settles

theorem of_eq (h : ∀ n, p n = a) : Settles p a := ⟨0, fun m _ => h m⟩

theorem congr {q : Nat → α} (h : ∀ n, p n = q n) (hq : Settles q a) : Settles p a := by
  rwa [funext h]

theorem unique {b : α} (h : Settles p a) (h' : Settles p b) : a = b := by
  obtain ⟨n, hn⟩ := h
  obtain ⟨n', hn'⟩ := h'
  exact (hn _ (le_max_left n n')).symm.trans (hn' _ (le_max_right n n'))

theorem of_step {q : Nat → α} (hstep : ∀ n, p (n + 1) = q n) (h : Settles q a) : Settles p a := by
  obtain ⟨n, hn⟩ := h
  refine ⟨n + 1, fun m hm => ?_⟩
  obtain ⟨m, rfl⟩ := Nat.exists_eq_add_of_lt hm
  exact (hstep (n + m)).trans (hn (n + m) (Nat.le_add_right n m))

theorem of_succ {p : Nat → Option α} {a : α} {n : Nat}
    (hsucc : ∀ n a, p n = some a → p (n + 1) = some a) (h : p n = some a) :
    Settles p (some a) := by
  refine ⟨n, fun m hm => ?_⟩
  induction hm with
  | refl => exact h
  | step _ ih => exact hsucc _ a ih

theorem bind {q : α → Nat → β} {b : β} (hp : Settles p a) (hq : Settles (q a) b) :
    Settles (fun n => q (p n) n) b := by
  obtain ⟨n, hn⟩ := hp
  obtain ⟨n', hn'⟩ := hq
  refine ⟨max n n', fun m hm => ?_⟩
  change q (p m) m = b
  rw [hn m (le_of_max_le_left hm), hn' m (le_of_max_le_right hm)]

end Settles

theorem foldlM_mono {f g : α → β → Option α} (h : ∀ s i t, f s i = some t → g s i = some t)
    (is : List β) {s t : α} (hs : is.foldlM f s = some t) : is.foldlM g s = some t := by
  induction is generalizing s with
  | nil => exact hs
  | cons i is ih =>
    rw [List.foldlM_cons] at hs ⊢
    obtain ⟨s', hs', hs⟩ := Option.bind_eq_some_iff.mp hs
    rw [h s i s' hs']
    exact ih hs

end Fuel

namespace While

variable {ε : Type u} {σ : Type}

def loop (test : σ → Except ε Bool) (body : σ → Except ε σ) (late : ε) : Nat → σ → Except ε σ
  | 0, _ => .error late
  | turns + 1, s => do
    if ← test s then loop test body late turns (← body s) else return s

section Keys

variable {κ : Type v} [LinearOrder κ] {keys : Finset κ} {x y : κ}

def lower (keys : Finset κ) (x : κ) : Nat := (keys.filter (· < x)).card

theorem lower_lt_lower (hx : x ∈ keys) (h : x < y) : lower keys x < lower keys y := by
  apply Finset.card_lt_card
  rw [Finset.ssubset_iff_of_subset]
  · exact ⟨x, Finset.mem_filter.mpr ⟨hx, h⟩, fun hmem => lt_irrefl x (Finset.mem_filter.mp hmem).2⟩
  · exact Finset.monotone_filter_right keys fun z _ hz => hz.trans h

theorem lower_lt_card (hx : x ∈ keys) : lower keys x < keys.card := by
  apply Finset.card_lt_card
  rw [Finset.filter_ssubset]
  exact ⟨x, hx, lt_irrefl x⟩

end Keys

variable {test : σ → Except ε Bool} {body : σ → Except ε σ} {late : ε} {turns : Nat} {s s' : σ}

theorem loop_done (h : test s = .ok false) (turns : Nat) :
    loop test body late (turns + 1) s = .ok s := by
  rw [loop, h]
  rfl

theorem loop_turn (h : test s = .ok true) (hbody : body s = .ok s') (turns : Nat) :
    loop test body late (turns + 1) s = loop test body late turns s' := by
  rw [loop, h, Except.ok_bind, if_pos rfl, hbody]
  rfl

theorem loop_cases (h : loop test body late turns s = .ok s') :
    ∃ k, turns = k + 1 ∧ (test s = .ok false ∧ s' = s ∨
      ∃ s₁, test s = .ok true ∧ body s = .ok s₁ ∧ loop test body late k s₁ = .ok s') := by
  cases turns with
  | zero => simp [loop] at h
  | succ k =>
    refine ⟨k, rfl, ?_⟩
    rw [loop] at h
    obtain ⟨b, hb, h⟩ := Except.bind_eq_ok.mp h
    cases b with
    | false =>
      rw [if_neg Bool.false_ne_true, Except.pure_eq_ok] at h
      exact .inl ⟨hb, h.symm⟩
    | true =>
      rw [if_pos rfl] at h
      obtain ⟨s₁, hs₁, h⟩ := Except.bind_eq_ok.mp h
      exact .inr ⟨s₁, hb, hs₁, h⟩

theorem loop_mono {body' : σ → Except ε σ} (hbody : ∀ s s', body s = .ok s' → body' s = .ok s')
    {turns' : Nat} (hle : turns ≤ turns') (h : loop test body late turns s = .ok s') :
    loop test body' late turns' s = .ok s' := by
  induction turns generalizing turns' s with
  | zero => simp [loop] at h
  | succ turns ih =>
    obtain ⟨k, rfl⟩ : ∃ k, turns' = k + 1 := ⟨turns' - 1, by omega⟩
    obtain ⟨_, ⟨⟩, ⟨htest, rfl⟩ | ⟨s₁, htest, hs₁, h⟩⟩ := loop_cases h
    · exact loop_done htest k
    · rw [loop_turn htest (hbody s s₁ hs₁)]
      exact ih (by omega) h

theorem loop_invariant (Inv : σ → Prop) (hbody : ∀ s s', Inv s → body s = .ok s' → Inv s')
    (hs : Inv s) (h : loop test body late turns s = .ok s') : Inv s' := by
  induction turns generalizing s with
  | zero => simp [loop] at h
  | succ turns ih =>
    obtain ⟨_, ⟨⟩, ⟨-, rfl⟩ | ⟨s₁, -, hs₁, h⟩⟩ := loop_cases h
    · exact hs
    · exact ih (hbody s s₁ hs hs₁) h

theorem loop_ends {κ : Type v} [LinearOrder κ] (keys : Finset κ) (key : σ → κ) (Inv : σ → Prop)
    (hkey : ∀ s, Inv s → key s ∈ keys) (htest : ∀ s, Inv s → ∃ b, test s = .ok b)
    (hbody : ∀ s, Inv s → test s = .ok true →
      ∃ s', body s = .ok s' ∧ Inv s' ∧ (test s' = .ok true → key s' < key s))
    (hs : Inv s) (hturns : keys.card < turns) :
    ∃ s', loop test body late turns s = .ok s' ∧ Inv s' ∧ test s' = .ok false := by
  suffices h : ∀ turns s, Inv s → lower keys (key s) + 1 < turns →
      ∃ s', loop test body late turns s = .ok s' ∧ Inv s' ∧ test s' = .ok false by
    have hlower := lower_lt_card (hkey s hs)
    exact h turns s hs (by omega)
  intro turns
  induction turns with
  | zero => exact fun s _ hlt => absurd hlt (Nat.not_lt_zero _)
  | succ turns ih =>
    intro s hs hlt
    obtain ⟨b, hb⟩ := htest s hs
    cases b with
    | false => exact ⟨s, loop_done hb turns, hs, hb⟩
    | true =>
      obtain ⟨s₁, hs₁, hinv, hnext⟩ := hbody s hs hb
      rw [loop_turn hb hs₁]
      obtain ⟨b₁, hb₁⟩ := htest s₁ hinv
      cases b₁ with
      | true =>
        have hlower := lower_lt_lower (hkey s₁ hinv) (hnext hb₁)
        exact ih s₁ hinv (by omega)
      | false =>
        obtain ⟨k, rfl⟩ : ∃ k, turns = k + 1 := ⟨turns - 1, by omega⟩
        exact ⟨s₁, loop_done hb₁ k, hinv, hb₁⟩

end While
