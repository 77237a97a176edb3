import SqliteMultimodal.Lib.Except
import SqliteMultimodal.Lib.Text

namespace CString

def byte (z : Text) (p : Nat) : Option Char := (z ++ ['\x00'])[p]?

def slice (z : Text) (p q : Nat) : Text := (z.drop p).take (q - p)

def advance (z : Text) (q : Char → Bool) : Nat → Nat → Option Nat
  | 0, _ => none
  | n + 1, p => do
    let c ← byte z p
    if q c then advance z q n (p + 1) else return p

def starts (z : Text) : Text → Nat → Option Bool
  | [], _ => some true
  | c :: k, p => do
    let d ← byte z p
    if d = c then starts z k (p + 1) else return false

structure At (z : Text) (p : Nat) (t : Text) : Prop where
  le : p ≤ z.length
  drop : z.drop p = t

section Reads

variable {z t : Text} {p : Nat} {c : Char} {q : Char → Bool} {n : Nat}

theorem At.start (z : Text) : At z 0 z := ⟨Nat.zero_le _, rfl⟩

theorem At.length (h : At z p t) : p + t.length = z.length := by
  rw [← h.drop, List.length_drop]
  exact Nat.add_sub_of_le h.le

theorem At.byte (h : At z p t) : byte z p = some (t.headD '\x00') := by
  rw [CString.byte]
  cases t with
  | nil =>
    have hp : p = z.length := h.length
    rw [hp, List.getElem?_append_right (Nat.le_refl _), Nat.sub_self]
    rfl
  | cons c t =>
    have hp : p < z.length := by
      rw [← h.length]
      exact Nat.lt_add_of_pos_right (Nat.succ_pos _)
    rw [List.getElem?_append_left hp, ← List.head?_drop, h.drop]
    rfl

theorem At.cons (h : At z p (c :: t)) : At z (p + 1) t where
  le := by
    rw [← h.length]
    exact Nat.add_le_add_left (Nat.succ_le_succ (Nat.zero_le _)) p
  drop := by rw [← List.drop_drop, h.drop, List.drop_succ_cons, List.drop_zero]

theorem At.append {k : Text} (h : At z p (k ++ t)) : At z (p + k.length) t where
  le := by
    rw [← h.length, List.length_append]
    omega
  drop := by rw [← List.drop_drop, h.drop, List.drop_left]

theorem At.slice_append {k : Text} (h : At z p (k ++ t)) : slice z p (p + k.length) = k := by
  rw [slice, h.drop, Nat.add_sub_cancel_left, List.take_left]

theorem At.advance (h : At z p t) (hq : q '\x00' = false) (hn : t.length < n) :
    advance z q n p = some (p + (t.takeWhile q).length) := by
  induction n generalizing p t with
  | zero => exact absurd hn (Nat.not_lt_zero _)
  | succ n ih =>
    rw [CString.advance, h.byte]
    cases t with
    | nil =>
      simp [hq]
    | cons c t =>
      have hrest := ih h.cons (Nat.lt_of_succ_lt_succ hn)
      cases hc : q c with
      | true =>
        rw [List.takeWhile_cons_of_pos hc]
        simp [hc, hrest, Nat.add_assoc, Nat.add_comm 1]
      | false =>
        rw [List.takeWhile_cons_of_neg (by simp [hc])]
        simp [hc]

theorem At.afterAdvance (h : At z p t) (q : Char → Bool) :
    At z (p + (t.takeWhile q).length) (t.dropWhile q) := by
  apply At.append
  rwa [List.takeWhile_append_dropWhile]

theorem At.starts (h : At z p t) (k : Text) (hk : '\x00' ∉ k) :
    starts z k p = some (k.isPrefixOf t) := by
  induction k generalizing p t with
  | nil => cases t <;> rfl
  | cons c k ih =>
    obtain ⟨hc, hrest⟩ := not_or.mp (mt List.mem_cons.mpr hk)
    rw [CString.starts, h.byte]
    cases t with
    | nil => simp [hc]
    | cons d t =>
      by_cases hd : d = c
      · subst hd
        simp [ih h.cons hrest]
      · simp [List.isPrefixOf, hd, Ne.symm hd]

theorem At.startsNul (h : At z p t) (ht : '\x00' ∉ t) (k : Text) (hk : '\x00' ∉ k) :
    CString.starts z (k ++ ['\x00']) p = some (decide (t = k)) := by
  induction k generalizing p t with
  | nil =>
    rw [List.nil_append, CString.starts, h.byte]
    cases t with
    | nil => rfl
    | cons d t =>
      have hd := (not_or.mp (mt List.mem_cons.mpr ht)).1
      simp [Ne.symm hd]
  | cons c k ih =>
    obtain ⟨hc, hrest⟩ := not_or.mp (mt List.mem_cons.mpr hk)
    rw [List.cons_append, CString.starts, h.byte]
    cases t with
    | nil => simp [hc]
    | cons d t =>
      by_cases hd : d = c
      · subst hd
        simp [ih h.cons (not_or.mp (mt List.mem_cons.mpr ht)).2 hrest]
      · simp [hd]

end Reads

section Runs

variable {ε α β γ δ : Type}

def Agrees (R : α → β → Prop) (run : ExceptT ε Option α) : Except ε β → Prop
  | .error e => run.run = some (.error e)
  | .ok b => ∃ a, run.run = some (.ok a) ∧ R a b

variable {R : α → β → Prop} {run : ExceptT ε Option α} {answer : Except ε β}

theorem Agrees.ok {a : α} {b : β} (h : R a b) :
    Agrees R (pure a : ExceptT ε Option α) (.ok b) := ⟨a, rfl, h⟩

theorem Agrees.error (e : ε) : Agrees R (throw e : ExceptT ε Option α) (.error e) := rfl

theorem Agrees.bind {S : γ → δ → Prop} {f : α → ExceptT ε Option γ} {g : β → Except ε δ}
    (h : Agrees R run answer) (hf : ∀ a b, answer = .ok b → R a b → Agrees S (f a) (g b)) :
    Agrees S (run >>= f) (answer >>= g) := by
  cases answer with
  | error e =>
    have hrun : run.run = some (.error e) := h
    show (run >>= f).run = some (.error e)
    rw [ExceptT.run_bind, hrun]
    rfl
  | ok b =>
    obtain ⟨a, hrun, hab⟩ := h
    have heq : (run >>= f).run = (f a).run := by
      rw [ExceptT.run_bind, hrun]
      rfl
    have hfab := hf a b rfl hab
    rw [Except.ok_bind]
    cases hg : g b with
    | error e =>
      rw [hg] at hfab
      exact heq.trans hfab
    | ok d =>
      rw [hg] at hfab
      obtain ⟨c, hc, hcd⟩ := hfab
      exact ⟨c, heq.trans hc, hcd⟩

theorem Agrees.eq {answer : Except ε α} (h : Agrees Eq run answer) :
    run.run = some answer := by
  cases answer with
  | error e => exact h
  | ok a =>
    obtain ⟨b, hrun, rfl⟩ := h
    exact hrun

@[simp] theorem liftM_some_bind (a : α) (f : α → ExceptT ε Option β) :
    ((liftM (some a) : ExceptT ε Option α) >>= f) = f a := rfl

end Runs

end CString
