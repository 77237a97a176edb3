import Mathlib.Data.List.Basic
import Mathlib.Order.Lattice.Nat

universe u

namespace Transaction

inductive Answer
  | done
  | failed
  | rolledBack
  deriving DecidableEq

/-- `saved` is the state before the transaction that is open. -/
structure Db (σ : Type u) where
  state : σ
  saved : Option σ

structure Statement (σ : Type u) where
  answer : Answer
  effect : σ → Option σ

variable {σ : Type u} {s t : σ} {stmt : Statement σ} {stmts : List (Statement σ)} {db : Db σ}

def Db.rollback (db : Db σ) : Db σ :=
  match db.saved with
  | none => db
  | some s => ⟨s, none⟩

def Statement.run (stmt : Statement σ) (db : Db σ) : Db σ :=
  match stmt.answer with
  | .done => ⟨(stmt.effect db.state).getD db.state, db.saved⟩
  | .failed => db
  | .rolledBack => db.rollback

def run (stmts : List (Statement σ)) (db : Db σ) : Db σ :=
  stmts.foldl (fun db stmt => stmt.run db) db

def Idle (s : σ) (stmt : Statement σ) : Prop := stmt.answer = .done → stmt.effect s = none

def StaysOpen (stmts : List (Statement σ)) : Prop := ∀ stmt ∈ stmts, stmt.answer ≠ .rolledBack

def RolledBack (s : σ) (stmts : List (Statement σ)) : Prop :=
  ∃ before stmt after, stmts = before ++ stmt :: after ∧
    StaysOpen before ∧ stmt.answer = .rolledBack ∧ ∀ x ∈ after, Idle s x

def applyAll : List (Statement σ) → σ → Option σ
  | [], s => some s
  | stmt :: stmts, s =>
    if stmt.answer = .done then stmt.effect s >>= applyAll stmts else none

theorem run_append (stmts stmts' : List (Statement σ)) (db : Db σ) :
    run (stmts ++ stmts') db = run stmts' (run stmts db) := List.foldl_append

theorem run_cons (stmt : Statement σ) (stmts : List (Statement σ)) (db : Db σ) :
    run (stmt :: stmts) db = run stmts (stmt.run db) := rfl

theorem applyAll_append (stmts stmts' : List (Statement σ)) (s : σ) :
    applyAll (stmts ++ stmts') s = applyAll stmts s >>= applyAll stmts' := by
  induction stmts generalizing s with
  | nil => rfl
  | cons stmt stmts ih =>
    rw [List.cons_append, applyAll, applyAll]
    split
    · rw [bind_assoc]
      exact congrArg _ (funext ih)
    · rfl

theorem Statement.run_saved (h : stmt.answer ≠ .rolledBack) : (stmt.run db).saved = db.saved := by
  rw [Statement.run]
  cases hanswer : stmt.answer with
  | done => rfl
  | failed => rfl
  | rolledBack => exact absurd hanswer h

theorem Db.rollback_eq (h : db.saved = some s) : db.rollback = ⟨s, none⟩ := by
  rw [Db.rollback, h]

theorem Db.rollback_of_none (h : db.saved = none) : db.rollback = db := by
  rw [Db.rollback, h]

theorem run_saved (h : StaysOpen stmts) :
    (run stmts db).saved = db.saved := by
  induction stmts generalizing db with
  | nil => rfl
  | cons stmt stmts ih =>
    obtain ⟨hstmt, hstmts⟩ := List.forall_mem_cons.mp h
    rw [run_cons, ih hstmts, Statement.run_saved hstmt]

section Closed

theorem Statement.run_closed (h : db.saved = none) : (stmt.run db).saved = none := by
  rw [Statement.run]
  cases stmt.answer with
  | done => exact h
  | failed => exact h
  | rolledBack => rwa [Db.rollback_of_none h]

theorem run_closed (h : db.saved = none) : (run stmts db).saved = none := by
  induction stmts generalizing db with
  | nil => exact h
  | cons stmt stmts ih => exact ih (Statement.run_closed h)

theorem Statement.run_idle (h : Idle s stmt) : stmt.run ⟨s, none⟩ = ⟨s, none⟩ := by
  rw [Statement.run]
  cases hanswer : stmt.answer with
  | done => simp only [h hanswer, Option.getD_none]
  | failed => rfl
  | rolledBack => rfl

theorem run_idle (h : ∀ stmt ∈ stmts, Idle s stmt) : run stmts ⟨s, none⟩ = ⟨s, none⟩ := by
  induction stmts with
  | nil => rfl
  | cons stmt stmts ih =>
    obtain ⟨hstmt, hstmts⟩ := List.forall_mem_cons.mp h
    rw [run_cons, Statement.run_idle hstmt, ih hstmts]

end Closed

section Growth

def Grows (size : σ → Nat) (stmts : List (Statement σ)) : Prop :=
  ∀ stmt ∈ stmts, ∀ s t, stmt.effect s = some t → size t = size s + 1

variable {size : σ → Nat}

theorem Statement.le_size_run (hgrows : ∀ s t, stmt.effect s = some t → size t = size s + 1)
    (h : db.saved = none) : size db.state ≤ size (stmt.run db).state := by
  rw [Statement.run]
  cases stmt.answer with
  | done =>
    cases heffect : stmt.effect db.state with
    | none => exact le_refl _
    | some t => exact (Nat.le_succ _).trans_eq (hgrows _ _ heffect).symm
  | failed => exact le_refl _
  | rolledBack => rw [Db.rollback_of_none h]

theorem le_size_run (hgrows : Grows size stmts) (h : db.saved = none) :
    size db.state ≤ size (run stmts db).state := by
  induction stmts generalizing db with
  | nil => exact le_refl _
  | cons stmt stmts ih =>
    obtain ⟨hstmt, hstmts⟩ := List.forall_mem_cons.mp hgrows
    exact (Statement.le_size_run hstmt h).trans (ih hstmts (Statement.run_closed h))

theorem run_eq_iff_idle (hgrows : Grows size stmts) :
    (run stmts ⟨s, none⟩).state = s ↔ ∀ stmt ∈ stmts, Idle s stmt := by
  refine ⟨fun heq => ?_, fun h => by rw [run_idle h]⟩
  induction stmts with
  | nil => exact fun _ h => absurd h List.not_mem_nil
  | cons stmt stmts ih =>
    obtain ⟨hstmt, hstmts⟩ := List.forall_mem_cons.mp hgrows
    have hidle : Idle s stmt := by
      intro hdone
      cases heffect : stmt.effect s with
      | none => rfl
      | some t =>
        have hrun : stmt.run ⟨s, none⟩ = ⟨t, none⟩ := by
          rw [Statement.run, hdone]
          simp only [heffect, Option.getD_some]
        rw [run_cons, hrun] at heq
        have hle : size t ≤ size s := by
          have hrest := @le_size_run σ stmts ⟨t, none⟩ size hstmts rfl
          rwa [heq] at hrest
        have hsize := hstmt s t heffect
        omega
    rw [run_cons, Statement.run_idle hidle] at heq
    exact List.forall_mem_cons.mpr ⟨hidle, ih hstmts heq⟩

theorem run_rolledBack_iff (hgrows : Grows size stmts) :
    (run stmts ⟨t, some s⟩).state = s ∧ (run stmts ⟨t, some s⟩).saved = none ↔
      RolledBack s stmts := by
  constructor
  · rintro ⟨hstate, hsaved⟩
    induction stmts generalizing t with
    | nil => cases hsaved
    | cons stmt stmts ih =>
      obtain ⟨hstmt, hstmts⟩ := List.forall_mem_cons.mp hgrows
      rw [run_cons] at hstate hsaved
      by_cases hanswer : stmt.answer = .rolledBack
      · have hrun : stmt.run ⟨t, some s⟩ = ⟨s, none⟩ := by rw [Statement.run, hanswer]; rfl
        rw [hrun] at hstate
        exact ⟨[], stmt, stmts, rfl, fun _ h => absurd h List.not_mem_nil, hanswer,
          (run_eq_iff_idle hstmts).mp hstate⟩
      · have hrun : ∃ t', stmt.run ⟨t, some s⟩ = ⟨t', some s⟩ :=
          ⟨_, congrArg (Db.mk _) (Statement.run_saved hanswer)⟩
        obtain ⟨t', hrun⟩ := hrun
        rw [hrun] at hstate hsaved
        obtain ⟨before, last, after, rfl, hbefore, hlast⟩ := ih hstmts hstate hsaved
        exact ⟨stmt :: before, last, after, rfl, List.forall_mem_cons.mpr ⟨hanswer, hbefore⟩, hlast⟩
  · rintro ⟨before, stmt, after, rfl, hbefore, hanswer, hafter⟩
    have hsaved := @run_saved σ before ⟨t, some s⟩ hbefore
    rw [run_append, run_cons, Statement.run, hanswer]
    simp only [Db.rollback_eq hsaved]
    rw [run_idle hafter]
    exact ⟨rfl, rfl⟩

theorem run_saved_cases (stmts : List (Statement σ)) (t s : σ) :
    (StaysOpen stmts ∧ (run stmts ⟨t, some s⟩).saved = some s) ∨
      ¬ StaysOpen stmts ∧ (run stmts ⟨t, some s⟩).saved = none := by
  by_cases h : StaysOpen stmts
  · exact .inl ⟨h, run_saved h⟩
  · refine .inr ⟨h, ?_⟩
    induction stmts generalizing t with
    | nil => exact absurd (fun _ h => absurd h List.not_mem_nil) h
    | cons stmt stmts ih =>
      rw [run_cons]
      by_cases hanswer : stmt.answer = .rolledBack
      · rw [Statement.run, hanswer]
        exact run_closed rfl
      · have hrun : stmt.run ⟨t, some s⟩ = ⟨(stmt.run ⟨t, some s⟩).state, some s⟩ :=
          congrArg (Db.mk _) (Statement.run_saved hanswer)
        rw [hrun]
        exact ih _ fun hall => h (List.forall_mem_cons.mpr ⟨hanswer, hall⟩)

theorem size_run (hgrows : Grows size stmts) (hopen : StaysOpen stmts)
    (db : Db σ) : size (run stmts db).state ≤ size db.state + stmts.length ∧
      (size (run stmts db).state = size db.state + stmts.length →
        applyAll stmts db.state = some (run stmts db).state) := by
  induction stmts generalizing db with
  | nil => exact ⟨le_refl _, fun _ => rfl⟩
  | cons stmt stmts ih =>
    obtain ⟨hstmt, hstmts⟩ := List.forall_mem_cons.mp hgrows
    obtain ⟨hanswer, hopen⟩ := List.forall_mem_cons.mp hopen
    obtain ⟨hle, hall⟩ := ih hstmts hopen (stmt.run db)
    rw [run_cons, List.length_cons, applyAll]
    by_cases heffect : stmt.answer = .done ∧ (stmt.effect db.state).isSome
    · obtain ⟨hdone, hsome⟩ := heffect
      obtain ⟨t, ht⟩ := Option.isSome_iff_exists.mp hsome
      have hrun : (stmt.run db).state = t := by
        rw [Statement.run, hdone]
        simp only [ht, Option.getD_some]
      have hsize := hstmt _ _ ht
      rw [hrun] at hle hall
      rw [if_pos hdone, ht]
      exact ⟨by omega, fun heq => hall (by omega)⟩
    · have hrun : (stmt.run db).state = db.state := by
        rw [Statement.run]
        cases hcase : stmt.answer with
        | done =>
          have hnone := Option.not_isSome_iff_eq_none.mp fun h => heffect ⟨hcase, h⟩
          simp only [hnone, Option.getD_none]
        | failed => rfl
        | rolledBack => exact absurd hcase hanswer
      rw [hrun] at hle
      exact ⟨by omega, fun heq => by omega⟩

theorem run_of_applyAll (h : applyAll stmts db.state = some t) : run stmts db = ⟨t, db.saved⟩ := by
  induction stmts generalizing db with
  | nil => cases h; rfl
  | cons stmt stmts ih =>
    rw [applyAll] at h
    split at h
    next hdone =>
      obtain ⟨s, hs, ht⟩ := Option.bind_eq_some_iff.mp h
      have hrun : stmt.run db = ⟨s, db.saved⟩ := by
        rw [Statement.run, hdone]
        simp only [hs, Option.getD_some]
      rw [run_cons, hrun]
      exact ih ht
    next => cases h

end Growth

end Transaction
