import SqliteMultimodal.Graph.VTab.Faithful

namespace SqliteMultimodal.Graph.VTab

variable (conv : Conversions)

/-- Calls that return `SQLITE_OK` one after the other, and the tables that they leave. -/
inductive Ends : Store → List (List Value) → Store → Prop
  | nil {store : Store} : Ends store [] store
  | done {store store₁ store' : Store} {draws : Nat → Int64} {argv : List Value}
      {calls : List (List Value)} {zErrMsg : Option Text} {pRowid : Option Int64}
      (hdone : graphUpdate conv store draws argv = .done .ok zErrMsg pRowid store₁)
      (hcalls : Ends store₁ calls store') : Ends store (argv :: calls) store'
  | exec {store store₁ store' : Store} {draws : Nat → Int64} {argv : List Value}
      {calls : List (List Value)} {nested : Nested}
      (hexec : graphUpdate conv store draws argv = .exec nested)
      (hnested : Ends store (nested.statement.calls conv store) store₁)
      (hcalls : Ends store₁ calls store') : Ends store (argv :: calls) store'

def EndsAll : Store → List (List (List Value)) → Store → Prop
  | store, [], store' => store = store'
  | store, calls :: frames, store' => ∃ store₁, Ends conv store calls store₁ ∧
    EndsAll store₁ frames store'

section Single

variable {conv} {store store₁ store' : Store} {argv : List Value} {calls : List (List Value)}

theorem ends_nil : Ends conv store [] store' ↔ store' = store := by
  constructor
  · intro hends
    cases hends
    rfl
  · rintro rfl
    exact .nil

theorem ends_done_iff {zErrMsg : Option Text} {pRowid : Option Int64}
    (hdone : ∀ draws, graphUpdate conv store draws argv = .done .ok zErrMsg pRowid store₁) :
    Ends conv store (argv :: calls) store' ↔ Ends conv store₁ calls store' := by
  constructor
  · intro hends
    cases hends with
    | done h hcalls =>
      rw [hdone] at h
      cases h
      exact hcalls
    | exec h =>
      rw [hdone] at h
      cases h
  · exact fun hcalls => .done (hdone fun _ => 0) hcalls

theorem ends_exec_iff {nested : Nested}
    (hexec : ∀ draws, graphUpdate conv store draws argv = .exec nested) :
    Ends conv store [argv] store' ↔
      Ends conv store (nested.statement.calls conv store) store' := by
  constructor
  · intro hends
    cases hends with
    | done h =>
      rw [hexec] at h
      cases h
    | exec h hnested hcalls =>
      rw [hexec] at h
      cases h
      rw [ends_nil.mp hcalls]
      exact hnested
  · exact fun hnested => .exec (hexec fun _ => 0) hnested .nil

theorem not_ends_fail {rc : Code} {zErr : Text} (hrc : rc ≠ .ok)
    (hfail : ∀ draws, graphUpdate conv store draws argv = .fail rc zErr store) :
    ¬ Ends conv store (argv :: calls) store' := by
  intro hends
  cases hends with
  | done h =>
    rw [hfail] at h
    exact hrc (by injection h)
  | exec h =>
    rw [hfail] at h
    cases h

end Single

section Machine

def IsCall : Config → Action → Prop
  | _, .call _ => True
  | _, .start _ => False

variable {conv} {store store' : Store} {calls : List (List Value)}

theorem reached_call {c c' : Config} {draws : Nat → Int64}
    (hstep : step conv c (.call draws) = some c') : Machine.Reached (step conv) IsCall c c' :=
  Machine.Reached.start.next (a := .call draws) trivial hstep

theorem Ends.reached (h : Ends conv store calls store') (c : Config)
    (frames : List (List (List Value))) (hstore : c.store = store)
    (hframes : c.frames = calls :: frames) :
    ∃ log, Machine.Reached (step conv) IsCall c
      { c with store := store', log, frames := [] :: frames } := by
  induction h generalizing c frames with
  | nil =>
    subst hstore
    refine ⟨c.log, ?_⟩
    rw [← hframes]
    exact .start
  | @done store store₁ store' draws argv calls zErrMsg pRowid hdone _ ih =>
    subst hstore
    have hstep : step conv c (.call draws) = some { c with
        store := store₁, log := ⟨argv, c.store, store₁⟩ :: c.log, frames := calls :: frames } := by
      simp only [step, hframes, hdone]
    obtain ⟨log, hlog⟩ := ih { c with
      store := store₁, log := ⟨argv, c.store, store₁⟩ :: c.log, frames := calls :: frames }
      frames rfl rfl
    exact ⟨log, (reached_call hstep).trans hlog⟩
  | @exec store store₁ store' draws argv calls nested hexec _ _ ih ih' =>
    subst hstore
    have hstep : step conv c (.call draws) = some { c with
        frames := nested.statement.calls conv c.store :: calls :: frames } := by
      simp only [step, hframes, hexec]
    obtain ⟨log, hlog⟩ := ih { c with
      frames := nested.statement.calls conv c.store :: calls :: frames } (calls :: frames) rfl rfl
    have hfinish : step conv { c with store := store₁, log, frames := [] :: calls :: frames }
        (.call draws) = some { c with store := store₁, log, frames := calls :: frames } := rfl
    obtain ⟨log', hlog'⟩ := ih' { c with store := store₁, log, frames := calls :: frames }
      frames rfl rfl
    exact ⟨log', ((reached_call hstep).trans hlog).trans ((reached_call hfinish).trans hlog')⟩

theorem EndsAll.step {c c' : Config} {draws : Nat → Int64}
    (hstep : step conv c (.call draws) = some c') (hframes : c'.frames ≠ [])
    (h : EndsAll conv c'.store c'.frames store') : EndsAll conv c.store c.frames store' := by
  simp only [VTab.step] at hstep
  split at hstep
  next => cases hstep
  next frames hnext =>
    cases hstep
    rw [hnext]
    exact ⟨c.store, .nil, h⟩
  next argv calls frames hnext =>
    rw [hnext]
    split at hstep
    next hdone =>
      cases hstep
      obtain ⟨store₁, hcalls, hrest⟩ := h
      exact ⟨store₁, .done hdone hcalls, hrest⟩
    next =>
      cases hstep
      exact absurd rfl hframes
    next nested hexec =>
      cases hstep
      obtain ⟨store₁, hnested, store₂, hcalls, hrest⟩ := h
      exact ⟨store₂, .exec hexec hnested hcalls, hrest⟩

theorem ends_iff_reached {c : Config} (hframes : c.frames = [calls]) :
    Ends conv c.store calls store' ↔
      ∃ c', Machine.Reached (step conv) IsCall c c' ∧ c'.frames = [[]] ∧ c'.store = store' := by
  constructor
  · intro h
    obtain ⟨log, hreached⟩ := h.reached c [] rfl hframes
    exact ⟨_, hreached, rfl, rfl⟩
  · rintro ⟨c', hreached, hdone, rfl⟩
    have hall := hreached.invariant (P := fun c' => c'.frames = [] ∨
        ∀ store', EndsAll conv c'.store c'.frames store' → EndsAll conv c.store c.frames store')
      (.inr fun _ h => h) ?_
    · obtain hnil | hall := hall
      · rw [hnil] at hdone
        cases hdone
      · have hends := hall c'.store (hdone ▸ ⟨c'.store, .nil, rfl⟩)
        rw [hframes] at hends
        obtain ⟨store₁, hcalls, rfl⟩ := hends
        exact hcalls
    · intro c₁ a c₂ hc₁ hcall hstep
      cases a with
      | start => exact hcall.elim
      | call draws =>
        by_cases hnil : c₂.frames = []
        · exact .inl hnil
        · obtain hnone | hc₁ := hc₁
          · simp only [step, hnone] at hstep
            cases hstep
          · exact .inr fun store' h => hc₁ store' (h.step hstep hnil)

end Machine

end SqliteMultimodal.Graph.VTab
