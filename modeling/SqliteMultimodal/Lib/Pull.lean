import Mathlib.Data.List.Basic

universe u v w

namespace Pull

inductive Step (α : Type u) (ε : Type v)
  | row (a : α)
  | done
  | failed (e : ε)

section Runs

variable {σ : Type w} {α : Type u} {ε : Type v} (next : Nat → σ → Option (Step α ε × σ))

def Steady : Prop := ∀ n s r, next n s = some r → next (n + 1) s = some r

inductive Produces : σ → List α → Prop
  | done {n : Nat} {s s' : σ} : next n s = some (.done, s') → Produces s []
  | row {n : Nat} {s s' : σ} {a : α} {as : List α} :
    next n s = some (.row a, s') → Produces s' as → Produces s (a :: as)

/-- The rows of an iterator, up to its end or, where `ok` is false, up to a failure. -/
inductive Runs : σ → List α → Bool → Prop
  | done {n : Nat} {s s' : σ} : next n s = some (.done, s') → Runs s [] true
  | failed {n : Nat} {s s' : σ} {e : ε} : next n s = some (.failed e, s') → Runs s [] false
  | row {n : Nat} {s s' : σ} {a : α} {as : List α} {ok : Bool} :
    next n s = some (.row a, s') → Runs s' as ok → Runs s (a :: as) ok

def drain : Nat → σ → Option (List α)
  | 0, _ => none
  | n + 1, s =>
    match next n s with
    | some (.row a, s') => (drain n s').map (a :: ·)
    | some (.done, _) => some []
    | _ => none

variable {next} {s s' : σ} {as bs : List α} {n m : Nat} {r : Step α ε × σ}

theorem Steady.mono (h : Steady next) (hnext : next n s = some r) (hle : n ≤ m) :
    next m s = some r := by
  induction hle with
  | refl => exact hnext
  | step _ ih => exact h _ _ _ ih

theorem Steady.eq (h : Steady next) {r' : Step α ε × σ} (hr : next n s = some r)
    (hr' : next m s = some r') : r = r' :=
  Option.some.inj ((h.mono hr (Nat.le_max_left n m)).symm.trans (h.mono hr' (Nat.le_max_right n m)))

theorem Produces.unique (h : Steady next) (ha : Produces next s as) (hb : Produces next s bs) :
    as = bs := by
  induction ha generalizing bs with
  | done hnext =>
    cases hb with
    | done => rfl
    | row hnext' => cases h.eq hnext hnext'
  | row hnext _ ih =>
    cases hb with
    | done hnext' => cases h.eq hnext hnext'
    | row hnext' hrest =>
      cases h.eq hnext hnext'
      rw [ih hrest]

theorem Produces.drain (h : Steady next) (ha : Produces next s as) :
    ∃ n, ∀ m, n ≤ m → drain next m s = some as := by
  induction ha with
  | done hnext =>
    rename_i n _ _
    refine ⟨n + 1, fun m hm => ?_⟩
    obtain ⟨m, rfl⟩ := Nat.exists_eq_add_of_lt (Nat.lt_of_succ_le hm)
    rw [Pull.drain, h.mono hnext (Nat.le_add_right n m)]
  | row hnext _ ih =>
    rename_i n _ _ _ _ _
    obtain ⟨k, hk⟩ := ih
    refine ⟨max n k + 1, fun m hm => ?_⟩
    obtain ⟨m, rfl⟩ := Nat.exists_eq_add_of_lt (Nat.lt_of_succ_le hm)
    rw [Pull.drain, h.mono hnext (by omega)]
    simp only
    rw [hk _ (by omega), Option.map_some]

theorem Produces.of_drain (ha : Pull.drain next n s = some as) : Produces next s as := by
  induction n generalizing s as with
  | zero => cases ha
  | succ n ih =>
    rw [Pull.drain] at ha
    split at ha
    next a s' hnext =>
      obtain ⟨rest, hrest, rfl⟩ := Option.map_eq_some_iff.mp ha
      exact .row hnext (ih hrest)
    next s' hnext =>
      cases ha
      exact .done hnext
    next => cases ha

theorem Produces.of_next (h : Steady next) (ha : Produces next s' as)
    (hnext : ∀ m, n ≤ m → next (m + 1) s = next m s') : Produces next s as := by
  cases ha with
  | done hdone =>
    rename_i k _
    exact .done ((hnext (max n k) (Nat.le_max_left n k)).trans
      (h.mono hdone (Nat.le_max_right n k)))
  | row hrow hrest =>
    rename_i k _ _ _
    exact .row ((hnext (max n k) (Nat.le_max_left n k)).trans
      (h.mono hrow (Nat.le_max_right n k))) hrest

variable {ok ok' : Bool}

theorem Runs.produces (h : Runs next s as ok) (hok : ok = true) : Produces next s as := by
  induction h with
  | done hnext => exact .done hnext
  | failed => cases hok
  | row hnext _ ih => exact .row hnext (ih hok)

theorem Produces.runs (h : Produces next s as) : Runs next s as true := by
  induction h with
  | done hnext => exact .done hnext
  | row hnext _ ih => exact .row hnext ih

theorem Runs.unique (h : Steady next) (ha : Runs next s as ok) (hb : Runs next s bs ok') :
    as = bs ∧ ok = ok' := by
  induction ha generalizing bs with
  | done hnext =>
    cases hb with
    | done => exact ⟨rfl, rfl⟩
    | failed hnext' => cases h.eq hnext hnext'
    | row hnext' => cases h.eq hnext hnext'
  | failed hnext =>
    cases hb with
    | done hnext' => cases h.eq hnext hnext'
    | failed => exact ⟨rfl, rfl⟩
    | row hnext' => cases h.eq hnext hnext'
  | row hnext _ ih =>
    cases hb with
    | done hnext' => cases h.eq hnext hnext'
    | failed hnext' => cases h.eq hnext hnext'
    | row hnext' hrest =>
      cases h.eq hnext hnext'
      obtain ⟨rfl, rfl⟩ := ih hrest
      exact ⟨rfl, rfl⟩

theorem Runs.of_next (h : Steady next) (ha : Runs next s' as ok)
    (hnext : ∀ m, n ≤ m → next (m + 1) s = next m s') : Runs next s as ok := by
  cases ha with
  | done hdone =>
    rename_i k _
    exact .done ((hnext (max n k) (Nat.le_max_left n k)).trans
      (h.mono hdone (Nat.le_max_right n k)))
  | failed hfailed =>
    rename_i k _ _
    exact .failed ((hnext (max n k) (Nat.le_max_left n k)).trans
      (h.mono hfailed (Nat.le_max_right n k)))
  | row hrow hrest =>
    rename_i k _ _ _
    exact .row ((hnext (max n k) (Nat.le_max_left n k)).trans
      (h.mono hrow (Nat.le_max_right n k))) hrest

end Runs

section Outcomes

variable {α β : Type*}

def andThen (x y : List β × Bool) : List β × Bool := if x.2 then (x.1 ++ y.1, y.2) else x

def collect (contents : α → List β × Bool) (as : List α) (ok : Bool) : List β × Bool :=
  as.foldr (fun a rest => andThen (contents a) rest) ([], ok)

variable {contents : α → List β × Bool} {as : List α} {ok : Bool}

end Outcomes

section Operators

variable {σ : Type w} {α : Type u} {ε : Type v} {next : Nat → σ → Option (Step α ε × σ)}
  {s : σ} {as : List α}

theorem Produces.filter (h : Steady next) (ha : Produces next s as) (wrap : σ → σ) (p : α → Bool)
    (hdone : ∀ n s s', next n s = some (.done, s') → next (n + 1) (wrap s) = some (.done, wrap s'))
    (hrow : ∀ n s s' a, next n s = some (.row a, s') →
      next (n + 1) (wrap s) = if p a then some (.row a, wrap s') else next n (wrap s')) :
    Produces next (wrap s) (as.filter p) := by
  induction ha with
  | done hnext => exact .done (hdone _ _ _ hnext)
  | row hnext _ ih =>
    rename_i n _ _ a _ _
    have hstep := fun m hm => hrow m _ _ _ (h.mono hnext (m := m) hm)
    rw [List.filter_cons]
    cases hp : p a with
    | true =>
      simp only [hp, if_true] at hstep
      exact .row (hstep n (Nat.le_refl n)) ih
    | false =>
      simp only [hp, Bool.false_eq_true, if_false] at hstep
      exact ih.of_next h hstep

theorem Produces.flatMap {τ : Type*} (h : Steady next) (ha : Produces next s as)
    (wrap : σ → τ → σ) (pending : τ → List α) (contents : α → List α)
    (hfirst : ∀ s t a rest, pending t = a :: rest →
      ∃ t', next 1 (wrap s t) = some (.row a, wrap s t') ∧ pending t' = rest)
    (hdone : ∀ n s s' t, pending t = [] → next n s = some (.done, s') →
      ∃ s'', next (n + 1) (wrap s t) = some (.done, s''))
    (hrow : ∀ n s s' t a, a ∈ as → pending t = [] → next n s = some (.row a, s') →
      ∃ t', pending t' = contents a ∧
        ∀ m, n ≤ m → next (m + 1) (wrap s t) = next m (wrap s' t'))
    (t : τ) : Produces next (wrap s t) (pending t ++ as.flatMap contents) := by
  induction ha generalizing t with
  | done hnext =>
    rename_i n s s'
    generalize hrest : pending t = rest
    induction rest generalizing t with
    | nil =>
      obtain ⟨s'', hs''⟩ := hdone n s s' t hrest hnext
      exact .done hs''
    | cons a rest ih =>
      obtain ⟨t', ht', rfl⟩ := hfirst s t a rest hrest
      exact .row ht' (ih t' rfl)
  | row hnext _ ih =>
    rename_i n s s' a as _
    generalize hrest : pending t = rest
    induction rest generalizing t with
    | nil =>
      obtain ⟨t', ht', hstep⟩ := hrow n s s' t a List.mem_cons_self hrest hnext
      rw [List.nil_append, List.flatMap_cons, ← ht']
      refine (ih (fun n s s' t b hb => ?_) t').of_next h hstep
      exact hrow n s s' t b (List.mem_cons_of_mem a hb)
    | cons b rest ihrest =>
      obtain ⟨t', ht', rfl⟩ := hfirst s t b rest hrest
      exact .row ht' (ihrest t' rfl)

theorem Runs.flatMap {τ : Type*} {ok : Bool} (h : Steady next) (ha : Runs next s as ok)
    (wrap : σ → τ → σ) (pending : τ → List α × Bool) (contents : α → List α × Bool)
    (hfirst : ∀ s t a rest b, pending t = (a :: rest, b) →
      ∃ t', next 1 (wrap s t) = some (.row a, wrap s t') ∧ pending t' = (rest, b))
    (hbreak : ∀ s t, pending t = ([], false) → ∃ e s', next 1 (wrap s t) = some (.failed e, s'))
    (hdone : ∀ n s s' t, pending t = ([], true) → next n s = some (.done, s') →
      ∃ s'', next (n + 1) (wrap s t) = some (.done, s''))
    (hfailed : ∀ n s s' t e, pending t = ([], true) → next n s = some (.failed e, s') →
      ∃ e' s'', next (n + 1) (wrap s t) = some (.failed e', s''))
    (hrow : ∀ n s s' t a, pending t = ([], true) → next n s = some (.row a, s') →
      (contents a = ([], false) ∧ ∃ e s'', next (n + 1) (wrap s t) = some (.failed e, s'')) ∨
        ∃ t', pending t' = contents a ∧
          ∀ m, n ≤ m → next (m + 1) (wrap s t) = next m (wrap s' t'))
    (t : τ) : Runs next (wrap s t) (andThen (pending t) (collect contents as ok)).1
      (andThen (pending t) (collect contents as ok)).2 := by
  have hpending : ∀ s t x, (∀ t, pending t = ([], true) → Runs next (wrap s t) x.1 x.2) →
      Runs next (wrap s t) (andThen (pending t) x).1 (andThen (pending t) x).2 := by
    intro s t x hempty
    generalize hrest : pending t = opened
    obtain ⟨rest, b⟩ := opened
    induction rest generalizing t with
    | nil =>
      cases b with
      | true => exact hempty t hrest
      | false =>
        obtain ⟨e, s', hnext⟩ := hbreak s t hrest
        exact .failed hnext
    | cons a rest ih =>
      obtain ⟨t', hnext, ht'⟩ := hfirst s t a rest b hrest
      have hrun := ih t' ht'
      cases b with
      | true => exact .row hnext hrun
      | false => exact .row hnext hrun
  induction ha generalizing t with
  | done hnext =>
    refine hpending _ t _ fun t ht => ?_
    obtain ⟨s'', hs''⟩ := hdone _ _ _ t ht hnext
    exact .done hs''
  | failed hnext =>
    refine hpending _ t _ fun t ht => ?_
    obtain ⟨e', s'', hs''⟩ := hfailed _ _ _ t _ ht hnext
    exact .failed hs''
  | row hnext _ ih =>
    refine hpending _ t _ fun t ht => ?_
    rw [collect, List.foldr_cons, ← collect]
    obtain ⟨hcontents, e, s'', hs''⟩ | ⟨t', ht', hstep⟩ := hrow _ _ _ t _ ht hnext
    · rw [hcontents]
      exact .failed hs''
    · rw [← ht']
      exact (ih t').of_next h hstep

end Operators

end Pull
