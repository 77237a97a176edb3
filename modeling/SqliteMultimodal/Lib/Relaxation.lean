import Mathlib.Algebra.Order.Monoid.Unbundled.Basic
import Mathlib.Data.Finset.Card
import Mathlib.Data.Finset.Union
import Mathlib.Data.List.Nodup
import Mathlib.Data.Multiset.AddSub
import Mathlib.Logic.Relation

universe u v

/-- Weights of `top` and more are too large to be recorded. -/
structure Relaxation (ν : Type u) (W : Type v) [Zero W] [LT W] where
  out : ν → List (ν × W)
  start : ν
  top : W
  top_pos : 0 < top

/-- The laws of sums that are not rounded. -/
structure ExactSums (W : Type v) [Add W] [LT W] : Prop where
  add_assoc : ∀ a b c : W, a + b + c = a + (b + c)
  add_comm : ∀ a b : W, a + b = b + a
  add_lt_add_right : ∀ {a b : W} (c : W), a < b → a + c < b + c

theorem ExactSums.add_lt {W : Type v} [Add W] [LinearOrder W] [AddRightMono W]
    (hexact : ExactSums W) {a b w : W} (h : a + w < a) : b + w < b := by
  by_contra hle
  have hsum : b + a ≤ b + w + a := add_le_add_left (not_lt.mp hle) a
  have hswap : b + w + a = a + w + b := by
    rw [hexact.add_assoc, hexact.add_comm w a, hexact.add_comm b]
  rw [hswap, hexact.add_comm b a] at hsum
  exact absurd (hexact.add_lt_add_right b h) (not_lt.mpr hsum)

namespace Relaxation

variable {ν : Type u} {W : Type v} [Zero W] [Add W] [LinearOrder W] (P : Relaxation ν W)

section Moves

def Move (p q : ν × W) : Prop := ∃ e ∈ P.out p.1, q = (e.1, p.2 + e.2) ∧ p.2 + e.2 < P.top

def Goes : ν × W → ν × W → Prop := Relation.ReflTransGen P.Move

def Reached (v : ν) (x : W) : Prop := P.Goes (P.start, 0) (v, x)

def Improves : Prop := ∃ v x y, P.Reached v x ∧ P.Goes (v, x) (v, y) ∧ y < x

variable {P} {u v : ν} {x y : W}

theorem Reached.lt_top (h : P.Reached v x) : x < P.top := by
  cases h with
  | refl => exact P.top_pos
  | tail _ hmove =>
    obtain ⟨e, -, heq, hlt⟩ := hmove
    rw [Prod.mk.injEq] at heq
    exact heq.2 ▸ hlt

theorem Goes.move {p : ν × W} (h : P.Goes p (v, y)) {e : ν × W} (he : e ∈ P.out v)
    (hlt : y + e.2 < P.top) : P.Goes p (e.1, y + e.2) :=
  h.tail ⟨e, he, rfl, hlt⟩

end Moves

section States

variable (ν W) in
structure State where
  labels : ν → Option (W × Option ν)
  queue : Multiset (ν × W)

def dist (s : State ν W) (v : ν) : W := ((s.labels v).map (·.1)).getD P.top

variable {P} {s : State ν W} {c v : ν} {x : W} {e : ν × W}

omit [Add W] in
theorem dist_of_label {o : Option ν} (h : s.labels v = some (x, o)) : P.dist s v = x := by
  rw [dist, h]
  rfl

omit [Add W] in
theorem dist_of_none (h : s.labels v = none) : P.dist s v = P.top := by
  rw [dist, h]
  rfl

variable [DecidableEq ν]

variable (P) in
def relax (c : ν) (x : W) (s : State ν W) (e : ν × W) : State ν W :=
  if x + e.2 < P.dist s e.1 then
    ⟨Function.update s.labels e.1 (some (x + e.2, some c)), (e.1, x + e.2) ::ₘ s.queue⟩
  else s

variable (P) in
def relaxAll (c : ν) (x : W) (s : State ν W) (edges : List (ν × W)) : State ν W :=
  edges.foldl (P.relax c x) s

variable (P) in
def init : State ν W :=
  ⟨Function.update (fun _ => none) P.start (some (0, none)), {(P.start, 0)}⟩

omit [Add W] in
theorem labels_init : P.init.labels v = if v = P.start then some (0, none) else none :=
  Function.update_apply (fun _ => none) P.start (some (0, none)) v

theorem labels_relax (h : x + e.2 < P.dist s e.1) : (P.relax c x s e).labels v =
    if v = e.1 then some (x + e.2, some c) else s.labels v := by
  rw [relax, if_pos h]
  exact Function.update_apply ..

theorem queue_relax (h : x + e.2 < P.dist s e.1) :
    (P.relax c x s e).queue = (e.1, x + e.2) ::ₘ s.queue := by
  rw [relax, if_pos h]

theorem dist_relax : P.dist (P.relax c x s e) v =
    if v = e.1 then min (x + e.2) (P.dist s v) else P.dist s v := by
  by_cases hlt : x + e.2 < P.dist s e.1
  · rw [dist, labels_relax hlt]
    split
    next hv =>
      rw [hv, min_eq_left hlt.le]
      rfl
    next => rfl
  · rw [relax, if_neg hlt]
    split
    next hv => rw [hv, min_eq_right (not_lt.mp hlt)]
    next => rfl

theorem dist_relax_le : P.dist (P.relax c x s e) v ≤ P.dist s v := by
  rw [dist_relax]
  split
  · exact min_le_right _ _
  · exact le_rfl

theorem queue_relax_le : s.queue ≤ (P.relax c x s e).queue := by
  unfold relax
  split
  · exact Multiset.le_cons_self _ _
  · exact le_rfl

theorem label_relax (h : s.labels v ≠ none) : (P.relax c x s e).labels v ≠ none := by
  by_cases hlt : x + e.2 < P.dist s e.1
  · rw [labels_relax hlt]
    split
    · exact Option.some_ne_none _
    · exact h
  · rwa [relax, if_neg hlt]

variable {edges : List (ν × W)}

theorem relaxAll_cons :
    P.relaxAll c x s (e :: edges) = P.relaxAll c x (P.relax c x s e) edges :=
  rfl

theorem dist_relaxAll_le : P.dist (P.relaxAll c x s edges) v ≤ P.dist s v := by
  induction edges generalizing s with
  | nil => exact le_rfl
  | cons e edges ih => exact ih.trans dist_relax_le

theorem queue_relaxAll_le : s.queue ≤ (P.relaxAll c x s edges).queue := by
  induction edges generalizing s with
  | nil => exact le_rfl
  | cons e edges ih => exact queue_relax_le.trans ih

theorem dist_relaxAll_of_mem (he : e ∈ edges) :
    P.dist (P.relaxAll c x s edges) e.1 ≤ x + e.2 := by
  induction edges generalizing s with
  | nil => exact absurd he List.not_mem_nil
  | cons e' edges ih =>
    obtain rfl | he := List.mem_cons.mp he
    · rw [relaxAll_cons]
      refine dist_relaxAll_le.trans ?_
      rw [dist_relax, if_pos rfl]
      exact min_le_left _ _
    · exact ih he

theorem mem_queue_relaxAll (h : P.dist (P.relaxAll c x s edges) v < P.dist s v) :
    (v, P.dist (P.relaxAll c x s edges) v) ∈ (P.relaxAll c x s edges).queue := by
  induction edges generalizing s with
  | nil => exact absurd h (lt_irrefl _)
  | cons e edges ih =>
    rw [relaxAll_cons] at h ⊢
    by_cases hlater :
        P.dist (P.relaxAll c x (P.relax c x s e) edges) v < P.dist (P.relax c x s e) v
    · exact ih hlater
    · have heq := le_antisymm dist_relaxAll_le (not_lt.mp hlater)
      rw [heq] at h ⊢
      refine Multiset.mem_of_le queue_relaxAll_le ?_
      rw [dist_relax] at h ⊢
      split at h
      next hv =>
        subst hv
        rw [min_lt_iff, or_iff_left (lt_irrefl _)] at h
        rw [if_pos rfl, min_eq_left h.le, queue_relax h]
        exact Multiset.mem_cons_self _ _
      next => exact absurd h (lt_irrefl _)

end States

section Sound

variable (ok : ν → Prop)

def Closed (s : State ν W) (u : ν) : Prop :=
  ∀ e ∈ P.out u, ok e.1 ∧ P.dist s e.1 ≤ P.dist s u + e.2

structure Walked (s : State ν W) : Prop where
  start : s.labels P.start ≠ none ∧ P.dist s P.start ≤ 0
  label : ∀ v, s.labels v ≠ none → P.Reached v (P.dist s v)
  queue : ∀ q ∈ s.queue, P.Reached q.1 q.2 ∧ s.labels q.1 ≠ none ∧ P.dist s q.1 ≤ q.2

structure Sound (s : State ν W) : Prop extends P.Walked s where
  closed : ∀ u, s.labels u ≠ none → (u, P.dist s u) ∈ s.queue ∨ P.Closed ok s u

variable {P} {ok} {s s' : State ν W} {c u v : ν} {x y : W} {e : ν × W}

theorem Walked.dist_le_top (h : P.Walked s) (v : ν) : P.dist s v ≤ P.top := by
  by_cases hv : s.labels v = none
  · exact (dist_of_none hv).le
  · exact (h.label v hv).lt_top.le

theorem Sound.drop {rest : Multiset (ν × W)} (h : P.Sound ok s) (hqueue : s.queue = (c, x) ::ₘ rest)
    (hstale : P.dist s c < x) : P.Sound ok { s with queue := rest } where
  start := h.start
  label := h.label
  queue q hq := h.queue q (hqueue ▸ Multiset.mem_cons_of_mem hq)
  closed u hu := by
    obtain hmem | hclosed := h.closed u hu
    · rw [hqueue, Multiset.mem_cons, Prod.mk.injEq] at hmem
      obtain ⟨rfl, heq⟩ | hmem := hmem
      · exact absurd heq hstale.ne
      · exact .inl hmem
    · exact .inr hclosed

variable [DecidableEq ν]

theorem Walked.relax (h : P.Walked s) (hx : P.Reached c x) (he : e ∈ P.out c) :
    P.Walked (P.relax c x s e) := by
  by_cases hlt : x + e.2 < P.dist s e.1
  · have hreached : P.Reached e.1 (x + e.2) := Goes.move hx he (hlt.trans_le (h.dist_le_top _))
    have hdist : P.dist (P.relax c x s e) e.1 = x + e.2 := by
      rw [dist_relax, if_pos rfl, min_eq_left hlt.le]
    have hsome : (P.relax c x s e).labels e.1 ≠ none := by
      rw [labels_relax hlt, if_pos rfl]
      exact Option.some_ne_none _
    refine ⟨⟨label_relax h.start.1, dist_relax_le.trans h.start.2⟩, fun v hv => ?_, fun q hq => ?_⟩
    · by_cases hve : v = e.1
      · rw [hve, hdist]
        exact hreached
      · rw [dist_relax, if_neg hve]
        rw [labels_relax hlt, if_neg hve] at hv
        exact h.label v hv
    · rw [queue_relax hlt] at hq
      obtain rfl | hq := Multiset.mem_cons.mp hq
      · exact ⟨hreached, hsome, hdist.le⟩
      · obtain ⟨hq, hlabel, hle⟩ := h.queue q hq
        exact ⟨hq, label_relax hlabel, dist_relax_le.trans hle⟩
  · rwa [Relaxation.relax, if_neg hlt]

theorem Walked.relaxAll (h : P.Walked s) (hx : P.Reached c x) {edges : List (ν × W)}
    (hedges : ∀ e ∈ edges, e ∈ P.out c) : P.Walked (P.relaxAll c x s edges) := by
  induction edges generalizing s with
  | nil => exact h
  | cons e edges ih =>
    exact ih (h.relax hx (hedges e List.mem_cons_self))
      fun e he => hedges e (List.mem_cons_of_mem _ he)

theorem Sound.init : P.Sound ok P.init := by
  have hlabel : P.init.labels P.start = some (0, none) := by rw [labels_init, if_pos rfl]
  have hstart : ∀ v, P.init.labels v ≠ none → v = P.start := fun v hv => by
    by_contra hne
    rw [labels_init, if_neg hne] at hv
    exact hv rfl
  have hdist : P.dist P.init P.start = 0 := dist_of_label hlabel
  refine ⟨⟨⟨?_, hdist.le⟩, fun v hv => ?_, fun q hq => ?_⟩, fun v hv => ?_⟩
  · rw [hlabel]
    exact Option.some_ne_none _
  · rw [hstart v hv, hdist]
    exact .refl
  · obtain rfl := Multiset.mem_singleton.mp hq
    refine ⟨.refl, ?_, hdist.le⟩
    rw [hlabel]
    exact Option.some_ne_none _
  · rw [hstart v hv, hdist]
    exact .inl (Multiset.mem_singleton_self _)

theorem Sound.take {rest : Multiset (ν × W)} (h : P.Sound ok s) (hqueue : s.queue = (c, x) ::ₘ rest)
    (hok : ∀ e ∈ P.out c, ok e.1) :
    P.Sound ok (P.relaxAll c x { s with queue := rest } (P.out c)) := by
  have hpop : P.Walked { s with queue := rest } :=
    ⟨h.start, h.label, fun q hq => h.queue q (hqueue ▸ Multiset.mem_cons_of_mem hq)⟩
  have hc : (c, x) ∈ s.queue := hqueue ▸ Multiset.mem_cons_self _ _
  have hwalked := hpop.relaxAll (h.queue _ hc).1 fun e he => he
  refine ⟨hwalked, fun u hu => ?_⟩
  by_cases hchanged : P.dist (P.relaxAll c x { s with queue := rest } (P.out c)) u < P.dist s u
  · exact .inl (mem_queue_relaxAll hchanged)
  have hdist : P.dist (P.relaxAll c x { s with queue := rest } (P.out c)) u = P.dist s u :=
    le_antisymm dist_relaxAll_le (not_lt.mp hchanged)
  have hold : s.labels u ≠ none := fun hnone => by
    have hlt := (hwalked.label u hu).lt_top
    rw [hdist, dist_of_none hnone] at hlt
    exact lt_irrefl _ hlt
  rw [hdist]
  obtain hmem | hclosed := h.closed u hold
  · rw [hqueue, Multiset.mem_cons, Prod.mk.injEq] at hmem
    obtain ⟨rfl, rfl⟩ | hmem := hmem
    · refine .inr fun e he => ⟨hok e he, ?_⟩
      rw [hdist]
      exact dist_relaxAll_of_mem he
    · exact .inl (Multiset.mem_of_le queue_relaxAll_le hmem)
  · refine .inr fun e he => ⟨(hclosed e he).1, ?_⟩
    rw [hdist]
    exact dist_relaxAll_le.trans (hclosed e he).2

end Sound

section Exhausted

variable {P} {ok : ν → Prop} {s : State ν W} {u v : ν} {x y : W}

theorem Sound.closed_of_empty (h : P.Sound ok s) (hempty : s.queue = 0) (hu : s.labels u ≠ none) :
    P.Closed ok s u :=
  (h.closed u hu).resolve_left (by simp [hempty])

omit [Add W] in
theorem label_ne_none (h : P.dist s v < P.top) : s.labels v ≠ none := fun hnone => by
  rw [dist_of_none hnone] at h
  exact lt_irrefl _ h

variable [AddRightMono W]

theorem Sound.dist_le_of_empty (h : P.Sound ok s) (hempty : s.queue = 0) {q : ν × W}
    (hq : P.Goes (P.start, 0) q) : P.dist s q.1 ≤ q.2 := by
  induction hq with
  | refl => exact h.start.2
  | @tail p _ hp hmove ih =>
    obtain ⟨e, he, rfl, -⟩ := hmove
    have hlabel := label_ne_none (ih.trans_lt (Reached.lt_top hp))
    exact ((h.closed_of_empty hempty hlabel) e he).2.trans (add_le_add_left ih e.2)

theorem Sound.dist_le_of_goes (hexact : ExactSums W) (h : P.Sound ok s) (hempty : s.queue = 0)
    (hu : P.Reached u x) {q : ν × W} (hgoes : P.Goes (u, x) q) :
    q = (u, x) ∨ ∃ w, q.2 = x + w ∧ P.dist s q.1 ≤ P.dist s u + w := by
  induction hgoes with
  | refl => exact .inl rfl
  | @tail p _ hp hmove ih =>
    obtain ⟨e, he, rfl, -⟩ := hmove
    have hreached : P.Reached p.1 p.2 := Relation.ReflTransGen.trans hu hp
    have hle := h.dist_le_of_empty hempty hreached
    have hlabel := label_ne_none (hle.trans_lt hreached.lt_top)
    have hedge := ((h.closed_of_empty hempty hlabel) e he).2
    obtain rfl | ⟨w, hw, hdist⟩ := ih
    · exact .inr ⟨e.2, rfl, hedge⟩
    · refine .inr ⟨w + e.2, ?_, ?_⟩
      · rw [hw, hexact.add_assoc]
      · rw [← hexact.add_assoc]
        exact hedge.trans (add_le_add_left hdist e.2)

theorem Sound.not_improves (hexact : ExactSums W) (h : P.Sound ok s) (hempty : s.queue = 0) :
    ¬ P.Improves := by
  rintro ⟨v, x, y, hreached, hgoes, hlt⟩
  obtain heq | ⟨w, hw, hdist⟩ := h.dist_le_of_goes hexact hempty hreached hgoes
  · exact absurd (Prod.mk.inj heq).2 hlt.ne
  · obtain rfl : y = x + w := hw
    exact absurd (hexact.add_lt hlt) (not_lt.mpr hdist)

end Exhausted

section Trails

inductive Trail : List (ν × W) → Prop
  | start : Trail [(P.start, 0)]
  | move {p q : ν × W} {ps : List (ν × W)} (h : Trail (p :: ps)) (hmove : P.Move p q) :
      Trail (q :: p :: ps)

def Trailed (s : State ν W) (p : ν × W) : Prop :=
  ∃ ps, P.Trail (p :: ps) ∧ ((p :: ps).map (·.1)).Nodup ∧ ∀ q ∈ p :: ps, P.dist s q.1 ≤ q.2

inductive Leads (s : State ν W) : ν → List ν → Prop
  | start : Leads s P.start [P.start]
  | step {v u : ν} {x : W} {path : List ν} (hv : v ≠ P.start)
      (hlabel : s.labels v = some (x, some u)) (h : Leads s u path) : Leads s v (v :: path)

structure Rooted (s : State ν W) : Prop where
  root : s.labels P.start = some (0, none)
  trail : ∀ p ∈ s.queue, P.Trailed s p
  leads : ∀ v, s.labels v ≠ none → ∃ path, P.Leads s v path
  before : ∀ v x u, s.labels v = some (x, some u) → s.labels u ≠ none ∧
    ∃ w, (v, w) ∈ P.out u ∧ P.dist s u + w ≤ x

variable {P} {s : State ν W} {p q : ν × W} {ps : List (ν × W)} {c u v : ν} {x y : W}
  {path : List ν} {e : ν × W}

theorem Trail.reached (h : P.Trail (p :: ps)) : P.Goes (P.start, 0) p := by
  generalize hall : p :: ps = all at h
  induction h generalizing p ps with
  | start =>
    cases hall
    exact .refl
  | move _ hmove ih =>
    cases hall
    exact (ih rfl).tail hmove

theorem Trail.goes (h : P.Trail (p :: ps)) (hq : q ∈ p :: ps) : P.Goes q p := by
  generalize hall : p :: ps = all at h
  induction h generalizing p ps with
  | start =>
    cases hall
    obtain rfl := List.mem_singleton.mp hq
    exact .refl
  | move _ hmove ih =>
    cases hall
    obtain rfl | hq := List.mem_cons.mp hq
    · exact .refl
    · exact (ih hq rfl).tail hmove

theorem Trail.reached_of_mem (h : P.Trail ps) (hq : q ∈ ps) : P.Goes (P.start, 0) q := by
  induction h with
  | start =>
    obtain rfl := List.mem_singleton.mp hq
    exact .refl
  | move h hmove ih =>
    obtain rfl | hq := List.mem_cons.mp hq
    · exact (h.move hmove).reached
    · exact ih hq

theorem Trail.start_mem (h : P.Trail ps) : (P.start, 0) ∈ ps := by
  induction h with
  | start => exact List.mem_singleton_self _
  | move _ _ ih => exact List.mem_cons_of_mem _ ih

theorem Trailed.not_mem (hnot : ¬ P.Improves) (ht : P.Trail ((c, x) :: ps))
    (hle : ∀ q ∈ (c, x) :: ps, P.dist s q.1 ≤ q.2) (he : e ∈ P.out c)
    (hlt : x + e.2 < P.dist s e.1) (htop : x + e.2 < P.top) :
    e.1 ∉ ((c, x) :: ps).map (·.1) := by
  intro hmem
  obtain ⟨q, hq, heq⟩ := List.mem_map.mp hmem
  have hgoes : P.Goes (e.1, q.2) (e.1, x + e.2) := by
    have hgoes := Goes.move (ht.goes hq) he htop
    rwa [← Prod.mk.eta (p := q), heq] at hgoes
  have hreached : P.Reached e.1 q.2 := by
    have hreached := ht.reached_of_mem hq
    rwa [← Prod.mk.eta (p := q), heq] at hreached
  have hdist := hle q hq
  rw [heq] at hdist
  exact hnot ⟨e.1, q.2, x + e.2, hreached, hgoes, hlt.trans_le hdist⟩

omit [Add W] in
theorem Leads.head (h : P.Leads s v path) : ∃ rest, path = v :: rest := by
  cases h with
  | start => exact ⟨_, rfl⟩
  | step => exact ⟨_, rfl⟩

theorem Leads.goes [AddRightMono W] (hw : P.Walked s)
    (hbefore : ∀ v x u, s.labels v = some (x, some u) → s.labels u ≠ none ∧
      ∃ w, (v, w) ∈ P.out u ∧ P.dist s u + w ≤ x)
    (h : P.Leads s c path) (hv : v ∈ path) :
    ∃ y, P.Goes (v, P.dist s v) (c, y) ∧ y ≤ P.dist s c := by
  induction h with
  | start =>
    obtain rfl := List.mem_singleton.mp hv
    exact ⟨_, .refl, le_rfl⟩
  | @step c u x path hc hlabel h ih =>
    obtain rfl | hv := List.mem_cons.mp hv
    · exact ⟨_, .refl, le_rfl⟩
    · obtain ⟨y, hgoes, hle⟩ := ih hv
      obtain ⟨-, w, hw', hdist⟩ := hbefore c x u hlabel
      have hlabel' : s.labels c ≠ none := by
        rw [hlabel]
        exact Option.some_ne_none _
      have hsum : y + w ≤ P.dist s c := by
        rw [dist_of_label hlabel]
        exact (add_le_add_left hle w).trans hdist
      exact ⟨y + w, Goes.move hgoes hw' (hsum.trans_lt (hw.label c hlabel').lt_top), hsum⟩

omit [Add W] in
theorem Leads.congr {s' : State ν W} (h : P.Leads s v path)
    (hsame : ∀ u ∈ path, s'.labels u = s.labels u) : P.Leads s' v path := by
  induction h with
  | start => exact .start
  | step hv hlabel _ ih =>
    exact .step hv ((hsame _ List.mem_cons_self).trans hlabel)
      (ih fun u hu => hsame u (List.mem_cons_of_mem _ hu))

theorem Rooted.pop {rest : Multiset (ν × W)} (h : P.Rooted s) (hqueue : s.queue = p ::ₘ rest) :
    P.Rooted { s with queue := rest } where
  root := h.root
  trail q hq := h.trail q (hqueue ▸ Multiset.mem_cons_of_mem hq)
  leads v hv := by
    obtain ⟨path, hpath⟩ := h.leads v hv
    exact ⟨path, hpath.congr fun _ _ => rfl⟩
  before := h.before

structure Relaxing (P : Relaxation ν W) (c : ν) (x : W) (s : State ν W) : Prop where
  walked : P.Walked s
  rooted : P.Rooted s
  current : P.Trailed s (c, x)
  dist_eq : P.dist s c = x

theorem Relaxing.of_pop {rest : Multiset (ν × W)} (hw : P.Walked s) (h : P.Rooted s)
    (hqueue : s.queue = (c, x) ::ₘ rest) (hdist : P.dist s c = x) :
    Relaxing P c x { s with queue := rest } where
  walked := ⟨hw.start, hw.label, fun q hq => hw.queue q (hqueue ▸ Multiset.mem_cons_of_mem hq)⟩
  rooted := h.pop hqueue
  current := h.trail _ (hqueue ▸ Multiset.mem_cons_self _ _)
  dist_eq := hdist

omit [Add W] in
theorem Leads.label (hroot : s.labels P.start ≠ none) (h : P.Leads s c path) (hv : v ∈ path) :
    s.labels v ≠ none := by
  induction h with
  | start =>
    obtain rfl := List.mem_singleton.mp hv
    exact hroot
  | step _ hlabel _ ih =>
    obtain rfl | hv := List.mem_cons.mp hv
    · rw [hlabel]
      exact Option.some_ne_none _
    · exact ih hv

variable [DecidableEq ν]

theorem Trailed.relax (h : P.Trailed s p) : P.Trailed (P.relax c x s e) p := by
  obtain ⟨ps, ht, hnodup, hle⟩ := h
  exact ⟨ps, ht, hnodup, fun q hq => dist_relax_le.trans (hle q hq)⟩

theorem Rooted.init : P.Rooted P.init where
  root := by rw [labels_init, if_pos rfl]
  trail p hp := by
    obtain rfl := Multiset.mem_singleton.mp hp
    refine ⟨[], .start, List.nodup_singleton _, fun q hq => ?_⟩
    obtain rfl := List.mem_singleton.mp hq
    exact (dist_of_label (by rw [labels_init, if_pos rfl])).le
  leads v hv := by
    by_cases hstart : v = P.start
    · rw [hstart]
      exact ⟨_, .start⟩
    · rw [labels_init, if_neg hstart] at hv
      exact absurd rfl hv
  before v x u hlabel := by
    rw [labels_init] at hlabel
    split at hlabel <;> cases hlabel

theorem Relaxing.relax [AddRightMono W] (hnot : ¬ P.Improves) (h : Relaxing P c x s)
    (he : e ∈ P.out c) : Relaxing P c x (P.relax c x s e) := by
  obtain ⟨ps, ht, hnodup, hle⟩ := h.current
  have hreached : P.Reached c x := ht.reached
  have hwalked := h.walked.relax hreached he
  by_cases hlt : x + e.2 < P.dist s e.1
  case neg =>
    rw [Relaxation.relax, if_neg hlt] at hwalked ⊢
    exact h
  have htop : x + e.2 < P.top := hlt.trans_le (h.walked.dist_le_top e.1)
  have hnew := Trailed.not_mem hnot ht hle he hlt htop
  have hstart : P.start ≠ e.1 := fun heq =>
    hnew (List.mem_map.mpr ⟨_, ht.start_mem, heq⟩)
  have hc : c ≠ e.1 := fun heq => hnew (List.mem_map.mpr ⟨_, List.mem_cons_self, heq⟩)
  have hdist : P.dist (P.relax c x s e) e.1 = x + e.2 := by
    rw [dist_relax, if_pos rfl, min_eq_left hlt.le]
  have hlabel : s.labels c ≠ none := label_ne_none (h.dist_eq ▸ hreached.lt_top)
  obtain ⟨path, hpath⟩ := h.rooted.leads c hlabel
  have hfree : e.1 ∉ path := fun hmem => by
    obtain ⟨y, hgoes, hy⟩ := hpath.goes h.walked h.rooted.before hmem
    have hsum : y + e.2 ≤ x + e.2 := add_le_add_left (h.dist_eq ▸ hy) e.2
    have hold := hpath.label h.walked.start.1 hmem
    exact hnot ⟨e.1, _, _, h.walked.label e.1 hold, Goes.move hgoes he (hsum.trans_lt htop),
      hsum.trans_lt hlt⟩
  have hnewpath : P.Leads (P.relax c x s e) e.1 (e.1 :: path) := by
    refine .step (Ne.symm hstart) (by rw [labels_relax hlt, if_pos rfl]) (hpath.congr fun u hu => ?_)
    have hne : u ≠ e.1 := fun heq => hfree (heq ▸ hu)
    rw [labels_relax hlt, if_neg hne]
  have hall : ∀ v q, P.Leads s v q → ∃ q', P.Leads (P.relax c x s e) v q' := fun v q hq => by
    induction hq with
    | start => exact ⟨_, .start⟩
    | @step v u y q hv hlabel _ ih =>
      by_cases hve : v = e.1
      · exact ⟨_, hve ▸ hnewpath⟩
      · obtain ⟨q', hq'⟩ := ih
        exact ⟨_, .step hv (by rw [labels_relax hlt, if_neg hve, hlabel]) hq'⟩
  refine ⟨hwalked, ⟨?_, fun p hp => ?_, fun v hv => ?_, fun v y u hv => ?_⟩, h.current.relax, ?_⟩
  · rw [labels_relax hlt, if_neg hstart]
    exact h.rooted.root
  · rw [queue_relax hlt] at hp
    obtain rfl | hp := Multiset.mem_cons.mp hp
    · refine ⟨(c, x) :: ps, ht.move ⟨e, he, rfl, htop⟩, List.nodup_cons.mpr ⟨hnew, hnodup⟩, ?_⟩
      intro q hq
      obtain rfl | hq := List.mem_cons.mp hq
      · exact hdist.le
      · exact dist_relax_le.trans (hle q hq)
    · exact (h.rooted.trail p hp).relax
  · by_cases hve : v = e.1
    · exact ⟨_, hve ▸ hnewpath⟩
    · rw [labels_relax hlt, if_neg hve] at hv
      obtain ⟨q, hq⟩ := h.rooted.leads v hv
      exact hall v q hq
  · rw [labels_relax hlt] at hv
    split at hv
    next hve =>
      cases hv
      refine ⟨label_relax hlabel, e.2, hve ▸ he, ?_⟩
      rw [dist_relax, if_neg hc, h.dist_eq]
    next =>
      obtain ⟨hu, w, hw, hle⟩ := h.rooted.before v y u hv
      exact ⟨label_relax hu, w, hw, (add_le_add_left dist_relax_le w).trans hle⟩
  · rw [dist_relax, if_neg hc]
    exact h.dist_eq

theorem Relaxing.relaxAll [AddRightMono W] (hnot : ¬ P.Improves) (h : Relaxing P c x s)
    {edges : List (ν × W)} (hedges : ∀ e ∈ edges, e ∈ P.out c) :
    Relaxing P c x (P.relaxAll c x s edges) := by
  induction edges generalizing s with
  | nil => exact h
  | cons e edges ih =>
    exact ih (h.relax hnot (hedges e List.mem_cons_self))
      fun e he => hedges e (List.mem_cons_of_mem _ he)

end Trails

section Potential

structure Covers (nodes : Finset ν) : Prop where
  start : P.start ∈ nodes
  out : ∀ u, ∀ e ∈ P.out u, e.1 ∈ nodes

variable {P} {s : State ν W} {p : ν × W} {ps : List (ν × W)} {c : ν} {x : W} {e : ν × W}
  {nodes : Finset ν}

theorem Trail.mem_nodes (hnodes : P.Covers nodes) (h : P.Trail ps) {q : ν × W} (hq : q ∈ ps) :
    q.1 ∈ nodes := by
  induction h with
  | start =>
    obtain rfl := List.mem_singleton.mp hq
    exact hnodes.start
  | move _ hmove ih =>
    obtain rfl | hq := List.mem_cons.mp hq
    · obtain ⟨e, he, rfl, -⟩ := hmove
      exact hnodes.out _ e he
    · exact ih hq

variable [DecidableEq ν]

variable (P) in
def level : Nat → Finset (ν × W)
  | 0 => {(P.start, 0)}
  | n + 1 => level n ∪
    (level n).biUnion fun p => ((P.out p.1).map fun e => (e.1, p.2 + e.2)).toFinset

variable (P) in
def potential (nodes : Finset ν) (s : State ν W) : Nat :=
  ((P.level nodes.card).filter fun p => p.2 < P.dist s p.1).card + s.queue.card

theorem level_mono : Monotone P.level :=
  monotone_nat_of_le_succ fun _ => Finset.subset_union_left

theorem Trail.mem_level (h : P.Trail (p :: ps)) : p ∈ P.level ps.length := by
  generalize hall : p :: ps = all at h
  induction h generalizing p ps with
  | start =>
    cases hall
    exact Finset.mem_singleton_self _
  | @move p q ps _ hmove ih =>
    cases hall
    obtain ⟨e, he, rfl, -⟩ := hmove
    refine Finset.mem_union_right _ (Finset.mem_biUnion.mpr ⟨p, ih rfl, ?_⟩)
    exact List.mem_toFinset.mpr (List.mem_map_of_mem he)

theorem Trailed.mem_level (hnodes : P.Covers nodes) (h : P.Trailed s p) :
    p ∈ P.level nodes.card := by
  obtain ⟨ps, ht, hnodup, -⟩ := h
  refine level_mono ?_ ht.mem_level
  have hsub : ((p :: ps).map (·.1)).toFinset ⊆ nodes := fun v hv => by
    obtain ⟨q, hq, rfl⟩ := List.mem_map.mp (List.mem_toFinset.mp hv)
    exact ht.mem_nodes hnodes hq
  have hcard := Finset.card_le_card hsub
  rw [List.toFinset_card_of_nodup hnodup, List.length_map, List.length_cons] at hcard
  exact Nat.le_of_succ_le hcard

variable [AddRightMono W]

theorem Relaxing.potential_relax (hnot : ¬ P.Improves) (hnodes : P.Covers nodes)
    (h : Relaxing P c x s) (he : e ∈ P.out c) :
    P.potential nodes (P.relax c x s e) ≤ P.potential nodes s := by
  by_cases hlt : x + e.2 < P.dist s e.1
  case neg => rw [Relaxation.relax, if_neg hlt]
  have hqueue := queue_relax (P := P) (c := c) hlt
  have hnew : (e.1, x + e.2) ∈ P.level nodes.card := by
    refine Trailed.mem_level hnodes ((h.relax hnot he).rooted.trail _ ?_)
    rw [hqueue]
    exact Multiset.mem_cons_self _ _
  have hcard : ((P.level nodes.card).filter fun p => p.2 < P.dist (P.relax c x s e) p.1).card <
      ((P.level nodes.card).filter fun p => p.2 < P.dist s p.1).card := by
    refine Finset.card_lt_card (Finset.ssubset_iff_of_subset ?_ |>.mpr ⟨(e.1, x + e.2), ?_, ?_⟩)
    · exact Finset.monotone_filter_right _ fun p _ hp => hp.trans_le dist_relax_le
    · exact Finset.mem_filter.mpr ⟨hnew, hlt⟩
    · rw [Finset.mem_filter, dist_relax, if_pos rfl, min_eq_left hlt.le]
      exact fun hmem => lt_irrefl _ hmem.2
  rw [potential, potential, hqueue, Multiset.card_cons]
  omega

theorem Relaxing.potential_relaxAll (hnot : ¬ P.Improves) (hnodes : P.Covers nodes)
    (h : Relaxing P c x s) {edges : List (ν × W)} (hedges : ∀ e ∈ edges, e ∈ P.out c) :
    P.potential nodes (P.relaxAll c x s edges) ≤ P.potential nodes s := by
  induction edges generalizing s with
  | nil => exact le_rfl
  | cons e edges ih =>
    have he := hedges e List.mem_cons_self
    exact (ih (h.relax hnot he) fun e he => hedges e (List.mem_cons_of_mem _ he)).trans
      (h.potential_relax hnot hnodes he)

omit [AddRightMono W] in
theorem potential_pop {rest : Multiset (ν × W)} (hqueue : s.queue = p ::ₘ rest) :
    P.potential nodes { s with queue := rest } + 1 = P.potential nodes s := by
  rw [potential, potential, hqueue, Multiset.card_cons, Nat.add_assoc]
  rfl

end Potential

end Relaxation
