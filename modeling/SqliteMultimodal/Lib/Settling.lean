import Mathlib.Algebra.Order.Group.Defs
import SqliteMultimodal.Lib.Relaxation

universe u v

namespace Relaxation

variable {ν : Type u} {W : Type v} [AddCommGroup W] [LinearOrder W] (P : Relaxation ν W)

section Defs

def Nonneg : Prop := ∀ u, ∀ e ∈ P.out u, 0 ≤ e.2

def Settled (s : State ν W) (u : ν) : Prop := s.labels u ≠ none ∧ (u, P.dist s u) ∉ s.queue

structure Settling (s : State ν W) : Prop where
  nodup : s.queue.Nodup
  least : ∀ u, P.Settled s u → ∀ q ∈ s.queue, P.dist s u ≤ q.2
  tight : ∀ v x u, s.labels v = some (x, some u) →
    P.Settled s u ∧ ∃ w, (v, w) ∈ P.out u ∧ x = P.dist s u + w

inductive Walk : List ν → W → Prop
  | start : Walk [P.start] 0
  | step {u : ν} {path : List ν} {x : W} {e : ν × W} (h : Walk (u :: path) x) (he : e ∈ P.out u) :
      Walk (e.1 :: u :: path) (x + e.2)

end Defs

variable {P} {ok : ν → Prop} {s : State ν W} {c u v : ν} {x y : W} {e : ν × W} {path : List ν}
  {rest : Multiset (ν × W)}

section Walks

variable [IsOrderedAddMonoid W]

theorem Goes.le_potential {φ : ν → W} (hφ : ∀ u, ∀ e ∈ P.out u, φ e.1 ≤ φ u + e.2) {p q : ν × W}
    (h : P.Goes p q) : φ q.1 + p.2 ≤ φ p.1 + q.2 := by
  induction h with
  | refl => exact le_rfl
  | @tail q _ _ hmove ih =>
    obtain ⟨e, he, rfl, -⟩ := hmove
    calc
      φ e.1 + p.2 ≤ φ q.1 + e.2 + p.2 := add_le_add_left (hφ _ e he) p.2
      _ = φ q.1 + p.2 + e.2 := add_right_comm ..
      _ ≤ φ p.1 + q.2 + e.2 := add_le_add_left ih e.2
      _ = φ p.1 + (q.2 + e.2) := add_assoc ..

theorem not_improves_of_potential (φ : ν → W) (hφ : ∀ u, ∀ e ∈ P.out u, φ e.1 ≤ φ u + e.2) :
    ¬ P.Improves := by
  rintro ⟨v, x, y, -, hgoes, hlt⟩
  exact absurd hlt (not_lt.mpr (le_of_add_le_add_left (hgoes.le_potential hφ)))

theorem Nonneg.not_improves (hnonneg : P.Nonneg) : ¬ P.Improves :=
  not_improves_of_potential (fun _ => 0) fun u e he => by
    rw [zero_add]
    exact hnonneg u e he

end Walks

section Pop

theorem Settled.pop (hqueue : s.queue = (c, x) ::ₘ rest) (h : P.Settled s u) :
    P.Settled { s with queue := rest } u :=
  ⟨h.1, fun hmem => h.2 (hqueue ▸ Multiset.mem_cons_of_mem hmem)⟩

theorem Settled.of_pop (hqueue : s.queue = (c, x) ::ₘ rest)
    (h : P.Settled { s with queue := rest } u) : P.Settled s u ∨ u = c ∧ P.dist s c = x := by
  by_cases hmem : (u, P.dist s u) ∈ s.queue
  · rw [hqueue, Multiset.mem_cons, Prod.mk.injEq] at hmem
    obtain ⟨rfl, hx⟩ | hmem := hmem
    · exact .inr ⟨rfl, hx⟩
    · exact absurd hmem h.2
  · exact .inl ⟨h.1, hmem⟩

theorem Settling.pop (h : P.Settling s) (hqueue : s.queue = (c, x) ::ₘ rest)
    (hmin : ∀ q ∈ rest, x ≤ q.2) : P.Settling { s with queue := rest } where
  nodup := (Multiset.nodup_cons.mp (hqueue ▸ h.nodup)).2
  least u hu q hq := by
    obtain hu | ⟨rfl, hx⟩ := hu.of_pop hqueue
    · exact h.least u hu q (hqueue ▸ Multiset.mem_cons_of_mem hq)
    · exact hx.le.trans (hmin q hq)
  tight v y u hlabel := by
    obtain ⟨hu, hw⟩ := h.tight v y u hlabel
    exact ⟨hu.pop hqueue, hw⟩

end Pop

section Relax

structure Expanding (P : Relaxation ν W) (c : ν) (x : W) (s : State ν W) : Prop where
  walked : P.Walked s
  settling : P.Settling s
  settled : P.Settled s c
  dist_eq : P.dist s c = x
  last : ∀ u, P.Settled s u → P.dist s u ≤ x

theorem Expanding.of_pop (hw : P.Walked s) (h : P.Settling s) (hqueue : s.queue = (c, x) ::ₘ rest)
    (hmin : ∀ q ∈ rest, x ≤ q.2) (hdist : P.dist s c = x) :
    Expanding P c x { s with queue := rest } where
  walked := ⟨hw.start, hw.label, fun q hq => hw.queue q (hqueue ▸ Multiset.mem_cons_of_mem hq)⟩
  settling := h.pop hqueue hmin
  settled := by
    have hnodup := hqueue ▸ h.nodup
    refine ⟨(hw.queue (c, x) (hqueue ▸ Multiset.mem_cons_self _ _)).2.1, fun hmem => ?_⟩
    exact (Multiset.nodup_cons.mp hnodup).1 (hdist ▸ hmem)
  dist_eq := hdist
  last u hu := by
    obtain hu | ⟨rfl, hx⟩ := hu.of_pop hqueue
    · exact h.least u hu (c, x) (hqueue ▸ Multiset.mem_cons_self _ _)
    · exact hx.le

variable [DecidableEq ν] [IsOrderedAddMonoid W]

theorem Expanding.relax (h : Expanding P c x s) (he : e ∈ P.out c) (hweight : 0 ≤ e.2) :
    Expanding P c x (P.relax c x s e) := by
  by_cases hlt : x + e.2 < P.dist s e.1
  case neg => rwa [Relaxation.relax, if_neg hlt]
  have hx : x ≤ x + e.2 := le_add_of_nonneg_right hweight
  have hreached : P.Reached c x := h.dist_eq ▸ h.walked.label c h.settled.1
  have hnew : ∀ u, P.Settled s u → u ≠ e.1 := fun u hu heq =>
    absurd hlt (not_lt.mpr ((heq ▸ h.last u hu).trans hx))
  have hdist : ∀ u, u ≠ e.1 → P.dist (P.relax c x s e) u = P.dist s u := fun u hu => by
    rw [dist_relax, if_neg hu]
  have hdist' : P.dist (P.relax c x s e) e.1 = x + e.2 := by
    rw [dist_relax, if_pos rfl, min_eq_left hlt.le]
  have hkeeps : ∀ u, P.Settled s u → P.Settled (P.relax c x s e) u := fun u hu => by
    refine ⟨label_relax hu.1, fun hmem => ?_⟩
    rw [hdist u (hnew u hu), queue_relax hlt, Multiset.mem_cons, Prod.mk.injEq] at hmem
    obtain ⟨heq, -⟩ | hmem := hmem
    · exact hnew u hu heq
    · exact hu.2 hmem
  have hback : ∀ u, P.Settled (P.relax c x s e) u → P.Settled s u := fun u hu => by
    have hne : u ≠ e.1 := by
      rintro rfl
      refine hu.2 ?_
      rw [hdist', queue_relax hlt]
      exact Multiset.mem_cons_self _ _
    obtain ⟨hlabel, hmem⟩ := hu
    rw [labels_relax hlt, if_neg hne] at hlabel
    rw [hdist u hne, queue_relax hlt, Multiset.mem_cons, not_or] at hmem
    exact ⟨hlabel, hmem.2⟩
  refine ⟨h.walked.relax hreached he, ⟨?_, fun u hu q hq => ?_, fun v y u hlabel => ?_⟩,
    hkeeps c h.settled, (hdist c (hnew c h.settled)).trans h.dist_eq, fun u hu => ?_⟩
  · rw [queue_relax hlt, Multiset.nodup_cons]
    exact ⟨fun hmem => absurd hlt (not_lt.mpr (h.walked.queue _ hmem).2.2), h.settling.nodup⟩
  · have hold := hback u hu
    rw [hdist u (hnew u hold)]
    rw [queue_relax hlt] at hq
    obtain rfl | hq := Multiset.mem_cons.mp hq
    · exact (h.last u hold).trans hx
    · exact h.settling.least u hold q hq
  · rw [labels_relax hlt] at hlabel
    split at hlabel
    next hv =>
      cases hlabel
      refine ⟨hkeeps c h.settled, e.2, hv ▸ he, ?_⟩
      rw [hdist c (hnew c h.settled), h.dist_eq]
    next =>
      obtain ⟨hu, w, hw, heq⟩ := h.settling.tight v y u hlabel
      refine ⟨hkeeps u hu, w, hw, ?_⟩
      rw [hdist u (hnew u hu), heq]
  · have hold := hback u hu
    rw [hdist u (hnew u hold)]
    exact h.last u hold

theorem Expanding.relaxAll (hnonneg : P.Nonneg) (h : Expanding P c x s) {edges : List (ν × W)}
    (hedges : ∀ e ∈ edges, e ∈ P.out c) : Expanding P c x (P.relaxAll c x s edges) := by
  induction edges generalizing s with
  | nil => exact h
  | cons e edges ih =>
    have he := hedges e List.mem_cons_self
    exact ih (h.relax he (hnonneg c e he)) fun e he => hedges e (List.mem_cons_of_mem _ he)

omit [IsOrderedAddMonoid W] in
theorem Settling.init : P.Settling P.init where
  nodup := Multiset.nodup_singleton _
  least u hu q hq := by
    obtain ⟨hlabel, hmem⟩ := hu
    rw [labels_init] at hlabel
    split at hlabel
    next hu =>
      subst hu
      refine absurd (Multiset.mem_singleton.mpr ?_) hmem
      rw [dist_of_label (by rw [labels_init, if_pos rfl])]
    next => exact absurd rfl hlabel
  tight v x u hlabel := by
    rw [labels_init] at hlabel
    split at hlabel <;> cases hlabel

end Relax

section Exact

theorem Leads.walk (hroot : P.dist s P.start = 0) (h : P.Settling s) (hpath : P.Leads s v path) :
    P.Walk path (P.dist s v) := by
  induction hpath with
  | start => exact hroot ▸ .start
  | @step v u x path _ hlabel hpath ih =>
    obtain ⟨-, w, hw, heq⟩ := h.tight v x u hlabel
    obtain ⟨rest, rfl⟩ := hpath.head
    rw [dist_of_label hlabel, heq]
    exact ih.step hw

variable [IsOrderedAddMonoid W]

theorem Walk.upTo (hnonneg : P.Nonneg) {later : List ν} (h : P.Walk (later ++ v :: path) x) :
    ∃ y, P.Walk (v :: path) y ∧ y ≤ x := by
  induction later generalizing x with
  | nil => exact ⟨x, h, le_rfl⟩
  | cons u later ih =>
    generalize hall : u :: later ++ v :: path = all at h
    cases h with
    | start => simp at hall
    | @step c rest y e h he =>
      obtain ⟨-, htail⟩ := List.cons.inj hall
      obtain ⟨z, hz, hle⟩ := ih (htail ▸ h)
      exact ⟨z, hz, hle.trans (le_add_of_nonneg_right (hnonneg c e he))⟩

theorem Walk.simple (hnonneg : P.Nonneg) (h : P.Walk (v :: path) x) :
    ∃ path' y, P.Walk (v :: path') y ∧ (v :: path').Nodup ∧ y ≤ x := by
  generalize hall : v :: path = all at h
  induction h generalizing v path with
  | start =>
    cases hall
    exact ⟨[], 0, .start, List.nodup_singleton _, le_rfl⟩
  | @step u rest x e _ he ih =>
    obtain ⟨rfl, -⟩ := List.cons.inj hall
    obtain ⟨path', y, hwalk, hnodup, hle⟩ := ih rfl
    have hsum : y + e.2 ≤ x + e.2 := add_le_add_left hle e.2
    by_cases hmem : e.1 ∈ u :: path'
    · obtain ⟨later, path'', hsplit⟩ := List.append_of_mem hmem
      rw [hsplit] at hwalk hnodup
      obtain ⟨z, hz, hzy⟩ := hwalk.upTo hnonneg
      refine ⟨path'', z, hz, hnodup.of_append_right, ?_⟩
      exact (hzy.trans (le_add_of_nonneg_right (hnonneg u e he))).trans hsum
    · exact ⟨u :: path', y + e.2, hwalk.step he, List.nodup_cons.mpr ⟨hmem, hnodup⟩, hsum⟩

omit [IsOrderedAddMonoid W] in
theorem Walk.reached (htop : ∀ path x, P.Walk path x → path.Nodup → x < P.top)
    (h : P.Walk (v :: path) x) (hnodup : (v :: path).Nodup) : P.Reached v x := by
  generalize hall : v :: path = all at h
  induction h generalizing v path with
  | start =>
    cases hall
    exact .refl
  | @step u rest x e h he ih =>
    cases hall
    have hlt := htop _ _ (h.step he) hnodup
    exact Goes.move (ih (List.nodup_cons.mp hnodup).2 rfl) he hlt

theorem Settling.le_or_settled (hs : P.Sound ok s) (hmin : ∀ q ∈ s.queue, x ≤ q.2)
    {q : ν × W} (hq : P.Goes (P.start, 0) q) (hnonneg : P.Nonneg) :
    x ≤ q.2 ∨ P.dist s q.1 ≤ q.2 ∧ P.Settled s q.1 := by
  have hnext : ∀ v y, P.dist s v ≤ y → s.labels v ≠ none →
      x ≤ y ∨ P.dist s v ≤ y ∧ P.Settled s v := fun v y hle hlabel => by
    by_cases hmem : (v, P.dist s v) ∈ s.queue
    · exact .inl ((hmin _ hmem).trans hle)
    · exact .inr ⟨hle, hlabel, hmem⟩
  induction hq with
  | refl => exact hnext _ _ hs.start.2 hs.start.1
  | @tail p q hp hmove ih =>
    obtain ⟨e, he, rfl, htop⟩ := hmove
    obtain hle | ⟨hle, hsettled⟩ := ih
    · exact .inl (hle.trans (le_add_of_nonneg_right (hnonneg _ e he)))
    · have hclosed := (hs.closed _ hsettled.1).resolve_left hsettled.2
      have hdist := (hclosed e he).2.trans (add_le_add_left hle e.2)
      exact hnext _ _ hdist (label_ne_none (hdist.trans_lt htop))

end Exact

end Relaxation
