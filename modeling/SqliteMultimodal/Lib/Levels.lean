import Mathlib.Data.Finset.Card
import Mathlib.Data.List.Nodup
import Mathlib.Data.Nat.Find
import Mathlib.Logic.Relation

universe u

namespace Levels

variable {ν : Type u} (next : ν → List ν) (opened : Nat → Prop) (start : ν)

section Walks

inductive Walks : Nat → ν → Prop
  | start : Walks 0 start
  | step {n : Nat} {i j : ν} (h : Walks n i) (hj : j ∈ next i) : Walks (n + 1) j

variable {next} {start} in
theorem Walks.head {i : ν} {n : Nat} {w : ν} (hi : i ∈ next start) (h : Walks next i n w) :
    Walks next start (n + 1) w := by
  induction h with
  | start => exact .step .start hi
  | step _ hj ih => exact ih.step hj

def IsDist (i : ν) (d : Nat) : Prop := Walks next start d i ∧ ∀ n, Walks next start n i → d ≤ n

variable {next} {start} in
theorem IsDist.unique {i : ν} {d e : Nat} (hd : IsDist next start i d)
    (he : IsDist next start i e) : d = e :=
  le_antisymm (hd.2 e he.1) (he.2 d hd.1)

variable {next} {start} in
theorem Walks.exists_isDist {i : ν} {n : Nat} (h : Walks next start n i) :
    ∃ d ≤ n, IsDist next start i d := by
  classical
  have hex : ∃ d, Walks next start d i := ⟨n, h⟩
  exact ⟨Nat.find hex, Nat.find_min' hex h, Nat.find_spec hex, fun m hm => Nat.find_min' hex hm⟩

def Open (n : Nat) : Prop := ∀ m < n, opened m

end Walks

section Queue

/-- The queue after `qh` nodes have been taken from it; it keeps them. -/
structure Leveled (q : List (ν × Nat)) (qh : Nat) : Prop where
  head : q.head? = some (start, 0)
  nodup : (q.map Prod.fst).Nodup
  sorted : q.Pairwise fun p r => p.2 ≤ r.2
  walks : ∀ p ∈ q, Walks next start p.2 p.1 ∧ Open opened p.2
  near : ∀ p ∈ q, ∀ r ∈ q.drop qh, p.2 ≤ r.2 + 1
  closed : ∀ p ∈ q.take qh, opened p.2 → ∀ j ∈ next p.1, ∃ e ≤ p.2 + 1, (j, e) ∈ q

variable {next} {opened} {start} {q : List (ν × Nat)} {qh d : Nat} {i : ν}

theorem Leveled.single : Leveled next opened start [(start, 0)] 0 where
  head := rfl
  nodup := List.nodup_singleton start
  sorted := List.pairwise_singleton _ _
  walks p hp := by
    obtain rfl := List.mem_singleton.mp hp
    exact ⟨.start, fun m hm => absurd hm (Nat.not_lt_zero m)⟩
  near p hp r hr := by
    obtain rfl := List.mem_singleton.mp hp
    exact Nat.zero_le _
  closed p hp := absurd hp List.not_mem_nil

theorem take_succ_eq (h : q[qh]? = some (i, d)) : q.take (qh + 1) = q.take qh ++ [(i, d)] := by
  rw [List.take_add_one, h, Option.toList_some]

theorem drop_eq_cons (h : q[qh]? = some (i, d)) : q.drop qh = (i, d) :: q.drop (qh + 1) := by
  obtain ⟨hlt, hget⟩ := List.getElem?_eq_some_iff.mp h
  rw [List.drop_eq_getElem_cons hlt, hget]

theorem Leveled.skip (h : Leveled next opened start q qh) (hi : q[qh]? = some (i, d))
    (hd : ¬ opened d) : Leveled next opened start q (qh + 1) where
  head := h.head
  nodup := h.nodup
  sorted := h.sorted
  walks := h.walks
  near p hp r hr := h.near p hp r (drop_eq_cons hi ▸ List.mem_cons_of_mem _ hr)
  closed p hp hopen := by
    rw [take_succ_eq hi, List.mem_append, List.mem_singleton] at hp
    obtain hp | rfl := hp
    · exact h.closed p hp hopen
    · exact absurd hopen hd

variable [DecidableEq ν]

def discover (d : Nat) (q : List (ν × Nat)) (j : ν) : List (ν × Nat) :=
  if j ∈ q.map Prod.fst then q else q ++ [(j, d + 1)]

def expand (d : Nat) (js : List ν) (q : List (ν × Nat)) : List (ν × Nat) := js.foldl (discover d) q

theorem expand_cons (d : Nat) (j : ν) (js : List ν) (q : List (ν × Nat)) :
    expand d (j :: js) q = expand d js (discover d q j) := rfl

theorem expand_spec (d : Nat) (js : List ν) (h : (q.map Prod.fst).Nodup) :
    ∃ added, expand d js q = q ++ added ∧ ((q ++ added).map Prod.fst).Nodup ∧
      (∀ p ∈ added, p.2 = d + 1 ∧ p.1 ∈ js) ∧ ∀ j ∈ js, j ∈ (q ++ added).map Prod.fst := by
  induction js generalizing q with
  | nil => exact ⟨[], (List.append_nil q).symm, by rwa [List.append_nil], by simp, by simp⟩
  | cons j js ih =>
    rw [expand_cons, discover]
    split
    next hj =>
      obtain ⟨added, heq, hnodup, hadded, hall⟩ := ih h
      refine ⟨added, heq, hnodup, fun p hp => ?_, fun k hk => ?_⟩
      · exact ⟨(hadded p hp).1, List.mem_cons_of_mem j (hadded p hp).2⟩
      · obtain rfl | hk := List.mem_cons.mp hk
        · rw [List.map_append]
          exact List.mem_append_left _ hj
        · exact hall k hk
    next hj =>
      have hnew : ((q ++ [(j, d + 1)]).map Prod.fst).Nodup := by
        rw [List.map_append, List.map_singleton, List.nodup_append]
        refine ⟨h, List.nodup_singleton j, ?_⟩
        rintro a ha b hb rfl
        obtain rfl : a = j := List.mem_singleton.mp hb
        exact hj ha
      obtain ⟨added, heq, hnodup, hadded, hall⟩ := ih hnew
      rw [List.append_assoc, List.singleton_append] at heq hnodup hall
      refine ⟨(j, d + 1) :: added, heq, hnodup, fun p hp => ?_, fun k hk => ?_⟩
      · obtain rfl | hp := List.mem_cons.mp hp
        · exact ⟨rfl, List.mem_cons_self⟩
        · exact ⟨(hadded p hp).1, List.mem_cons_of_mem j (hadded p hp).2⟩
      · obtain rfl | hk := List.mem_cons.mp hk
        · exact List.mem_map_of_mem (f := Prod.fst)
            (List.mem_append_right q (List.mem_cons_self (a := (k, d + 1))))
        · exact hall k hk

theorem Leveled.step (h : Leveled next opened start q qh) (hi : q[qh]? = some (i, d))
    (hd : opened d) : Leveled next opened start (expand d (next i) q) (qh + 1) := by
  obtain ⟨added, heq, hnodup, hadded, hall⟩ := expand_spec d (next i) h.nodup
  have hmem : (i, d) ∈ q := List.mem_of_getElem? hi
  have hlt := (List.getElem?_eq_some_iff.mp hi).1
  have hle : ∀ p ∈ q, p.2 ≤ d + 1 := fun p hp =>
    h.near p hp (i, d) (drop_eq_cons hi ▸ List.mem_cons_self)
  have hafter : ∀ r ∈ q.drop (qh + 1), d ≤ r.2 := by
    have hsorted := h.sorted.sublist (List.drop_sublist qh q)
    rw [drop_eq_cons hi, List.pairwise_cons] at hsorted
    exact hsorted.1
  obtain ⟨hwalk, hopen⟩ := h.walks _ hmem
  rw [heq]
  refine ⟨?_, hnodup, ?_, fun p hp => ?_, fun p hp r hr => ?_, fun p hp hopen j hj => ?_⟩
  · rw [List.head?_append, h.head]
    rfl
  · refine List.pairwise_append.mpr ⟨h.sorted, ?_, fun p hp r hr => ?_⟩
    · refine List.pairwise_of_forall_mem_list fun p hp r hr => ?_
      rw [(hadded p hp).1, (hadded r hr).1]
    · rw [(hadded r hr).1]
      exact hle p hp
  · obtain hp | hp := List.mem_append.mp hp
    · exact h.walks p hp
    · obtain ⟨hdepth, hnext⟩ := hadded p hp
      rw [hdepth]
      refine ⟨hwalk.step hnext, fun m hm => ?_⟩
      obtain hm | rfl := Nat.lt_or_eq_of_le (Nat.le_of_lt_succ hm)
      · exact hopen m hm
      · exact hd
  · rw [List.drop_append_of_le_length hlt, List.mem_append] at hr
    obtain hp | hp := List.mem_append.mp hp
    · obtain hr | hr := hr
      · exact h.near p hp r (drop_eq_cons hi ▸ List.mem_cons_of_mem _ hr)
      · rw [(hadded r hr).1]
        exact (hle p hp).trans (Nat.le_succ _)
    · rw [(hadded p hp).1]
      obtain hr | hr := hr
      · exact Nat.succ_le_succ (hafter r hr)
      · rw [(hadded r hr).1]
        exact Nat.le_succ _
  · rw [List.take_append_of_le_length hlt, take_succ_eq hi, List.mem_append,
      List.mem_singleton] at hp
    obtain hp | rfl := hp
    · obtain ⟨e, he, hmem⟩ := h.closed p hp hopen j hj
      exact ⟨e, he, List.mem_append_left _ hmem⟩
    · obtain ⟨⟨k, e⟩, hr, rfl⟩ := List.mem_map.mp (hall j hj)
      refine ⟨e, ?_, hr⟩
      obtain hr | hr := List.mem_append.mp hr
      · exact hle _ hr
      · exact (hadded _ hr).1.le

theorem Leveled.length_le {univ : Finset ν} (h : Leveled next opened start q qh)
    (huniv : ∀ n i, Walks next start n i → i ∈ univ) : q.length ≤ univ.card := by
  rw [← List.length_map (f := Prod.fst), ← List.toFinset_card_of_nodup h.nodup]
  refine Finset.card_le_card fun i hi => ?_
  obtain ⟨p, hp, rfl⟩ := List.mem_map.mp (List.mem_toFinset.mp hi)
  exact huniv _ _ (h.walks p hp).1

end Queue

section Emptied

variable {next} {opened} {start} {q : List (ν × Nat)} {qh d n : Nat} {i : ν}

theorem Leveled.exists_le (h : Leveled next opened start q qh) (hqh : q.length ≤ qh)
    (hwalk : Walks next start n i) (hopen : Open opened n) : ∃ e ≤ n, (i, e) ∈ q := by
  induction hwalk with
  | start => exact ⟨0, Nat.le_refl 0, List.mem_of_mem_head? h.head⟩
  | @step n i j _ hj ih =>
    obtain ⟨e, he, hmem⟩ := ih fun m hm => hopen m (Nat.lt_succ_of_lt hm)
    have htake : (i, e) ∈ q.take qh := by rwa [List.take_of_length_le hqh]
    obtain ⟨e', he', hmem'⟩ := h.closed _ htake (hopen e (Nat.lt_succ_of_le he)) j hj
    exact ⟨e', he'.trans (Nat.succ_le_succ he), hmem'⟩

theorem Leveled.mem_iff (h : Leveled next opened start q qh) (hqh : q.length ≤ qh) :
    (i, d) ∈ q ↔ IsDist next start i d ∧ Open opened d := by
  have hunique : ∀ e, (i, d) ∈ q → (i, e) ∈ q → d = e := fun e hd he =>
    congrArg Prod.snd (List.inj_on_of_nodup_map h.nodup hd he rfl)
  constructor
  · intro hmem
    obtain ⟨hwalk, hopen⟩ := h.walks _ hmem
    refine ⟨⟨hwalk, fun n hn => ?_⟩, hopen⟩
    by_contra hlt
    have hlt := Nat.lt_of_not_le hlt
    obtain ⟨e, he, hmem'⟩ := h.exists_le hqh hn fun m hm => hopen m (hm.trans hlt)
    exact absurd (hunique e hmem hmem') (he.trans_lt hlt).ne'
  · rintro ⟨⟨hwalk, hmin⟩, hopen⟩
    obtain ⟨e, he, hmem⟩ := h.exists_le hqh hwalk hopen
    rwa [le_antisymm (hmin e (h.walks _ hmem).1) he]

theorem Leveled.mem_map_iff (h : Leveled next opened start q qh) (hqh : q.length ≤ qh) :
    i ∈ q.map Prod.fst ↔ ∃ d, IsDist next start i d ∧ Open opened d := by
  constructor
  · intro hi
    obtain ⟨⟨_, d⟩, hmem, rfl⟩ := List.mem_map.mp hi
    exact ⟨d, (h.mem_iff hqh).mp hmem⟩
  · rintro ⟨d, hd⟩
    exact List.mem_map.mpr ⟨(i, d), (h.mem_iff hqh).mpr hd, rfl⟩

end Emptied

end Levels
