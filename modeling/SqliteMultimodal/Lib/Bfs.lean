import Mathlib.Data.Finset.Card
import Mathlib.Data.List.Nodup
import Mathlib.Logic.Relation

universe u v

namespace Bfs

variable {ν : Type u} {β : Type v} [DecidableEq ν]

def enqueue (next : List ν) (q : List ν) : List ν :=
  next.foldl (fun q i => if i ∈ q then q else q ++ [i]) q

def search (next : ν → List ν) (visit : ν → Option β) (limit : Nat) :
    Nat → List ν → Nat → List β → List β
  | 0, _, _, out => out
  | fuel + 1, q, qh, out =>
    match q[qh]? with
    | none => out
    | some i =>
      if limit ≤ out.length then out
      else search next visit limit fuel (enqueue (next i) q) (qh + 1) (out ++ (visit i).toList)

def visits (next : ν → List ν) (visit : ν → Option β) (limit : Nat) :
    Nat → List ν → Nat → List β → List ν
  | 0, _, _, _ => []
  | fuel + 1, q, qh, out =>
    match q[qh]? with
    | none => []
    | some i =>
      if limit ≤ out.length then []
      else i :: visits next visit limit fuel (enqueue (next i) q) (qh + 1) (out ++ (visit i).toList)

theorem enqueue_cons (i : ν) (next q : List ν) :
    enqueue (i :: next) q = enqueue next (if i ∈ q then q else q ++ [i]) := rfl

theorem prefix_enqueue (next q : List ν) : q <+: enqueue next q := by
  induction next generalizing q with
  | nil => exact List.prefix_rfl
  | cons i next ih =>
    rw [enqueue, List.foldl_cons]
    split
    · exact ih q
    · exact (List.prefix_append q [i]).trans (ih _)

theorem mem_enqueue {next q : List ν} {i : ν} : i ∈ enqueue next q ↔ i ∈ q ∨ i ∈ next := by
  induction next generalizing q with
  | nil => simp [enqueue]
  | cons j next ih =>
    rw [enqueue, List.foldl_cons]
    change i ∈ enqueue next _ ↔ _
    rw [ih]
    split
    next hj =>
      rw [List.mem_cons]
      constructor
      · tauto
      · rintro (h | rfl | h)
        · exact .inl h
        · exact .inl hj
        · exact .inr h
    next => rw [List.mem_append, List.mem_singleton, List.mem_cons, or_assoc]

theorem nodup_enqueue {next q : List ν} (h : q.Nodup) : (enqueue next q).Nodup := by
  induction next generalizing q with
  | nil => exact h
  | cons i next ih =>
    rw [enqueue, List.foldl_cons]
    split
    · exact ih h
    next hi =>
      refine ih (List.nodup_append.mpr ⟨h, List.nodup_singleton i, ?_⟩)
      rintro a ha b hb rfl
      exact hi (List.mem_singleton.mp hb ▸ ha)

abbrev Reach (next : ν → List ν) (start i : ν) : Prop :=
  Relation.ReflTransGen (fun i j => j ∈ next i) start i

variable {next : ν → List ν} {visit : ν → Option β} {limit : Nat} {start : ν}

/-- The queue `q` after `qh` visits. -/
structure Visited (next : ν → List ν) (start : ν) (q : List ν) (qh : Nat) : Prop where
  nodup : q.Nodup
  start_mem : start ∈ q
  reach : ∀ i ∈ q, Reach next start i
  closed : ∀ i ∈ q.take qh, ∀ j ∈ next i, j ∈ q

omit [DecidableEq ν] in
theorem Visited.single (next : ν → List ν) (start : ν) : Visited next start [start] 0 where
  nodup := List.nodup_singleton start
  start_mem := List.mem_singleton_self start
  reach i hi := by
    obtain rfl := List.mem_singleton.mp hi
    exact .refl
  closed i hi := by simp at hi

theorem Visited.step {q : List ν} {qh : Nat} {i : ν} (h : Visited next start q qh)
    (hi : q[qh]? = some i) : Visited next start (enqueue (next i) q) (qh + 1) := by
  obtain ⟨hlt, rfl⟩ := List.getElem?_eq_some_iff.mp hi
  obtain ⟨rest, hrest⟩ := prefix_enqueue (next q[qh]) q
  have htake : (enqueue (next q[qh]) q).take (qh + 1) = q.take qh ++ [q[qh]] := by
    rw [← hrest, List.take_append_of_le_length (by omega), List.take_concat_get' q qh hlt]
  exact {
    nodup := nodup_enqueue h.nodup
    start_mem := mem_enqueue.mpr (.inl h.start_mem)
    reach := fun j hj => by
      obtain hj | hj := mem_enqueue.mp hj
      · exact h.reach j hj
      · exact (h.reach q[qh] (List.getElem_mem hlt)).tail hj
    closed := fun j hj k hk => by
      rw [htake, List.mem_append, List.mem_singleton] at hj
      obtain hj | rfl := hj
      · exact mem_enqueue.mpr (.inl (h.closed j hj k hk))
      · exact mem_enqueue.mpr (.inr hk) }

omit [DecidableEq ν] in
theorem Visited.mem_of_reach {q : List ν} {qh : Nat} (h : Visited next start q qh)
    (hqh : q.length ≤ qh) {i : ν} (hi : Reach next start i) : i ∈ q := by
  induction hi with
  | refl => exact h.start_mem
  | tail _ hstep ih =>
    refine h.closed _ ?_ _ hstep
    rwa [List.take_of_length_le hqh]

theorem Visited.length_le {univ : Finset ν} (huniv : ∀ i, Reach next start i → i ∈ univ)
    {q : List ν} {qh : Nat} (h : Visited next start q qh) : q.length ≤ univ.card := by
  rw [← List.toFinset_card_of_nodup h.nodup]
  exact Finset.card_le_card fun i hi => huniv i (h.reach i (List.mem_toFinset.mp hi))

/-- What a search is to return: the results of distinct nodes that can be reached, and of all of
them unless there are `limit` results. -/
structure Found (next : ν → List ν) (visit : ν → Option β) (limit : Nat) (start : ν)
    (visited : List ν) : Prop where
  nodup : visited.Nodup
  reach : ∀ i ∈ visited, Reach next start i
  all : (visited.filterMap visit).length < limit → ∀ i, Reach next start i → i ∈ visited

omit [DecidableEq ν] in
theorem Visited.found {q : List ν} {qh : Nat} (h : Visited next start q qh)
    (hend : limit ≤ ((q.take qh).filterMap visit).length ∨ q.length ≤ qh) :
    Found next visit limit start (q.take qh) where
  nodup := h.nodup.sublist (List.take_sublist qh q)
  reach i hi := h.reach i (List.mem_of_mem_take hi)
  all hlt i hi := by
    have hqh : q.length ≤ qh := by omega
    rw [List.take_of_length_le hqh]
    exact h.mem_of_reach hqh hi

section Visits

variable {fuel : Nat} {q : List ν} {qh : Nat} {out : List β}

theorem search_eq_visits : search next visit limit fuel q qh out =
    out ++ (visits next visit limit fuel q qh out).filterMap visit := by
  induction fuel generalizing q qh out with
  | zero => exact (List.append_nil out).symm
  | succ fuel ih =>
    unfold search visits
    split
    next => exact (List.append_nil out).symm
    next i _ =>
      split
      · exact (List.append_nil out).symm
      · rw [ih, List.append_assoc, List.filterMap_cons]
        cases visit i <;> rfl

theorem search_congr {visit' : ν → Option β}
    (h : ∀ i ∈ visits next visit limit fuel q qh out, visit i = visit' i) :
    search next visit limit fuel q qh out = search next visit' limit fuel q qh out := by
  induction fuel generalizing q qh out with
  | zero => rfl
  | succ fuel ih =>
    unfold visits at h
    unfold search
    split at h
    next => rfl
    next i _ =>
      split at h
      next hlimit => rw [if_pos hlimit, if_pos hlimit]
      next hlimit =>
        obtain ⟨hi, hrest⟩ := List.forall_mem_cons.mp h
        rw [if_neg hlimit, if_neg hlimit, ih hrest, hi]

theorem mem_visits_of_none {before after : List ν} {i : ν}
    (h : visits next (fun _ => (none : Option β)) limit fuel q qh out = before ++ i :: after)
    (hnone : ∀ j ∈ before, visit j = none) : i ∈ visits next visit limit fuel q qh out := by
  induction fuel generalizing q qh before with
  | zero => simp [visits] at h
  | succ fuel ih =>
    unfold visits at h ⊢
    split at h
    next => simp at h
    next j _ =>
      split at h
      next => simp at h
      next hlimit =>
        rw [if_neg hlimit]
        cases before with
        | nil => exact (List.cons.inj h).1 ▸ List.mem_cons_self
        | cons k before =>
          obtain ⟨rfl, htail⟩ := List.cons.inj h
          obtain ⟨hj, hrest⟩ := List.forall_mem_cons.mp hnone
          have hnone : out ++ (visit j).toList = out := by
            rw [hj, Option.toList_none, List.append_nil]
          rw [Option.toList_none, List.append_nil] at htail
          rw [hnone]
          exact List.mem_cons_of_mem _ (ih htail hrest)

variable (visit limit) in
theorem found_visits {univ : Finset ν} (huniv : ∀ i, Reach next start i → i ∈ univ)
    (h : Visited next start q qh) (hfuel : univ.card ≤ fuel + qh) :
    Found next visit limit start
      (q.take qh ++ visits next visit limit fuel q qh ((q.take qh).filterMap visit)) := by
  induction fuel generalizing q qh with
  | zero =>
    have := h.length_le huniv
    rw [visits, List.append_nil]
    exact h.found (.inr (by omega))
  | succ fuel ih =>
    unfold visits
    split
    next hq =>
      rw [List.append_nil]
      exact h.found (.inr (List.getElem?_eq_none_iff.mp hq))
    next i hi =>
      split
      next hlimit =>
        rw [List.append_nil]
        exact h.found (.inl hlimit)
      next =>
        obtain ⟨hlt, hget⟩ := List.getElem?_eq_some_iff.mp hi
        obtain ⟨rest, hrest⟩ := prefix_enqueue (next i) q
        have htake : (enqueue (next i) q).take (qh + 1) = q.take qh ++ [i] := by
          rw [← hrest, List.take_append_of_le_length (by omega), ← List.take_concat_get' q qh hlt,
            hget]
        have hout : (q.take qh).filterMap visit ++ (visit i).toList =
            ((enqueue (next i) q).take (qh + 1)).filterMap visit := by
          rw [htake, List.filterMap_append]
          cases hv : visit i <;> simp [hv]
        have hfound := ih (h.step hi) (by omega)
        rw [hout]
        rwa [htake, List.append_assoc, List.singleton_append, ← htake] at hfound

variable (visit limit) in
theorem search_found {univ : Finset ν} (huniv : ∀ i, Reach next start i → i ∈ univ)
    (h : Visited next start q qh) (hfuel : univ.card ≤ fuel + qh) :
    ∃ visited,
      search next visit limit fuel q qh ((q.take qh).filterMap visit) = visited.filterMap visit ∧
      Found next visit limit start visited :=
  ⟨_, by rw [search_eq_visits, List.filterMap_append], found_visits visit limit huniv h hfuel⟩

end Visits

theorem search_length_le_one {univ : Finset ν} (huniv : ∀ i, Reach next start i → i ∈ univ)
    {fuel : Nat} (hfuel : univ.card ≤ fuel) (hlimit : 2 ≤ limit) :
    (search next visit limit fuel [start] 0 []).length ≤ 1 ↔
      ∀ i j, Reach next start i → Reach next start j → (visit i).isSome → (visit j).isSome →
        i = j := by
  obtain ⟨visited, hsearch, hfound⟩ := search_found visit limit huniv
    (Visited.single next start) hfuel
  rw [List.take_zero, List.filterMap_nil] at hsearch
  rw [hsearch, List.length_filterMap_eq_countP, List.countP_eq_length_filter]
  have hnodup := hfound.nodup.filter fun i => (visit i).isSome
  constructor
  · intro hlen i j hi hj hvi hvj
    have hall := hfound.all (by
      rw [List.length_filterMap_eq_countP, List.countP_eq_length_filter]
      omega)
    have hmem : ∀ k, Reach next start k → (visit k).isSome →
        k ∈ visited.filter fun i => (visit i).isSome :=
      fun k hk hv => List.mem_filter.mpr ⟨hall k hk, hv⟩
    obtain ⟨k, hk⟩ := List.length_eq_one_iff.mp
      (le_antisymm hlen (List.length_pos_of_mem (hmem i hi hvi)))
    have hi' := hmem i hi hvi
    have hj' := hmem j hj hvj
    rw [hk, List.mem_singleton] at hi' hj'
    rw [hi', hj']
  · intro huniq
    match hl : visited.filter fun i => (visit i).isSome with
    | [] => simp
    | [i] => simp
    | i :: j :: rest =>
      have hmem : ∀ k ∈ i :: j :: rest, Reach next start k ∧ (visit k).isSome := by
        intro k hk
        rw [← hl, List.mem_filter] at hk
        exact ⟨hfound.reach k hk.1, hk.2⟩
      obtain ⟨hi, hvi⟩ := hmem i (by simp)
      obtain ⟨hj, hvj⟩ := hmem j (by simp)
      rw [hl, List.nodup_cons] at hnodup
      exact absurd (by simp [huniq i j hi hj hvi hvj]) hnodup.1

end Bfs
