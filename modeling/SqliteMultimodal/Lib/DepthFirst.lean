import Mathlib.Data.List.Lex
import Mathlib.Order.WellFoundedSet
import SqliteMultimodal.Lib.Fuel
import SqliteMultimodal.Lib.Levels

universe u

namespace DepthFirst

open Levels (Walks)

variable {ν : Type u} (next : ν → List ν) (opened : Nat → Prop) (start : ν)

section Defs

variable [DecidableEq ν] [DecidablePred opened]

def explore : Nat → Nat → ν → List ν → Option (List ν)
  | 0, _, _, _ => none
  | fuel + 1, d, i, seen =>
    if opened d then
      if i ∈ seen then some seen
      else (next i).foldlM (fun seen j => explore fuel (d + 1) j seen) (seen ++ [i])
    else some seen

end Defs

structure Tree (entered : ν → Prop) (address : ν → List Nat) : Prop where
  root : entered start → address start = []
  parent : ∀ v, entered v → v ≠ start →
    ∃ u k, entered u ∧ (next u)[k]? = some v ∧ address v = address u ++ [k]
  shallow : ∀ v, entered v → opened (address v).length
  first : ∀ u v k, entered u → (next u)[k]? = some v → opened ((address u).length + 1) →
    entered v ∧ address v ≤ address u ++ [k]

structure Entered (d : Nat) (i : ν) (seen seen' : List ν) : Prop where
  grown : ∃ added, seen' = seen ++ added
  nodup : seen'.Nodup
  walks : ∀ w ∈ seen', w ∉ seen → ∃ n, Walks next i n w ∧ ∀ m ≤ n, opened (d + m)

variable {next} {opened} {start} {d fuel : Nat} {i j : ν} {seen seen' seen'' : List ν}

section Sound

theorem Entered.refl (h : seen.Nodup) : Entered next opened d i seen seen where
  grown := ⟨[], (List.append_nil seen).symm⟩
  nodup := h
  walks _ hw hnot := absurd hw hnot

theorem Entered.subset (h : Entered next opened d i seen seen') : seen ⊆ seen' := by
  obtain ⟨added, rfl⟩ := h.grown
  exact List.subset_append_left seen added

theorem Entered.enter (h : seen.Nodup) (hi : i ∉ seen) (hd : opened d) :
    Entered next opened d i seen (seen ++ [i]) where
  grown := ⟨[i], rfl⟩
  nodup := by
    refine List.nodup_append.mpr ⟨h, List.nodup_singleton i, ?_⟩
    rintro a ha b hb rfl
    obtain rfl : a = i := List.mem_singleton.mp hb
    exact hi ha
  walks w hw hnot := by
    obtain rfl := List.mem_singleton.mp ((List.mem_append.mp hw).resolve_left hnot)
    refine ⟨0, .start, fun m hm => ?_⟩
    rwa [Nat.le_zero.mp hm]

theorem Entered.trans (h : Entered next opened d i seen seen') (hj : j ∈ next i) (hd : opened d)
    (h' : Entered next opened (d + 1) j seen' seen'') : Entered next opened d i seen seen'' where
  grown := by
    obtain ⟨added, rfl⟩ := h.grown
    obtain ⟨added', rfl⟩ := h'.grown
    exact ⟨added ++ added', List.append_assoc ..⟩
  nodup := h'.nodup
  walks w hw hnot := by
    by_cases hw' : w ∈ seen'
    · exact h.walks w hw' hnot
    · obtain ⟨n, hwalk, hopen⟩ := h'.walks w hw hw'
      refine ⟨n + 1, hwalk.head hj, fun m hm => ?_⟩
      cases m with
      | zero => exact hd
      | succ m =>
        have hopen := hopen m (Nat.le_of_succ_le_succ hm)
        rwa [Nat.add_assoc, Nat.add_comm 1] at hopen

variable [DecidableEq ν] [DecidablePred opened]

theorem explore_entered (h : explore next opened fuel d i seen = some seen')
    (hnodup : seen.Nodup) : Entered next opened d i seen seen' := by
  induction fuel generalizing d i seen seen' with
  | zero => cases h
  | succ fuel ih =>
    rw [explore] at h
    split at h
    next hd =>
      split at h
      next =>
        cases h
        exact .refl hnodup
      next hi =>
        have hloop : ∀ (js : List ν) (s : List ν), js ⊆ next i →
            js.foldlM (fun seen j => explore next opened fuel (d + 1) j seen) s = some seen' →
            Entered next opened d i seen s → Entered next opened d i seen seen' := by
          intro js
          induction js with
          | nil =>
            intro s _ hs hentered
            cases hs
            exact hentered
          | cons j js ihjs =>
            intro s hsub hs hentered
            rw [List.foldlM_cons] at hs
            obtain ⟨s', hs', hs⟩ := Option.bind_eq_some_iff.mp hs
            have hbelow := ih hs' hentered.nodup
            exact ihjs s' (List.subset_of_cons_subset hsub) hs
              (hentered.trans (hsub List.mem_cons_self) hd hbelow)
        exact hloop (next i) _ (List.Subset.refl _) h (.enter hnodup hi hd)
    next =>
      cases h
      exact .refl hnodup

end Sound

section Total

variable [DecidableEq ν] [DecidablePred opened] {univ : Finset ν}

theorem length_le_card (hnodup : seen.Nodup) (hsub : ∀ w ∈ seen, w ∈ univ) :
    seen.length ≤ univ.card := by
  rw [← List.toFinset_card_of_nodup hnodup]
  exact Finset.card_le_card fun w hw => hsub w (List.mem_toFinset.mp hw)

theorem explore_total (huniv : ∀ i ∈ univ, ∀ j ∈ next i, j ∈ univ) (hi : i ∈ univ)
    (hnodup : seen.Nodup) (hsub : ∀ w ∈ seen, w ∈ univ) (hfuel : univ.card < fuel + seen.length) :
    ∃ seen', explore next opened fuel d i seen = some seen' ∧ ∀ w ∈ seen', w ∈ univ := by
  induction fuel generalizing d i seen with
  | zero =>
    have := length_le_card hnodup hsub
    omega
  | succ fuel ih =>
    rw [explore]
    split
    case isFalse => exact ⟨seen, rfl, hsub⟩
    split
    next => exact ⟨seen, rfl, hsub⟩
    next hd hnew =>
      have hloop : ∀ (js : List ν) (s : List ν), js ⊆ next i → s.Nodup → (∀ w ∈ s, w ∈ univ) →
          univ.card < fuel + s.length → ∃ seen',
            js.foldlM (fun seen j => explore next opened fuel (d + 1) j seen) s = some seen' ∧
              ∀ w ∈ seen', w ∈ univ := by
        intro js
        induction js with
        | nil => exact fun s _ _ hs _ => ⟨s, rfl, hs⟩
        | cons j js ihjs =>
          intro s hjs hs hsub hfuel
          obtain ⟨s', hs', hsub'⟩ := ih (huniv i hi j (hjs List.mem_cons_self)) hs hsub hfuel
            (d := d + 1)
          have hentered := explore_entered hs' hs
          obtain ⟨added, hgrown⟩ := hentered.grown
          rw [List.foldlM_cons, hs']
          refine ihjs s' (List.subset_of_cons_subset hjs) hentered.nodup hsub' ?_
          rw [hgrown, List.length_append]
          omega
      have henter : Entered next opened d i seen (seen ++ [i]) := .enter hnodup hnew hd
      refine hloop (next i) _ (List.Subset.refl _) henter.nodup (fun w hw => ?_) ?_
      · obtain hw | hw := List.mem_append.mp hw
        · exact hsub w hw
        · rwa [List.mem_singleton.mp hw]
      · rw [List.length_append, List.length_singleton]
        omega

theorem explore_succ (h : explore next opened fuel d i seen = some seen') :
    explore next opened (fuel + 1) d i seen = some seen' := by
  induction fuel generalizing d i seen seen' with
  | zero => cases h
  | succ fuel ih =>
    rw [explore] at h ⊢
    split at h
    case isFalse hd => rwa [if_neg hd]
    rw [if_pos (by assumption)]
    split at h
    next hi => rwa [if_pos hi]
    next hi =>
      rw [if_neg hi]
      exact Fuel.foldlM_mono (fun _ _ _ => ih) (next i) h

end Total

section Addresses

variable {address address' address'' : ν → List Nat} {a : List Nat} {k n : Nat}

theorem lt_append_singleton (a : List Nat) (k : Nat) : a < a ++ [k] := by
  have h : a ++ [] < a ++ [k] := List.append_left_lt (List.nil_lt_cons k [])
  rwa [List.append_nil] at h

theorem lt_append_of_lt {b : List Nat} (hk : k < n) (h : a ++ [k] <+: b) : b < a ++ [n] := by
  obtain ⟨c, rfl⟩ := h
  rw [List.append_assoc, List.singleton_append]
  exact List.append_left_lt (List.cons_lt_cons_iff.mpr (.inl hk))

variable (next opened) in
/-- What is entered below the node at an address, after `n` of its edges have been followed. -/
structure Below (n : Nat) (i : ν) (a : List Nat) (address address' : ν → List Nat)
    (seen seen' : List ν) : Prop where
  subset : seen ⊆ seen'
  same : ∀ w ∈ seen, address' w = address w
  under : ∀ w ∈ seen', w ∉ seen → address' w = a ∨ ∃ k < n, a ++ [k] <+: address' w
  parent : ∀ w ∈ seen', w ∉ seen → w = i ∧ address' w = a ∨
    ∃ u ∈ seen', ∃ k, (next u)[k]? = some w ∧ address' w = address' u ++ [k]
  shallow : ∀ w ∈ seen', w ∉ seen → opened (address' w).length
  first : ∀ u ∈ seen', u ∉ seen → ∀ k v, (u = i → k < n) → (next u)[k]? = some v →
    opened ((address' u).length + 1) → v ∈ seen' ∧ address' v ≤ address' u ++ [k]

theorem Below.refl : Below next opened n i a address address seen seen where
  subset := List.Subset.refl seen
  same _ _ := rfl
  under _ hw hnot := absurd hw hnot
  parent _ hw hnot := absurd hw hnot
  shallow _ hw hnot := absurd hw hnot
  first _ hu hnot := absurd hu hnot

variable [DecidableEq ν]

theorem Below.enter (hi : i ∉ seen) (hd : opened a.length) :
    Below next opened 0 i a address (Function.update address i a) seen (seen ++ [i]) := by
  have hnew : ∀ w ∈ seen ++ [i], w ∉ seen → w = i := fun w hw hnot =>
    List.mem_singleton.mp ((List.mem_append.mp hw).resolve_left hnot)
  refine ⟨List.subset_append_left seen [i], fun w hw => ?_, fun w hw hnot => ?_,
    fun w hw hnot => ?_, fun w hw hnot => ?_, fun u hu hnot k v hk => ?_⟩
  · exact Function.update_of_ne (fun heq : w = i => hi (heq ▸ hw)) _ _
  · obtain rfl := hnew w hw hnot
    exact .inl (Function.update_self ..)
  · obtain rfl := hnew w hw hnot
    exact .inl ⟨rfl, Function.update_self ..⟩
  · obtain rfl := hnew w hw hnot
    rwa [Function.update_self]
  · exact absurd (hk (hnew u hu hnot)) (Nat.not_lt_zero k)

theorem Below.trans (h : Below next opened n i a address address' seen seen')
    (hi : i ∈ seen') (hiseen : i ∉ seen) (ha : address' i = a) (hj : (next i)[n]? = some j)
    (h' : Below next opened (next j).length j (a ++ [n]) address' address'' seen' seen'')
    (hhere : opened (a.length + 1) → j ∈ seen'' ∧ address'' j ≤ a ++ [n]) :
    Below next opened (n + 1) i a address address'' seen seen'' where
  subset := List.Subset.trans h.subset h'.subset
  same w hw := (h'.same w (h.subset hw)).trans (h.same w hw)
  under w hw hnot := by
    by_cases hw' : w ∈ seen'
    · rw [h'.same w hw']
      obtain hunder | ⟨k, hk, hunder⟩ := h.under w hw' hnot
      · exact .inl hunder
      · exact .inr ⟨k, hk.trans (Nat.lt_succ_self n), hunder⟩
    · refine .inr ⟨n, Nat.lt_succ_self n, ?_⟩
      obtain hunder | ⟨k, _, hunder⟩ := h'.under w hw hw'
      · exact hunder ▸ List.prefix_rfl
      · exact (List.prefix_append _ _).trans hunder
  parent w hw hnot := by
    by_cases hw' : w ∈ seen'
    · rw [h'.same w hw']
      obtain hparent | ⟨u, hu, k, hk, hparent⟩ := h.parent w hw' hnot
      · exact .inl hparent
      · exact .inr ⟨u, h'.subset hu, k, hk, (h'.same u hu).symm ▸ hparent⟩
    · obtain ⟨rfl, hparent⟩ | hparent := h'.parent w hw hw'
      · exact .inr ⟨i, h'.subset hi, n, hj, by rw [h'.same i hi, ha, hparent]⟩
      · exact .inr hparent
  shallow w hw hnot := by
    by_cases hw' : w ∈ seen'
    · rw [h'.same w hw']
      exact h.shallow w hw' hnot
    · exact h'.shallow w hw hw'
  first u hu hnot k v hk hv hopen := by
    by_cases hu' : u ∈ seen'
    · rw [h'.same u hu'] at hopen ⊢
      by_cases heq : u = i ∧ k = n
      · obtain ⟨rfl, rfl⟩ := heq
        rw [ha] at hopen ⊢
        rw [hj] at hv
        cases hv
        exact hhere hopen
      · have hk' : u = i → k < n := fun hui =>
          lt_of_le_of_ne (Nat.le_of_lt_succ (hk hui)) fun hkn => heq ⟨hui, hkn⟩
        obtain ⟨hmem, hle⟩ := h.first u hu' hnot k v hk' hv hopen
        exact ⟨h'.subset hmem, (h'.same v hmem).symm ▸ hle⟩
    · have hk' : u = j → k < (next j).length := fun huj =>
        (List.getElem?_eq_some_iff.mp (huj ▸ hv)).1
      exact h'.first u hu hu' k v hk' hv hopen

theorem Below.lt_of_mem (h : Below next opened n i a address address' seen seen')
    (hbefore : ∀ w ∈ seen, address w < a) {w : ν} (hw : w ∈ seen') : address' w < a ++ [n] := by
  by_cases hw' : w ∈ seen
  · rw [h.same w hw']
    exact (hbefore w hw').trans (lt_append_singleton a n)
  · obtain hunder | ⟨k, hk, hunder⟩ := h.under w hw hw'
    · exact hunder ▸ lt_append_singleton a n
    · exact lt_append_of_lt hk hunder

variable [DecidablePred opened]

theorem explore_below (address : ν → List Nat)
    (h : explore next opened fuel a.length i seen = some seen') (hbefore : ∀ w ∈ seen, address w < a) :
    ∃ address', Below next opened (next i).length i a address address' seen seen' ∧
      (opened a.length → i ∈ seen' ∧ address' i ≤ a) ∧
      (i ∉ seen → i ∈ seen' → address' i = a) := by
  induction fuel generalizing a i seen seen' address with
  | zero => cases h
  | succ fuel ih =>
    rw [explore] at h
    split at h
    case isFalse hd =>
      cases h
      exact ⟨address, .refl, fun hopen => absurd hopen hd, fun hnot hi => absurd hi hnot⟩
    split at h
    next hi =>
      cases h
      exact ⟨address, .refl, fun _ => ⟨hi, (hbefore i hi).le⟩, fun hnot => absurd hi hnot⟩
    next hd hi =>
      have hloop : ∀ (js passed s : List ν) (address' : ν → List Nat), next i = passed ++ js →
          js.foldlM (fun seen j => explore next opened fuel (a.length + 1) j seen) s = some seen' →
          Below next opened passed.length i a address address' seen s → i ∈ s → address' i = a →
          ∃ address'', Below next opened (next i).length i a address address'' seen seen' ∧
            i ∈ seen' ∧ address'' i = a := by
        intro js
        induction js with
        | nil =>
          intro passed s address' hnext hs hbelow his ha
          cases hs
          rw [List.append_nil] at hnext
          exact ⟨address', hnext ▸ hbelow, his, ha⟩
        | cons j js ihjs =>
          intro passed s address' hnext hs hbelow his ha
          rw [List.foldlM_cons] at hs
          obtain ⟨s', hs', hs⟩ := Option.bind_eq_some_iff.mp hs
          have hj : (next i)[passed.length]? = some j := by
            rw [hnext, List.getElem?_append_right (Nat.le_refl _), Nat.sub_self]
            rfl
          have hlength : (a ++ [passed.length]).length = a.length + 1 := List.length_append
          rw [← hlength] at hs'
          obtain ⟨address'', hbelow', hhere, -⟩ :=
            ih address' hs' fun w hw => hbelow.lt_of_mem hbefore hw
          rw [hlength] at hhere
          refine ihjs (passed ++ [j]) s' address'' ?_ hs ?_ (hbelow'.subset his) ?_
          · rw [hnext, List.append_assoc, List.singleton_append]
          · rw [List.length_append, List.length_singleton]
            exact hbelow.trans his hi ha hj hbelow' hhere
          · rw [hbelow'.same i his, ha]
      obtain ⟨address', hbelow, hmem, ha⟩ := hloop (next i) [] (seen ++ [i]) _ rfl h
        (.enter hi hd) (List.mem_append_right seen List.mem_cons_self) (Function.update_self ..)
      exact ⟨address', hbelow, fun _ => ⟨hmem, ha.le⟩, fun _ _ => ha⟩

theorem explore_tree (h : explore next opened fuel 0 start [] = some seen) :
    ∃ address, Tree next opened start (· ∈ seen) address := by
  obtain ⟨address, hbelow, -, hroot⟩ := explore_below (a := []) (fun _ => []) h
    fun w hw => absurd hw List.not_mem_nil
  refine ⟨address, hroot List.not_mem_nil, fun v hv hne => ?_, fun v hv => ?_, ?_⟩
  · obtain ⟨rfl, _⟩ | ⟨u, hu, k, hk, hparent⟩ := hbelow.parent v hv List.not_mem_nil
    · exact absurd rfl hne
    · exact ⟨u, k, hu, hk, hparent⟩
  · exact hbelow.shallow v hv List.not_mem_nil
  · intro u v k hu hv
    refine hbelow.first u hu List.not_mem_nil k v (fun hstart => ?_) hv
    exact (List.getElem?_eq_some_iff.mp (hstart ▸ hv)).1

end Addresses

section Trees

open Levels (IsDist Open)

variable {address address' : ν → List Nat} {entered entered' : ν → Prop}

theorem Tree.walks (h : Tree next opened start entered address) {v : ν} (hv : entered v) :
    Walks next start (address v).length v ∧ ∀ m ≤ (address v).length, opened m := by
  induction hn : (address v).length generalizing v with
  | zero =>
    by_cases hne : v = start
    · subst hne
      refine ⟨.start, fun m hm => ?_⟩
      rw [Nat.le_zero.mp hm, ← hn]
      exact h.shallow v hv
    · obtain ⟨u, k, _, _, hparent⟩ := h.parent v hv hne
      simp [hparent] at hn
  | succ n ih =>
    by_cases hne : v = start
    · subst hne
      simp [h.root hv] at hn
    · obtain ⟨u, k, hu, hk, hparent⟩ := h.parent v hv hne
      have hlength := hn
      rw [hparent, List.length_append, List.length_singleton] at hn
      obtain ⟨hwalk, hopen⟩ := ih hu (Nat.succ.inj hn)
      refine ⟨hwalk.step (List.mem_of_getElem? hk), fun m hm => ?_⟩
      obtain hm | rfl := Nat.le_succ_iff.mp hm
      · exact hopen m hm
      · exact (congrArg opened hlength).mp (h.shallow v hv)

theorem Tree.unique_step {b : List Nat} (h : Tree next opened start entered address)
    (h' : Tree next opened start entered' address') (hstart : entered' start)
    (ih : ∀ v, entered v → address v < b → entered' v ∧ address' v = address v)
    (ih' : ∀ v, entered' v → address' v < b → entered v ∧ address v = address' v)
    {v : ν} (hv : entered v) (hb : address v = b) : entered' v ∧ address' v = b := by
  by_cases hne : v = start
  · subst hne
    exact ⟨hstart, by rw [h'.root hstart, ← hb, h.root hv]⟩
  · obtain ⟨u, k, hu, hk, hparent⟩ := h.parent v hv hne
    have hlt : address u < b := by
      rw [← hb, hparent]
      exact lt_append_singleton _ _
    obtain ⟨hu', hsame⟩ := ih u hu hlt
    have hopen := h.shallow v hv
    rw [hparent, List.length_append, List.length_singleton, ← hsame] at hopen
    obtain ⟨hv', hle⟩ := h'.first u v k hu' hk hopen
    rw [hsame, ← hparent, hb] at hle
    refine ⟨hv', eq_of_le_of_not_lt hle fun hlt => ?_⟩
    obtain ⟨_, hsame⟩ := ih' v hv' hlt
    exact absurd (hsame.symm.trans hb) hlt.ne

theorem Tree.unique (univ : Finset ν) (h : Tree next opened start entered address)
    (h' : Tree next opened start entered' address') (hstart : entered start)
    (hstart' : entered' start) (huniv : ∀ v, entered v ∨ entered' v → v ∈ univ) {v : ν} :
    entered v ↔ entered' v := by
  have hfinite : (Set.image address univ ∪ Set.image address' univ).Finite :=
    (univ.finite_toSet.image address).union (univ.finite_toSet.image address')
  have hmem : ∀ v, entered v → address v ∈ Set.image address univ ∪ Set.image address' univ :=
    fun v hv => .inl ⟨v, huniv v (.inl hv), rfl⟩
  have hmem' : ∀ v, entered' v → address' v ∈ Set.image address univ ∪ Set.image address' univ :=
    fun v hv => .inr ⟨v, huniv v (.inr hv), rfl⟩
  have hsame : ∀ b ∈ Set.image address univ ∪ Set.image address' univ,
      (∀ v, entered v → address v = b → entered' v ∧ address' v = b) ∧
        (∀ v, entered' v → address' v = b → entered v ∧ address v = b) := by
    intro b hb
    apply (hfinite.wellFoundedOn (r := fun b c => b < c)).induction (P := fun b =>
      (∀ v, entered v → address v = b → entered' v ∧ address' v = b) ∧
        (∀ v, entered' v → address' v = b → entered v ∧ address v = b)) hb
    intro b _ ih
    have ihleft : ∀ v, entered v → address v < b → entered' v ∧ address' v = address v :=
      fun v hv hlt => (ih _ (hmem v hv) hlt).1 v hv rfl
    have ihright : ∀ v, entered' v → address' v < b → entered v ∧ address v = address' v :=
      fun v hv hlt => (ih _ (hmem' v hv) hlt).2 v hv rfl
    exact ⟨fun v hv hb => h.unique_step h' hstart' ihleft ihright hv hb,
      fun v hv hb => h'.unique_step h hstart ihright ihleft hv hb⟩
  exact ⟨fun hv => ((hsame _ (hmem v hv)).1 v hv rfl).1,
    fun hv => ((hsame _ (hmem' v hv)).2 v hv rfl).1⟩

variable [DecidableEq ν] [DecidablePred opened] {univ : Finset ν}

theorem explore_all_iff (h : explore next opened fuel 0 start [] = some seen)
    (huniv : ∀ n v, Walks next start n v → v ∈ univ) :
    (∀ n v, Walks next start n v → v ∈ seen) ↔
      ∃ address, Tree next opened start (fun v => ∃ n, Walks next start n v) address := by
  obtain ⟨address, htree⟩ := explore_tree h
  have hreach : ∀ v ∈ seen, ∃ n, Walks next start n v := fun v hv => ⟨_, (htree.walks hv).1⟩
  constructor
  · intro hall
    have heq : (· ∈ seen) = fun v => ∃ n, Walks next start n v := by
      funext v
      exact propext ⟨hreach v, fun ⟨n, hn⟩ => hall n v hn⟩
    exact ⟨address, heq ▸ htree⟩
  · rintro ⟨address', htree'⟩ n v hv
    have hstart : opened 0 := by
      have hshallow := htree'.shallow start ⟨0, .start⟩
      rwa [htree'.root ⟨0, .start⟩] at hshallow
    obtain ⟨_, _, hmem, _⟩ := explore_below (a := []) (fun _ => []) h
      fun w hw => absurd hw List.not_mem_nil
    refine (htree.unique univ htree' (hmem hstart).1 ⟨0, .start⟩ fun w hw => ?_).mpr ⟨n, hv⟩
    obtain hw | ⟨n, hw⟩ := hw
    · obtain ⟨n, hw⟩ := hreach w hw
      exact huniv n w hw
    · exact huniv n w hw

theorem explore_all (h : explore next opened fuel 0 start [] = some seen)
    (hopened : ∀ d, opened d) {n : Nat} {v : ν} (hv : Walks next start n v) : v ∈ seen := by
  obtain ⟨address, htree⟩ := explore_tree h
  induction hv with
  | start =>
    obtain ⟨_, _, hmem, _⟩ := explore_below (a := []) (fun _ => []) h
      fun w hw => absurd hw List.not_mem_nil
    exact (hmem (hopened 0)).1
  | @step n u v _ hv ih =>
    obtain ⟨k, hk⟩ := List.getElem?_of_mem hv
    exact (htree.first u v k ih hk (hopened _)).1

theorem explore_ball_iff (h : explore next opened fuel 0 start [] = some seen) :
    (∀ v, v ∈ seen ↔ ∃ d, IsDist next start v d ∧ Open opened d) ↔
      ∀ n v, Walks next start n v → v ∈ seen := by
  obtain ⟨address, htree⟩ := explore_tree h
  constructor
  · intro hball n v hv
    induction hv with
    | start => exact (hball start).mpr ⟨0, ⟨.start, fun _ _ => Nat.zero_le _⟩,
        fun m hm => absurd hm (Nat.not_lt_zero m)⟩
    | @step n u v _ hv ih =>
      obtain ⟨hwalk, hopen⟩ := htree.walks ih
      obtain ⟨d, hd, hdist⟩ := (hwalk.step hv).exists_isDist
      exact (hball v).mpr ⟨d, hdist, fun m hm => hopen m (Nat.le_of_lt_succ (hm.trans_le hd))⟩
  · intro hall v
    constructor
    · intro hv
      obtain ⟨hwalk, hopen⟩ := htree.walks hv
      obtain ⟨d, hd, hdist⟩ := hwalk.exists_isDist
      exact ⟨d, hdist, fun m hm => hopen m (hm.le.trans hd)⟩
    · rintro ⟨d, ⟨hwalk, _⟩, _⟩
      exact hall d v hwalk

end Trees

end DepthFirst
