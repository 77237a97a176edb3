import Mathlib.Data.List.Nodup
import SqliteMultimodal.Graph.Plans.Defs

namespace SqliteMultimodal.Graph.Plans

namespace PlanCache

variable {c c' : PlanCache} {zQuery : Text} {a : Nat} {entry : PlanCacheEntry}

def cached (c : PlanCache) : List Nat := c.buckets.flatten

/-- The entries in memory are those of the hash table, each in the chain of its query. -/
structure Chained (c : PlanCache) : Prop where
  sized : 0 < c.buckets.length
  nodup : c.cached.Nodup
  placed : ∀ b, ∀ a ∈ Chains.chain c.buckets b,
    ∃ entry, c.memory a = some entry ∧ c.bucketOf entry.zQueryHash = b
  complete : ∀ a entry, c.memory a = some entry →
    a ∈ Chains.chain c.buckets (c.bucketOf entry.zQueryHash)

theorem Chained.bucketOf_lt (h : c.Chained) (zQuery : Text) :
    c.bucketOf zQuery < c.buckets.length := Nat.mod_lt _ h.sized

theorem Chained.mem_cached (h : c.Chained) : a ∈ c.cached ↔ ∃ entry, c.memory a = some entry := by
  rw [cached, Chains.mem_flatten_iff]
  constructor
  · rintro ⟨b, ha⟩
    obtain ⟨entry, hentry, -⟩ := h.placed b a ha
    exact ⟨entry, hentry⟩
  · rintro ⟨entry, hentry⟩
    exact ⟨_, h.complete a entry hentry⟩

theorem init_empty {maxEntries : Int} {maxMemory : Nat}
    (h : graphInitPlanCache maxEntries maxMemory = some c) :
    c.Chained ∧ c.cached = [] ∧ c.nEntries = 0 ∧ c.currentMemory = 0 ∧ c.pLRUHead = none ∧
      c.pLRUTail = none ∧ 0 < c.maxEntries := by
  unfold graphInitPlanCache at h
  obtain ⟨-, h⟩ := Option.ite_none_right_eq_some.mp h
  have hpos : 0 < if maxEntries ≤ 0 then 100 else maxEntries := by
    split
    · decide
    · omega
  have hnil : ∀ n : Nat, (List.replicate n ([] : List Nat)).flatten = [] := fun n =>
    List.flatten_eq_nil_iff.mpr fun l hl => List.eq_of_mem_replicate hl
  generalize (if maxEntries ≤ 0 then 100 else maxEntries) = n at h hpos
  obtain rfl := Option.some.inj h
  refine ⟨⟨?_, ?_, ?_, ?_⟩, hnil _, rfl, rfl, rfl, rfl, hpos⟩
  · rw [List.length_replicate]
    omega
  · rw [cached, hnil]
    exact List.nodup_nil
  · intro b a ha
    rw [Chains.chain_replicate_nil] at ha
    exact absurd ha List.not_mem_nil
  · exact fun a entry ha => absurd ha (Option.some_ne_none entry).symm

section Find

theorem search_spec (memory : Heap PlanCacheEntry) (zQuery : Text) {chain : List Nat}
    (h : ∀ a ∈ chain, ∃ entry, memory a = some entry) :
    ∃ found, search memory zQuery chain = some found ∧
      (found = none → ∀ a ∈ chain, ∀ entry, memory a = some entry → entry.zQueryHash ≠ zQuery) ∧
      ∀ a, found = some a → ∃ entry, memory a = some entry ∧ entry.zQueryHash = zQuery := by
  induction chain with
  | nil => exact ⟨none, rfl, fun _ _ ha => absurd ha List.not_mem_nil,
      fun a ha => absurd ha (Option.some_ne_none a).symm⟩
  | cons a chain ih =>
    obtain ⟨entry, hentry⟩ := h a List.mem_cons_self
    rw [search, hentry, Option.bind_some]
    by_cases hquery : entry.zQueryHash = zQuery
    · refine ⟨some a, if_pos hquery, fun hnone => absurd hnone (Option.some_ne_none a), ?_⟩
      rintro b hb
      rw [← Option.some.inj hb]
      exact ⟨entry, hentry, hquery⟩
    · obtain ⟨found, hfound, hnone, hsome⟩ := ih fun b hb => h b (List.mem_cons_of_mem a hb)
      refine ⟨found, (if_neg hquery).trans hfound, fun heq b hb => ?_, hsome⟩
      obtain rfl | hb := List.mem_cons.mp hb
      · intro e he
        rwa [← Option.some.inj (hentry.symm.trans he)]
      · exact hnone heq b hb

theorem Chained.find_spec (h : c.Chained) (zQuery : Text) :
    ∃ found, c.find zQuery = some found ∧
      (found = none → ∀ a entry, c.memory a = some entry → entry.zQueryHash ≠ zQuery) ∧
      ∀ a, found = some a → ∃ entry, c.memory a = some entry ∧ entry.zQueryHash = zQuery := by
  obtain ⟨found, hfound, hnone, hsome⟩ := search_spec c.memory zQuery
    fun a ha => (h.placed (c.bucketOf zQuery) a ha).imp fun _ he => he.1
  refine ⟨found, hfound, fun heq a entry hentry hquery => ?_, hsome⟩
  exact hnone heq a (hquery ▸ h.complete a entry hentry) entry hentry hquery

end Find

section Change

structure SameTable (c c' : PlanCache) : Prop where
  buckets : c'.buckets = c.buckets
  queries : ∀ a, (c'.memory a).map PlanCacheEntry.zQueryHash =
    (c.memory a).map PlanCacheEntry.zQueryHash

theorem SameTable.refl (c : PlanCache) : SameTable c c := ⟨rfl, fun _ => rfl⟩

theorem SameTable.trans {c'' : PlanCache} (h : SameTable c c') (h' : SameTable c' c'') :
    SameTable c c'' :=
  ⟨h'.buckets.trans h.buckets, fun a => (h'.queries a).trans (h.queries a)⟩

theorem SameTable.of_store {entry' : PlanCacheEntry} (hentry : c.memory a = some entry)
    (hquery : entry'.zQueryHash = entry.zQueryHash) (hbuckets : c'.buckets = c.buckets)
    (hmemory : c'.memory = c.memory.store a entry') : SameTable c c' := by
  refine ⟨hbuckets, fun b => ?_⟩
  rw [hmemory]
  by_cases hb : b = a
  · rw [hb, Heap.store_self, hentry, Option.map_some, Option.map_some, hquery]
  · rw [Heap.store_ne hb]

theorem SameTable.live (h : SameTable c c') {b : Nat} {e : PlanCacheEntry}
    (he : c'.memory b = some e) : ∃ before, c.memory b = some before ∧
      before.zQueryHash = e.zQueryHash := by
  have hq := h.queries b
  rw [he] at hq
  obtain ⟨before, hbefore, hquery⟩ := Option.map_eq_some_iff.mp hq.symm
  exact ⟨before, hbefore, hquery⟩

theorem SameTable.symm (h : SameTable c c') : SameTable c' c :=
  ⟨h.buckets.symm, fun a => (h.queries a).symm⟩

theorem SameTable.bucketOf (h : SameTable c c') (zQuery : Text) :
    c'.bucketOf zQuery = c.bucketOf zQuery := by
  rw [PlanCache.bucketOf, h.buckets, PlanCache.bucketOf]

theorem Chained.congr (h : c.Chained) (hsame : SameTable c c') : c'.Chained := by
  refine ⟨hsame.buckets ▸ h.sized, by rw [cached, hsame.buckets]; exact h.nodup,
    fun b a ha => ?_, fun a entry hentry => ?_⟩
  · rw [hsame.buckets] at ha
    obtain ⟨entry, hentry, hplace⟩ := h.placed b a ha
    obtain ⟨entry', hentry', hquery⟩ := hsame.symm.live hentry
    exact ⟨entry', hentry', by rw [hsame.bucketOf, hquery, hplace]⟩
  · obtain ⟨before, hbefore, hquery⟩ := hsame.live hentry
    rw [hsame.buckets, hsame.bucketOf, ← hquery]
    exact h.complete a before hbefore

end Change

section Remove

/-- An entry leaves its chain and the memory. -/
structure Removed (c : PlanCache) (a : Nat) (entry : PlanCacheEntry) (c' : PlanCache) : Prop where
  live : c.memory a = some entry
  memory : c'.memory = c.memory.free a
  buckets : c'.buckets = c.buckets.modify (c.bucketOf entry.zQueryHash) (·.erase a)

theorem Removed.perm (h : Removed c a entry c') (hc : c.Chained) :
    (a :: c'.cached).Perm c.cached := by
  have hmem := hc.complete a entry h.live
  have hperm := Chains.flatten_modify_perm (f := (·.erase a)) (hc.bucketOf_lt entry.zQueryHash)
    [a] [] (List.perm_cons_erase hmem).symm
  rw [cached, h.buckets]
  exact hperm

theorem Removed.chained (h : Removed c a entry c') (hc : c.Chained) : c'.Chained := by
  have hlt := hc.bucketOf_lt entry.zQueryHash
  have hperm := h.perm hc
  have hnodup := hperm.nodup_iff.mpr hc.nodup
  have hlen : c'.buckets.length = c.buckets.length := by rw [h.buckets, List.length_modify]
  have hbucket : ∀ q, c'.bucketOf q = c.bucketOf q := fun q => by
    rw [bucketOf, hlen, bucketOf]
  have hgone : ∀ b, a ∉ Chains.chain c'.buckets b := fun b hb =>
    (List.nodup_cons.mp hnodup).1 (Chains.mem_flatten_iff.mpr ⟨b, hb⟩)
  have hchain : ∀ b x, x ≠ a → (x ∈ Chains.chain c'.buckets b ↔ x ∈ Chains.chain c.buckets b) := by
    intro b x hx
    rw [h.buckets, Chains.chain_modify hlt]
    split
    next heq => rw [List.mem_erase_of_ne hx, heq]
    next => rfl
  refine ⟨hlen ▸ hc.sized, (List.nodup_cons.mp hnodup).2, fun b x hx => ?_, fun x e hx => ?_⟩
  · have hne : x ≠ a := fun heq => hgone b (heq ▸ hx)
    obtain ⟨e, he, hplace⟩ := hc.placed b x ((hchain b x hne).mp hx)
    exact ⟨e, by rw [h.memory, Heap.free_ne hne, he], by rw [hbucket, hplace]⟩
  · have hne : x ≠ a := by
      rintro rfl
      rw [h.memory, Heap.free_self] at hx
      exact Option.some_ne_none e hx.symm
    rw [h.memory, Heap.free_ne hne] at hx
    rw [hbucket]
    exact (hchain _ x hne).mpr (hc.complete x e hx)

theorem evict_removed (htail : c.pLRUTail = some a) (hvictim : c.memory a = some entry) :
    ∃ c', c.planCacheEvictLRU = some c' ∧ Removed c a entry c' ∧
      c'.nEntries = c.nEntries - 1 ∧
      c'.currentMemory = (c.currentMemory + sizeMax - entry.memorySize) % sizeMax ∧
      c'.maxEntries = c.maxEntries ∧ c'.maxMemory = c.maxMemory ∧ c'.pLRUTail = entry.pLRU ∧
      c'.pLRUHead = if entry.pLRU = none then none else c.pLRUHead := by
  rw [planCacheEvictLRU, htail]
  simp only [hvictim, Option.map_some]
  exact ⟨_, rfl, ⟨hvictim, rfl, rfl⟩, rfl, rfl, rfl, rfl, rfl, rfl⟩

end Remove

section Add

structure Added (c : PlanCache) (a : Nat) (entry : PlanCacheEntry) (c' : PlanCache) : Prop where
  fresh : c.memory a = none
  memory : c'.memory = c.memory.store a entry
  buckets : c'.buckets = c.buckets.modify (c.bucketOf entry.zQueryHash) (a :: ·)

theorem Added.perm (h : Added c a entry c') (hc : c.Chained) : c'.cached.Perm (a :: c.cached) := by
  rw [cached, h.buckets]
  exact Chains.flatten_modify_perm (hc.bucketOf_lt entry.zQueryHash) [] [a] (List.Perm.refl _)

theorem Added.chained (h : Added c a entry c') (hc : c.Chained) : c'.Chained := by
  have hlt := hc.bucketOf_lt entry.zQueryHash
  have hnew : a ∉ c.cached := fun hmem => by
    obtain ⟨e, he⟩ := hc.mem_cached.mp hmem
    exact Option.some_ne_none e (he.symm.trans h.fresh)
  have hlen : c'.buckets.length = c.buckets.length := by rw [h.buckets, List.length_modify]
  have hbucket : ∀ q, c'.bucketOf q = c.bucketOf q := fun q => by
    rw [bucketOf, hlen, bucketOf]
  have hchain : ∀ b, Chains.chain c'.buckets b =
      if b = c.bucketOf entry.zQueryHash then a :: Chains.chain c.buckets b
      else Chains.chain c.buckets b := by
    intro b
    rw [h.buckets, Chains.chain_modify hlt]
    split
    next heq => rw [heq]
    next => rfl
  refine ⟨hlen ▸ hc.sized,
    (h.perm hc).nodup_iff.mpr (List.nodup_cons.mpr ⟨hnew, hc.nodup⟩), fun b x hx => ?_,
    fun x e hx => ?_⟩
  · have hcases : x = a ∧ b = c.bucketOf entry.zQueryHash ∨ x ∈ Chains.chain c.buckets b := by
      rw [hchain] at hx
      split at hx
      next heq => exact (List.mem_cons.mp hx).imp_left fun hxa => ⟨hxa, heq⟩
      next => exact Or.inr hx
    obtain ⟨rfl, rfl⟩ | hold := hcases
    · exact ⟨entry, by rw [h.memory, Heap.store_self], hbucket _⟩
    · have hne : x ≠ a := fun heq => hnew (Chains.mem_flatten_iff.mpr ⟨b, heq ▸ hold⟩)
      obtain ⟨e, he, hplace⟩ := hc.placed b x hold
      exact ⟨e, by rw [h.memory, Heap.store_ne hne, he], by rw [hbucket, hplace]⟩
  · rw [hbucket, hchain]
    by_cases hxa : x = a
    · rw [h.memory, hxa, Heap.store_self] at hx
      rw [← Option.some.inj hx, if_pos rfl, hxa]
      exact List.mem_cons_self
    · rw [h.memory, Heap.store_ne hxa] at hx
      have hold := hc.complete x e hx
      split
      · exact List.mem_cons_of_mem a hold
      · exact hold

end Add

section Invalidate

variable {pattern : Option Text} {as chain : List Nat}

def invalidAt (c : PlanCache) (pattern : Option Text) (a : Nat) : Bool :=
  ((c.memory a).map fun entry => isInvalid pattern entry.zQueryHash).getD false

def invalid (c : PlanCache) (pattern : Option Text) : List Nat :=
  c.cached.filter (c.invalidAt pattern)

def dropAt (c : PlanCache) (a : Nat) : PlanCache := ((c.memory a).map (c.drop a)).getD c

def dropAll (c : PlanCache) (as : List Nat) : PlanCache := as.foldl dropAt c

theorem dropAt_eq (h : c.memory a = some entry) : c.dropAt a = c.drop a entry := by
  rw [dropAt, h]
  rfl

theorem memory_dropAt (c : PlanCache) (a : Nat) : (c.dropAt a).memory = c.memory.free a := by
  unfold dropAt
  cases h : c.memory a with
  | none =>
    funext b
    by_cases hb : b = a
    · rw [hb, Heap.free_self]
      exact h
    · rw [Heap.free_ne hb]
      rfl
  | some entry => rfl

theorem memory_dropAll (c : PlanCache) (as : List Nat) (b : Nat) :
    (c.dropAll as).memory b = if b ∈ as then none else c.memory b := by
  induction as generalizing c with
  | nil => rfl
  | cons a as ih =>
    rw [dropAll, List.foldl_cons, ← dropAll, ih, memory_dropAt]
    by_cases hb : b = a
    · rw [hb, Heap.free_self, if_pos List.mem_cons_self, ite_self]
    · rw [Heap.free_ne hb]
      simp only [List.mem_cons, hb, false_or]

theorem invalidateChain_eq (hlive : ∀ a ∈ chain, ∃ entry, c.memory a = some entry)
    (hnodup : chain.Nodup) :
    invalidateChain pattern c chain = some (chain.filter fun a => !c.invalidAt pattern a,
      (chain.filter (c.invalidAt pattern)).length,
      c.dropAll (chain.filter (c.invalidAt pattern))) := by
  induction chain generalizing c with
  | nil => rfl
  | cons a chain ih =>
    obtain ⟨entry, hentry⟩ := hlive a List.mem_cons_self
    obtain ⟨hnew, hnodup⟩ := List.nodup_cons.mp hnodup
    have hrest : ∀ b ∈ chain, ∃ entry, c.memory b = some entry :=
      fun b hb => hlive b (List.mem_cons_of_mem a hb)
    have hat : c.invalidAt pattern a = isInvalid pattern entry.zQueryHash := by
      rw [invalidAt, hentry]
      rfl
    rw [invalidateChain, hentry, Option.bind_some]
    by_cases hinvalid : isInvalid pattern entry.zQueryHash = true
    · have hsame : ∀ b ∈ chain, (c.drop a entry).memory b = c.memory b := by
        intro b hb
        have hne : b ≠ a := fun heq => hnew (heq ▸ hb)
        exact Heap.free_ne hne c.memory
      have hfilter : ∀ b ∈ chain, (c.drop a entry).invalidAt pattern b = c.invalidAt pattern b :=
        fun b hb => by rw [invalidAt, hsame b hb, invalidAt]
      rw [if_pos hinvalid, ih (fun b hb => by rw [hsame b hb]; exact hrest b hb) hnodup,
        List.filter_congr hfilter,
        List.filter_congr fun b hb => congrArg Bool.not (hfilter b hb)]
      rw [hinvalid] at hat
      simp only [List.filter_cons, hat, Bool.not_true, Bool.false_eq_true, if_true, if_false,
        dropAll, List.foldl_cons, dropAt_eq hentry]
      rfl
    · rw [if_neg hinvalid, ih hrest hnodup]
      rw [Bool.eq_false_iff.mpr hinvalid] at hat
      simp only [List.filter_cons, hat, Bool.not_false, Bool.false_eq_true, if_true, if_false]
      rfl

theorem invalidateBuckets_eq {buckets : List (List Nat)}
    (hlive : ∀ a ∈ buckets.flatten, ∃ entry, c.memory a = some entry)
    (hnodup : buckets.flatten.Nodup) :
    invalidateBuckets pattern c buckets =
      some (buckets.map fun chain => chain.filter fun a => !c.invalidAt pattern a,
        (buckets.flatten.filter (c.invalidAt pattern)).length,
        c.dropAll (buckets.flatten.filter (c.invalidAt pattern))) := by
  induction buckets generalizing c with
  | nil => rfl
  | cons chain buckets ih =>
    rw [List.flatten_cons] at hlive hnodup
    obtain ⟨hchain, hbuckets, hdisj⟩ := List.nodup_append.mp hnodup
    rw [invalidateBuckets,
      invalidateChain_eq (fun a ha => hlive a (List.mem_append_left _ ha)) hchain,
      Option.bind_some]
    have hsame : ∀ b ∈ buckets.flatten,
        (c.dropAll (chain.filter (c.invalidAt pattern))).memory b = c.memory b := by
      intro b hb
      rw [memory_dropAll, if_neg]
      exact fun hmem => hdisj b (List.mem_of_mem_filter hmem) b hb rfl
    have hfilter : ∀ b ∈ buckets.flatten,
        (c.dropAll (chain.filter (c.invalidAt pattern))).invalidAt pattern b =
          c.invalidAt pattern b := fun b hb => by rw [invalidAt, hsame b hb, invalidAt]
    have hmap : (buckets.map fun chain' => chain'.filter fun a =>
        !(c.dropAll (chain.filter (c.invalidAt pattern))).invalidAt pattern a) =
          buckets.map fun chain => chain.filter fun a => !c.invalidAt pattern a :=
      List.map_congr_left fun chain' hchain' => List.filter_congr fun b hb =>
        congrArg Bool.not (hfilter b (List.mem_flatten.mpr ⟨chain', hchain', hb⟩))
    rw [ih (fun b hb => by rw [hsame b hb]; exact hlive b (List.mem_append_right _ hb)) hbuckets,
      List.filter_congr hfilter, hmap, List.flatten_cons, List.filter_append, List.length_append]
    simp only [dropAll, List.foldl_append]
    rfl

theorem Chained.invalidate_eq (h : c.Chained) (pattern : Option Text) :
    c.graphPlanCacheInvalidate pattern = some ((c.invalid pattern).length,
      { c.dropAll (c.invalid pattern) with
        buckets := c.buckets.map fun chain => chain.filter fun a => !c.invalidAt pattern a }) := by
  rw [graphPlanCacheInvalidate,
    invalidateBuckets_eq (fun a ha => h.mem_cached.mp ha) h.nodup]
  rfl

theorem Chained.invalidate (h : c.Chained) {n : Nat}
    (hcall : c.graphPlanCacheInvalidate pattern = some (n, c')) :
    c'.Chained ∧ c'.cached = c.cached.filter fun a => !c.invalidAt pattern a := by
  rw [h.invalidate_eq] at hcall
  obtain ⟨-, rfl⟩ := Prod.mk.inj (Option.some.inj hcall)
  have hcached : ((c.buckets.map fun chain => chain.filter fun a =>
      !c.invalidAt pattern a).flatten) = c.cached.filter fun a => !c.invalidAt pattern a :=
    List.filter_flatten.symm
  have hchain : ∀ b, Chains.chain (c.buckets.map fun chain => chain.filter fun a =>
      !c.invalidAt pattern a) b = (Chains.chain c.buckets b).filter fun a =>
        !c.invalidAt pattern a := by
    intro b
    simp only [Chains.chain, List.getD_eq_getElem?_getD, List.getElem?_map]
    cases c.buckets[b]? <;> rfl
  have hbucket : ∀ q, planCacheHash q % (c.buckets.map fun chain => chain.filter fun a =>
      !c.invalidAt pattern a).length = c.bucketOf q := fun q => by
    rw [List.length_map, bucketOf]
  have hmemory : ∀ x e, (c.dropAll (c.invalid pattern)).memory x = some e ↔
      c.memory x = some e ∧ c.invalidAt pattern x = false := by
    intro x e
    rw [memory_dropAll, Option.ite_none_left_eq_some, and_comm]
    refine and_congr_right fun he => ?_
    rw [invalid, List.mem_filter, not_and, Bool.not_eq_true]
    exact ⟨fun hvalid => hvalid (h.mem_cached.mpr ⟨e, he⟩), fun hvalid _ => hvalid⟩
  refine ⟨⟨?_, ?_, fun b x hx => ?_, fun x e hx => ?_⟩, hcached⟩
  · rw [List.length_map]
    exact h.sized
  · show (List.flatten _).Nodup
    rw [hcached]
    exact h.nodup.filter _
  · simp only [hchain] at hx
    obtain ⟨hx, hvalid⟩ := List.mem_filter.mp hx
    obtain ⟨e, he, hplace⟩ := h.placed b x hx
    exact ⟨e, (hmemory x e).mpr ⟨he, by simpa using hvalid⟩, (hbucket _).trans hplace⟩
  · obtain ⟨he, hvalid⟩ := (hmemory x e).mp hx
    simp only [bucketOf, hbucket, hchain]
    exact List.mem_filter.mpr ⟨h.complete x e he, by simpa using hvalid⟩

end Invalidate

end PlanCache

end SqliteMultimodal.Graph.Plans
