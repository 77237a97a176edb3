import SqliteMultimodal.Graph.Plans.Table
import SqliteMultimodal.Lib.Machine

namespace SqliteMultimodal.Graph.Plans

inductive Spec : List (Text × PhysicalPlanNode) → Call → Out → List (Text × PhysicalPlanNode) → Prop
  | hit {before after : List (Text × PhysicalPlanNode)} {q : Text} {p : PhysicalPlanNode} :
    Spec (before ++ (q, p) :: after) (.lookup q) (.plan (some p)) ((q, p) :: (before ++ after))
  | miss {plans : List (Text × PhysicalPlanNode)} {q : Text} :
    (∀ x ∈ plans, x.1 ≠ q) → Spec plans (.lookup q) (.plan none) plans
  | replace {before after : List (Text × PhysicalPlanNode)} {q : Text} {p p' : PhysicalPlanNode}
    {a : Nat} :
    Spec (before ++ (q, p) :: after) (.insert q p' a) (.code .ok) ((q, p') :: (before ++ after))
  | add {kept evicted : List (Text × PhysicalPlanNode)} {q : Text} {p : PhysicalPlanNode}
    {a : Nat} : (∀ x ∈ kept ++ evicted, x.1 ≠ q) →
    Spec (kept ++ evicted) (.insert q p a) (.code .ok) ((q, p) :: kept)
  | invalidate {plans : List (Text × PhysicalPlanNode)} {pattern : Option Text} :
    Spec plans (.invalidate pattern)
      (.count (plans.filter fun x => PlanCache.isInvalid pattern x.1).length)
      (plans.filter fun x => !PlanCache.isInvalid pattern x.1)

inductive SpecRun : List (Call × Out) → List (Text × PhysicalPlanNode) → Prop
  | start : SpecRun [] []
  | next {calls : List (Call × Out)} {plans plans' : List (Text × PhysicalPlanNode)} {call : Call}
    {out : Out} :
    SpecRun calls plans → Spec plans call out plans' → SpecRun (calls ++ [(call, out)]) plans'

namespace PlanCache

variable {c c' : PlanCache} {order : List Nat} {zQuery : Text} {a : Nat} {entry : PlanCacheEntry}

def contents (c : PlanCache) (as : List Nat) : List (Text × PhysicalPlanNode) :=
  as.filterMap fun a => (c.memory a).map fun entry => (entry.zQueryHash, entry.pPlan)

/-- The list from `pLRUHead` along `pLRU` is `order`, it ends at `pLRUTail`, and its entries are
those of the hash table, each of them once and each query once. -/
structure Lru (c : PlanCache) (order : List Nat) : Prop where
  chained : c.Chained
  links : Heap.Linked PlanCacheEntry.pLRU c.memory c.pLRUHead order
  tail : c.pLRUTail = order.getLast?
  cached : c.cached.Perm order
  distinct : ∀ a entry b other, c.memory a = some entry → c.memory b = some other →
    entry.zQueryHash = other.zQueryHash → a = b
  entries : c.nEntries = c.cached.length

def Gentle (c : PlanCache) : Call → Prop
  | .lookup zQuery => ∀ a, c.find zQuery = some (some a) → c.pLRUHead = some a
  | .insert zQuery pPlan _ =>
    (∀ a, c.find zQuery = some (some a) → c.pLRUHead = some a) ∧
    (c.find zQuery = some none → c.isFull (calculatePlanSize pPlan) = false ∨ c.nEntries ≤ 1)
  | .invalidate pattern =>
    ∃ rest, Heap.Linked PlanCacheEntry.pLRU c.memory c.pLRUHead (c.invalid pattern ++ rest)

section Contents

theorem contents_cons (h : c.memory a = some entry) (as : List Nat) :
    c.contents (a :: as) = (entry.zQueryHash, entry.pPlan) :: c.contents as := by
  rw [contents, List.filterMap_cons, h]
  rfl

theorem contents_congr {as : List Nat} (h : ∀ a ∈ as,
    (c'.memory a).map (fun entry => (entry.zQueryHash, entry.pPlan)) =
      (c.memory a).map fun entry => (entry.zQueryHash, entry.pPlan)) :
    c'.contents as = c.contents as := List.filterMap_congr h

theorem mem_contents {x : Text × PhysicalPlanNode} {as : List Nat} (h : x ∈ c.contents as) :
    ∃ a ∈ as, ∃ entry, c.memory a = some entry ∧ x = (entry.zQueryHash, entry.pPlan) := by
  obtain ⟨a, ha, hx⟩ := List.mem_filterMap.mp h
  obtain ⟨entry, hentry, hx⟩ := Option.map_eq_some_iff.mp hx
  exact ⟨a, ha, entry, hentry, hx.symm⟩

end Contents

section Use

theorem Lru.nodup (h : c.Lru order) : order.Nodup := h.cached.nodup_iff.mp h.chained.nodup

theorem Lru.front (h : c.Lru order) (hhead : c.pLRUHead = some a) : ∃ rest, order = a :: rest := by
  have hfirst := h.links.head
  rw [hhead] at hfirst
  cases order with
  | nil => exact absurd hfirst (Option.some_ne_none a)
  | cons b rest => exact ⟨rest, by rw [Option.some.inj hfirst]⟩

theorem Lru.store {rest : List Nat} (h : c.Lru (a :: rest)) (hentry : c.memory a = some entry)
    (entry' : PlanCacheEntry) (hquery : entry'.zQueryHash = entry.zQueryHash)
    (hlink : entry'.pLRU = entry.pLRU) (hits : Nat) :
    let c' := { c with memory := c.memory.store a entry', hits := hits }
    c'.Lru (a :: rest) ∧
      c'.contents (a :: rest) = (entry.zQueryHash, entry'.pPlan) :: c.contents rest := by
  have hsame : SameTable c { c with memory := c.memory.store a entry', hits := hits } :=
    .of_store hentry hquery rfl rfl
  refine ⟨⟨h.chained.congr hsame, h.links.congr fun b _ => ?_, h.tail, h.cached,
    fun b e b' e' hb hb' hq => ?_, h.entries⟩, ?_⟩
  · show (c.memory.store a entry' b).map _ = _
    by_cases hba : b = a
    · rw [hba, Heap.store_self, hentry, Option.map_some, Option.map_some, hlink]
    · rw [Heap.store_ne hba]
  · obtain ⟨f, hf, hfq⟩ := hsame.live hb
    obtain ⟨f', hf', hfq'⟩ := hsame.live hb'
    exact h.distinct b f b' f' hf hf' (by rw [hfq, hfq', hq])
  · rw [contents_cons (Heap.store_self c.memory a entry'), hquery]
    refine congrArg _ (contents_congr fun b hb => ?_)
    have hne : b ≠ a := fun heq => (List.nodup_cons.mp h.nodup).1 (heq ▸ hb)
    show (c.memory.store a entry' b).map _ = _
    rw [Heap.store_ne hne]

theorem contents_ne
    (hnone : ∀ a entry, c.memory a = some entry → entry.zQueryHash ≠ zQuery) :
    ∀ x ∈ c.contents order, x.1 ≠ zQuery := by
  intro x hx
  obtain ⟨a, -, entry, hentry, rfl⟩ := mem_contents hx
  exact hnone a entry hentry

theorem Lru.lookup (h : c.Lru order) (hgentle : c.Gentle (.lookup zQuery)) :
    ∃ plan c', c.graphPlanCacheLookup zQuery = some (plan, c') ∧ c'.Lru order ∧
      Spec (c.contents order) (.lookup zQuery) (.plan plan) (c'.contents order) := by
  obtain ⟨found, hfind, hnone, hsome⟩ := h.chained.find_spec zQuery
  cases found with
  | none =>
    refine ⟨none, { c with misses := c.misses + 1 }, by rw [graphPlanCacheLookup, hfind]; rfl,
      ⟨h.chained.congr ⟨rfl, fun _ => rfl⟩, h.links, h.tail, h.cached, h.distinct, h.entries⟩, ?_⟩
    exact .miss (contents_ne (hnone rfl))
  | some a =>
    obtain ⟨entry, hentry, hquery⟩ := hsome a rfl
    have hhead := hgentle a hfind
    obtain ⟨rest, rfl⟩ := h.front hhead
    obtain ⟨hlru, hcontents⟩ := h.store hentry { entry with useCount := entry.useCount + 1 } rfl rfl
      (c.hits + 1)
    refine ⟨some entry.pPlan, _, ?_, hlru, ?_⟩
    · rw [graphPlanCacheLookup, hfind]
      simp only [Option.bind_some, hentry, planCacheTouchLRU, if_pos hhead, Option.map_some]
    · rw [hcontents, contents_cons hentry, hquery]
      show Spec ([] ++ _ :: _) _ _ (_ :: ([] ++ _))
      exact .hit

end Use

section Insert

variable {pPlan : PhysicalPlanNode} {memorySize : Nat}

theorem Lru.evict_single (h : c.Lru [a]) :
    ∃ c', c.planCacheEvictLRU = some c' ∧ c'.Lru [] ∧ c'.nEntries = 0 ∧
      ∀ b e, c'.memory b = some e → c.memory b = some e := by
  obtain ⟨-, victim, hvictim, hlink⟩ := h.links
  have hlink : victim.pLRU = none := hlink
  obtain ⟨c', hevict, hremoved, hn, -, -, -, htail, hhead⟩ :=
    evict_removed (show c.pLRUTail = some a from h.tail) hvictim
  have hcached : c'.cached = [] := by
    have hperm := (hremoved.perm h.chained).trans h.cached
    exact List.perm_nil.mp ((List.perm_cons a).mp hperm)
  have hlen := h.cached.length_eq
  have hn' : c'.nEntries = 0 := by
    rw [hn, h.entries, hlen]
    rfl
  have hback : ∀ b e, c'.memory b = some e → c.memory b = some e := by
    intro b e hb
    by_cases hba : b = a
    · rw [hremoved.memory, hba, Heap.free_self] at hb
      exact absurd hb (Option.some_ne_none e).symm
    · rwa [hremoved.memory, Heap.free_ne hba] at hb
  refine ⟨c', hevict, ⟨hremoved.chained h.chained, ?_, htail.trans hlink, ?_,
    fun b e b' e' hb hb' hq => h.distinct b e b' e' (hback b e hb) (hback b' e' hb') hq, ?_⟩, hn',
    hback⟩
  · rw [hhead, if_pos hlink]
    rfl
  · rw [hcached]
  · rw [hn', hcached]
    rfl

theorem Lru.makeRoom (h : c.Lru order)
    (hroom : c.isFull memorySize = false ∨ c.nEntries ≤ 1) (turns : Nat) :
    ∃ c' kept evicted, PlanCache.makeRoom memorySize (turns + 1) c = some c' ∧ c'.Lru kept ∧
      c.contents order = c'.contents kept ++ evicted ∧
      ∀ b e, c'.memory b = some e → c.memory b = some e := by
  by_cases hfull : c.isFull memorySize
  · have hone := hroom.resolve_left (by rw [hfull]; exact Bool.noConfusion)
    rw [h.entries, h.cached.length_eq] at hone
    rw [PlanCache.makeRoom, if_pos hfull]
    cases order with
    | nil =>
      have htail : c.pLRUTail = none := h.tail
      have hz : c.nEntries = 0 := by
        rw [h.entries, h.cached.length_eq]
        rfl
      refine ⟨c, [], [], ?_, h, rfl, fun _ _ hb => hb⟩
      rw [planCacheEvictLRU, htail, Option.bind_some, if_pos hz]
    | cons a rest =>
      have hrest : rest = [] := List.eq_nil_of_length_eq_zero (by
        rw [List.length_cons] at hone
        omega)
      subst hrest
      obtain ⟨c', hevict, hlru, hz, hback⟩ := h.evict_single
      refine ⟨c', [], c.contents [a], ?_, hlru, rfl, hback⟩
      rw [hevict, Option.bind_some, if_pos hz]
  · exact ⟨c, order, [], by rw [PlanCache.makeRoom, if_neg hfull], h, (List.append_nil _).symm,
      fun _ _ hb => hb⟩

theorem Lru.add (h : c.Lru order) (entry : PlanCacheEntry) (hfresh : c.memory a = none)
    (hquery : entry.zQueryHash = zQuery)
    (hnone : ∀ b e, c.memory b = some e → e.zQueryHash ≠ zQuery) :
    (c.add zQuery a entry).Lru (a :: order) ∧
      (c.add zQuery a entry).contents (a :: order) = (zQuery, entry.pPlan) :: c.contents order := by
  have hadded : Added c a { entry with pLRU := c.pLRUHead } (c.add zQuery a entry) :=
    ⟨hfresh, rfl, by subst hquery; rfl⟩
  have hperm := hadded.perm h.chained
  have hnew : a ∉ order := fun ha => by
    obtain ⟨e, he⟩ := h.links.live ha
    exact Option.some_ne_none e (he.symm.trans hfresh)
  have hsame : ∀ b ∈ order, (c.add zQuery a entry).memory b = c.memory b := by
    intro b hb
    have hne : b ≠ a := fun heq => hnew (heq ▸ hb)
    rw [hadded.memory, Heap.store_ne hne]
  have hself : (c.add zQuery a entry).memory a = some { entry with pLRU := c.pLRUHead } := by
    rw [hadded.memory, Heap.store_self]
  refine ⟨⟨hadded.chained h.chained, ⟨rfl, _, hself, h.links.congr fun b hb => by rw [hsame b hb]⟩,
    ?_, hperm.trans (h.cached.cons a), ?_, ?_⟩, ?_⟩
  · show (if c.pLRUTail = none then some a else c.pLRUTail) = _
    rw [h.tail, List.getLast?_cons]
    cases hlast : order.getLast? with
    | none => rfl
    | some b => rfl
  · have hcase : ∀ b e, (c.add zQuery a entry).memory b = some e →
        b = a ∧ e.zQueryHash = zQuery ∨ c.memory b = some e := by
      intro b e hb
      by_cases hba : b = a
      · rw [hba, hself] at hb
        exact Or.inl ⟨hba, by rw [← Option.some.inj hb, hquery]⟩
      · rw [hadded.memory, Heap.store_ne hba] at hb
        exact Or.inr hb
    intro b e b' e' hb hb' hq
    obtain ⟨rfl, hqe⟩ | hb := hcase b e hb
    · obtain ⟨rfl, -⟩ | hb' := hcase b' e' hb'
      · rfl
      · exact absurd (hq.symm.trans hqe) (hnone b' e' hb')
    · obtain ⟨-, hqe'⟩ | hb' := hcase b' e' hb'
      · exact absurd (hq.trans hqe') (hnone b e hb)
      · exact h.distinct b e b' e' hb hb' hq
  · show c.nEntries + 1 = _
    rw [hperm.length_eq, List.length_cons, h.entries]
    rfl
  · rw [contents_cons hself, hquery]
    exact congrArg _ (contents_congr fun b hb => by rw [hsame b hb])

theorem Lru.insert (h : c.Lru order) (hgentle : c.Gentle (.insert zQuery pPlan a))
    {rc : ResultCode} (hcall : c.graphPlanCacheInsert zQuery pPlan a = some (rc, c')) :
    ∃ order', c'.Lru order' ∧
      Spec (c.contents order) (.insert zQuery pPlan a) (.code rc) (c'.contents order') := by
  obtain ⟨found, hfind, hnone, hsome⟩ := h.chained.find_spec zQuery
  rw [graphPlanCacheInsert, hfind, Option.bind_some] at hcall
  cases found with
  | none =>
    obtain ⟨hfresh, hcall⟩ := Option.ite_none_right_eq_some.mp hcall
    obtain ⟨c₁, kept, evicted, hroom, hlru, hcontents, hback⟩ :=
      h.makeRoom (hgentle.2 hfind) c.nEntries.toNat
    simp only [hroom, Option.map_some] at hcall
    obtain ⟨rfl, rfl⟩ := Prod.mk.inj (Option.some.inj hcall)
    have hfresh₁ : c₁.memory a = none := by
      cases hb : c₁.memory a with
      | none => rfl
      | some e =>
        rw [hback a e hb] at hfresh
        exact absurd hfresh Bool.false_ne_true
    obtain ⟨hadd, hcontents'⟩ := hlru.add
      ⟨zQuery, pPlan, 1, calculatePlanSize pPlan, none⟩ hfresh₁ rfl
      fun b e hb => hnone rfl b e (hback b e hb)
    refine ⟨a :: kept, hadd, ?_⟩
    rw [hcontents', hcontents]
    exact .add (hcontents ▸ contents_ne (hnone rfl))
  | some existing =>
    obtain ⟨entry, hentry, hquery⟩ := hsome existing rfl
    have hhead := hgentle.1 existing hfind
    obtain ⟨rest, rfl⟩ := h.front hhead
    simp only [Option.bind_some, hentry, planCacheTouchLRU, if_pos hhead, Option.map_some] at hcall
    obtain ⟨rfl, rfl⟩ := Prod.mk.inj (Option.some.inj hcall)
    obtain ⟨hlru, hcontents⟩ := h.store hentry
      { entry with pPlan := pPlan, memorySize := calculatePlanSize pPlan } rfl rfl c.hits
    refine ⟨_, hlru, ?_⟩
    rw [hcontents, contents_cons hentry, hquery]
    show Spec ([] ++ _ :: _) _ _ (_ :: ([] ++ _))
    exact .replace

end Insert

section Invalidate

variable {pattern : Option Text}

theorem dropAll_links {as rest : List Nat} (hnodup : (as ++ rest).Nodup)
    (hlinks : Heap.Linked PlanCacheEntry.pLRU c.memory c.pLRUHead (as ++ rest))
    (htail : c.pLRUTail = (as ++ rest).getLast?) :
    Heap.Linked PlanCacheEntry.pLRU (c.dropAll as).memory (c.dropAll as).pLRUHead rest ∧
      (c.dropAll as).pLRUTail = rest.getLast? ∧
      (c.dropAll as).nEntries = c.nEntries - as.length := by
  induction as generalizing c with
  | nil => exact ⟨hlinks, htail, (Int.sub_zero _).symm⟩
  | cons a as ih =>
    obtain ⟨hhead, entry, hentry, hlinks⟩ := hlinks
    obtain ⟨hnew, hnodup⟩ := List.nodup_cons.mp hnodup
    have hall : c.dropAll (a :: as) = (c.drop a entry).dropAll as := by
      rw [dropAll, List.foldl_cons, dropAt_eq hentry, dropAll]
    have hlinks' : Heap.Linked PlanCacheEntry.pLRU (c.drop a entry).memory
        (c.drop a entry).pLRUHead (as ++ rest) := by
      have hnext : (c.drop a entry).pLRUHead = entry.pLRU := if_pos hhead
      rw [hnext]
      refine hlinks.congr fun b hb => ?_
      have hne : b ≠ a := fun heq => hnew (heq ▸ hb)
      show (c.memory.free a b).map _ = _
      rw [Heap.free_ne hne]
    have htail' : (c.drop a entry).pLRUTail = (as ++ rest).getLast? := by
      show (if c.pLRUTail = some a then none else c.pLRUTail) = _
      rw [htail, List.cons_append, List.getLast?_cons]
      cases hlast : (as ++ rest).getLast? with
      | none => exact if_pos rfl
      | some b =>
        refine if_neg fun heq => hnew ?_
        rw [← Option.some.inj heq]
        exact List.mem_of_getLast? hlast
    obtain ⟨hl, ht, hn⟩ := ih hnodup hlinks' htail'
    rw [hall]
    refine ⟨hl, ht, hn.trans ?_⟩
    show c.nEntries - 1 - _ = _
    rw [List.length_cons]
    omega

theorem contents_filter (pattern : Option Text) {as : List Nat}
    (hlive : ∀ a ∈ as, ∃ entry, c.memory a = some entry) :
    (c.contents as).filter (fun x => isInvalid pattern x.1) =
        c.contents (as.filter (c.invalidAt pattern)) ∧
      (c.contents as).filter (fun x => !isInvalid pattern x.1) =
        c.contents (as.filter fun a => !c.invalidAt pattern a) := by
  induction as with
  | nil => exact ⟨rfl, rfl⟩
  | cons a as ih =>
    obtain ⟨entry, hentry⟩ := hlive a List.mem_cons_self
    obtain ⟨hin, hout⟩ := ih fun b hb => hlive b (List.mem_cons_of_mem a hb)
    have hat : c.invalidAt pattern a = isInvalid pattern entry.zQueryHash := by
      rw [invalidAt, hentry]
      rfl
    rw [contents_cons hentry]
    cases hinvalid : isInvalid pattern entry.zQueryHash <;>
      simp only [List.filter_cons, hat, hinvalid, hin, hout, Bool.not_true, Bool.not_false,
        Bool.false_eq_true, if_true, if_false, contents_cons hentry, and_self]

theorem length_contents {as : List Nat} (hlive : ∀ a ∈ as, ∃ entry, c.memory a = some entry) :
    (c.contents as).length = as.length := by
  induction as with
  | nil => rfl
  | cons a as ih =>
    obtain ⟨entry, hentry⟩ := hlive a List.mem_cons_self
    rw [contents_cons hentry, List.length_cons, List.length_cons,
      ih fun b hb => hlive b (List.mem_cons_of_mem a hb)]

theorem Lru.invalidate (h : c.Lru order) (hgentle : c.Gentle (.invalidate pattern)) {n : Nat}
    (hcall : c.graphPlanCacheInvalidate pattern = some (n, c')) :
    ∃ order', c'.Lru order' ∧
      Spec (c.contents order) (.invalidate pattern) (.count n) (c'.contents order') := by
  obtain ⟨rest, hlinks⟩ := hgentle
  obtain rfl := h.links.unique hlinks
  obtain ⟨hchained, hcached⟩ := h.chained.invalidate hcall
  rw [h.chained.invalidate_eq] at hcall
  obtain ⟨hn, hc'⟩ := Prod.mk.inj (Option.some.inj hcall)
  have hperm : c'.cached.Perm rest := by
    rw [hcached]
    exact (List.perm_append_left_iff (c.invalid pattern)).mp
      ((List.filter_append_perm _ _).trans h.cached)
  have hin : ∀ a ∈ c.invalid pattern, c.invalidAt pattern a = true := fun a ha =>
    (List.mem_filter.mp ha).2
  have hout : ∀ a ∈ rest, c.invalidAt pattern a = false := by
    intro a ha
    have hmem := hperm.mem_iff.mpr ha
    rw [hcached] at hmem
    simpa using (List.mem_filter.mp hmem).2
  obtain ⟨hl, ht, hcount⟩ := dropAll_links h.nodup hlinks h.tail
  have hlive : ∀ a ∈ c.invalid pattern ++ rest, ∃ entry, c.memory a = some entry :=
    fun a ha => h.links.live ha
  obtain ⟨hcin, hcout⟩ := contents_filter pattern hlive
  have hfilter : (c.invalid pattern ++ rest).filter (c.invalidAt pattern) = c.invalid pattern := by
    rw [List.filter_append, List.filter_eq_self.mpr hin,
      List.filter_eq_nil_iff.mpr fun a ha => by rw [hout a ha]; exact Bool.false_ne_true,
      List.append_nil]
  have hfilter' : ((c.invalid pattern ++ rest).filter fun a => !c.invalidAt pattern a) = rest := by
    rw [List.filter_append, List.filter_eq_nil_iff.mpr fun a ha => by simp [hin a ha],
      List.filter_eq_self.mpr fun a ha => by simp [hout a ha], List.nil_append]
  have hmemory : ∀ a, c'.memory a = if a ∈ c.invalid pattern then none else c.memory a := by
    intro a
    rw [← hc']
    exact memory_dropAll c _ a
  have hback : ∀ a e, c'.memory a = some e → c.memory a = some e := fun a e ha =>
    (Option.ite_none_left_eq_some.mp ((hmemory a).symm.trans ha)).2
  have hcontents : c'.contents rest = c.contents rest := by
    refine contents_congr fun a ha => ?_
    have hvalid : a ∉ c.invalid pattern := fun hmem =>
      Bool.false_ne_true ((hout a ha).symm.trans (hin a hmem))
    rw [hmemory, if_neg hvalid]
  refine ⟨rest, ⟨hchained, hc' ▸ hl, hc' ▸ ht, hperm,
    fun b e b' e' hb hb' hq => h.distinct b e b' e' (hback b e hb) (hback b' e' hb') hq, ?_⟩, ?_⟩
  · have hlen := h.cached.length_eq
    have hlen' := hperm.length_eq
    have hentries := h.entries
    have hn' : c'.nEntries = c.nEntries - (c.invalid pattern).length := by
      rw [← hc']
      exact hcount
    rw [List.length_append] at hlen
    omega
  · have hspec : Spec (c.contents (c.invalid pattern ++ rest)) (.invalidate pattern) _ _ :=
      .invalidate
    rwa [hcin, hcout, hfilter, hfilter',
      length_contents fun a ha => hlive a (List.mem_append_left _ ha), hn, ← hcontents] at hspec

end Invalidate

section Run

def traced (s : PlanCache × List (Call × Out)) (call : Call) :
    Option (PlanCache × List (Call × Out)) :=
  (s.1.call call).map fun r => (r.2, s.2 ++ [(call, r.1)])

theorem init_lru {maxEntries : Int} {maxMemory : Nat}
    (h : graphInitPlanCache maxEntries maxMemory = some c) : c.Lru [] := by
  obtain ⟨hchained, hcached, hn, -, hhead, htail, -⟩ := init_empty h
  refine ⟨hchained, hhead, htail, by rw [hcached], fun a entry b other ha => ?_,
    by rw [hn, hcached]; rfl⟩
  have hmem := hchained.mem_cached.mpr ⟨entry, ha⟩
  rw [hcached] at hmem
  exact absurd hmem List.not_mem_nil

theorem Lru.call (h : c.Lru order) {call : Call} (hgentle : c.Gentle call) {out : Out}
    (hcall : c.call call = some (out, c')) :
    ∃ order', c'.Lru order' ∧ Spec (c.contents order) call out (c'.contents order') := by
  cases call with
  | lookup zQuery =>
    obtain ⟨⟨plan, c₁⟩, hlookup, hout⟩ := Option.map_eq_some_iff.mp hcall
    obtain ⟨rfl, rfl⟩ := Prod.mk.inj hout
    obtain ⟨plan', c'', hlookup', hlru, hspec⟩ := h.lookup hgentle
    obtain ⟨rfl, rfl⟩ := Prod.mk.inj (Option.some.inj (hlookup.symm.trans hlookup'))
    exact ⟨order, hlru, hspec⟩
  | insert zQuery pPlan a =>
    obtain ⟨⟨rc, c₁⟩, hinsert, hout⟩ := Option.map_eq_some_iff.mp hcall
    obtain ⟨rfl, rfl⟩ := Prod.mk.inj hout
    exact h.insert hgentle hinsert
  | invalidate pattern =>
    obtain ⟨⟨n, c₁⟩, hinvalidate, hout⟩ := Option.map_eq_some_iff.mp hcall
    obtain ⟨rfl, rfl⟩ := Prod.mk.inj hout
    exact h.invalidate hgentle hinvalidate

/-- As long as the calls are gentle, the cache is the map that they mean. -/
theorem cache_is_lru_map {maxEntries : Int} {maxMemory : Nat} {c₀ : PlanCache}
    (hinit : graphInitPlanCache maxEntries maxMemory = some c₀) {s : PlanCache × List (Call × Out)}
    (h : Machine.Reached traced (fun s call => s.1.Gentle call) (c₀, []) s) :
    ∃ order, s.1.Lru order ∧ SpecRun s.2 (s.1.contents order) := by
  refine h.invariant (P := fun s => ∃ order, s.1.Lru order ∧ SpecRun s.2 (s.1.contents order))
    ⟨[], init_lru hinit, .start⟩ fun s call s' ⟨order, hlru, hspec⟩ hgentle hstep => ?_
  obtain ⟨⟨out, c'⟩, hcall, rfl⟩ := Option.map_eq_some_iff.mp hstep
  obtain ⟨order', hlru', hnext⟩ := hlru.call hgentle hcall
  exact ⟨order', hlru', hspec.next hnext⟩

def scanPlan : PhysicalPlanNode := .node .allNodesScan none none []

theorem cache_is_lru_map_two_queries :
    ∃ c₀ s, graphInitPlanCache 2 0 = some c₀ ∧
      Machine.run traced (c₀, []) [.insert ['a'] scanPlan 0, .insert ['b'] scanPlan 1,
        .lookup ['b']] = some s ∧
      ∃ order, s.1.Lru order ∧ SpecRun s.2 (s.1.contents order) := by
  refine ⟨_, _, rfl, rfl, cache_is_lru_map (show graphInitPlanCache 2 0 = some _ from rfl) ?_⟩
  refine .next (a := .lookup ['b']) (.next (a := .insert ['b'] scanPlan 1)
    (.next (a := .insert ['a'] scanPlan 0) .start ⟨?_, ?_⟩ rfl) ⟨?_, ?_⟩ rfl) ?_ rfl
  · exact fun a ha => absurd (Option.some.inj ha) (Option.some_ne_none a).symm
  · exact fun _ => Or.inr (by decide)
  · exact fun a ha => absurd (Option.some.inj ha) (Option.some_ne_none a).symm
  · exact fun _ => Or.inr (by decide)
  · exact fun a ha => Option.some.inj ha

theorem evicted_list_lost :
    ∃ c₀ s, graphInitPlanCache 2 0 = some c₀ ∧
      Machine.Reached traced (fun _ _ => True) (c₀, []) s ∧
      s.1.cached = [2, 1] ∧ s.1.pLRUHead = some 2 ∧ s.1.pLRUTail = some 2 ∧
      ¬∃ order, s.1.Lru order := by
  refine ⟨_, _, rfl, Machine.Reached.run .start [.insert ['a'] scanPlan 0,
    .insert ['b'] scanPlan 1, .insert ['c'] scanPlan 2] rfl fun _ _ => trivial, rfl, rfl, rfl, ?_⟩
  rintro ⟨order, h⟩
  obtain rfl : order = [2] := h.links.unique ⟨rfl, _, rfl, rfl⟩
  exact absurd h.cached.length_eq (by decide)

end Run

end PlanCache

end SqliteMultimodal.Graph.Plans
