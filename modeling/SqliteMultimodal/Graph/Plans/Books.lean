import Mathlib.Data.List.Perm.Subperm
import SqliteMultimodal.Graph.Plans.Table
import SqliteMultimodal.Lib.Machine

namespace SqliteMultimodal.Graph.Plans

namespace PlanCache

variable {c c' : PlanCache} {zQuery : Text} {a : Nat} {entry : PlanCacheEntry}

def sizeAt (c : PlanCache) (a : Nat) : Nat := ((c.memory a).map PlanCacheEntry.memorySize).getD 0

def sizeOf (c : PlanCache) : List Nat → Nat
  | [] => 0
  | a :: as => c.sizeAt a + c.sizeOf as

structure Ledger (c : PlanCache) : Prop where
  chained : c.Chained
  entries : c.nEntries = c.cached.length
  memory : c.currentMemory = c.sizeOf c.cached
  bounded : c.currentMemory < sizeMax

structure Books (c : PlanCache) : Prop where
  ledger : c.Ledger
  few : c.nEntries ≤ c.maxEntries
  small : c.currentMemory ≤ c.maxMemory ∨
    ∃ a entry, c.cached = [a] ∧ c.memory a = some entry ∧ c.maxMemory < entry.memorySize

theorem sizeAt_eq (h : c.memory a = some entry) : c.sizeAt a = entry.memorySize := by
  rw [sizeAt, h]
  rfl

theorem sizeOf_cons (c : PlanCache) (a : Nat) (as : List Nat) :
    c.sizeOf (a :: as) = c.sizeAt a + c.sizeOf as := rfl

theorem sizeOf_append (c : PlanCache) (as bs : List Nat) :
    c.sizeOf (as ++ bs) = c.sizeOf as + c.sizeOf bs := by
  induction as with
  | nil => exact (Nat.zero_add _).symm
  | cons a as ih => rw [List.cons_append, sizeOf_cons, ih, sizeOf_cons, Nat.add_assoc]

theorem sizeOf_perm {as bs : List Nat} (h : as.Perm bs) : c.sizeOf as = c.sizeOf bs := by
  induction h with
  | nil => rfl
  | cons a _ ih => rw [sizeOf_cons, sizeOf_cons, ih]
  | swap a b as => simp only [sizeOf_cons, Nat.add_left_comm]
  | trans _ _ ih ih' => exact ih.trans ih'

theorem sizeOf_congr {as : List Nat} (h : ∀ a ∈ as, c'.sizeAt a = c.sizeAt a) :
    c'.sizeOf as = c.sizeOf as := by
  induction as with
  | nil => rfl
  | cons a as ih =>
    rw [sizeOf_cons, sizeOf_cons, h a List.mem_cons_self,
      ih fun b hb => h b (List.mem_cons_of_mem a hb)]

theorem sizeAt_congr (h : c'.memory a = c.memory a) : c'.sizeAt a = c.sizeAt a := by
  rw [sizeAt, h, sizeAt]

section Relink

structure Relinked (c c' : PlanCache) : Prop where
  same : SameTable c c'
  sizes : ∀ a, c'.sizeAt a = c.sizeAt a
  nEntries : c'.nEntries = c.nEntries
  currentMemory : c'.currentMemory = c.currentMemory
  maxEntries : c'.maxEntries = c.maxEntries
  maxMemory : c'.maxMemory = c.maxMemory

theorem Relinked.refl (c : PlanCache) : Relinked c c := ⟨.refl c, fun _ => rfl, rfl, rfl, rfl, rfl⟩

theorem Relinked.trans {c'' : PlanCache} (h : Relinked c c') (h' : Relinked c' c'') :
    Relinked c c'' :=
  ⟨h.same.trans h'.same, fun a => (h'.sizes a).trans (h.sizes a), h'.nEntries.trans h.nEntries,
    h'.currentMemory.trans h.currentMemory, h'.maxEntries.trans h.maxEntries,
    h'.maxMemory.trans h.maxMemory⟩

theorem Relinked.cached (h : Relinked c c') : c'.cached = c.cached := by
  rw [PlanCache.cached, h.same.buckets, PlanCache.cached]

theorem Relinked.sizeOf (h : Relinked c c') (as : List Nat) : c'.sizeOf as = c.sizeOf as :=
  sizeOf_congr fun a _ => h.sizes a

theorem Ledger.relinked (hc : c.Ledger) (h : Relinked c c') : c'.Ledger :=
  ⟨hc.chained.congr h.same, by rw [h.nEntries, h.cached, hc.entries],
    by rw [h.currentMemory, h.cached, h.sizeOf, hc.memory], h.currentMemory ▸ hc.bounded⟩

theorem Books.relinked (hc : c.Books) (h : Relinked c c') : c'.Books := by
  refine ⟨hc.ledger.relinked h, by rw [h.nEntries, h.maxEntries]; exact hc.few, ?_⟩
  rw [h.currentMemory, h.maxMemory, h.cached]
  refine hc.small.imp_right fun ⟨a, entry, hcached, hentry, hlarge⟩ => ?_
  obtain ⟨entry', hentry', -⟩ := h.same.symm.live hentry
  have hsize := h.sizes a
  rw [sizeAt_eq hentry, sizeAt_eq hentry'] at hsize
  exact ⟨a, entry', hcached, hentry', hsize ▸ hlarge⟩

theorem Relinked.of_store (entry' : PlanCacheEntry) (hentry : c.memory a = some entry)
    (hquery : entry'.zQueryHash = entry.zQueryHash) (hsize : entry'.memorySize = entry.memorySize)
    (hmemory : c'.memory = c.memory.store a entry') (hbuckets : c'.buckets = c.buckets)
    (hn : c'.nEntries = c.nEntries) (hm : c'.currentMemory = c.currentMemory)
    (hmaxn : c'.maxEntries = c.maxEntries) (hmaxm : c'.maxMemory = c.maxMemory) :
    Relinked c c' := by
  refine ⟨.of_store hentry hquery hbuckets hmemory, fun b => ?_, hn, hm, hmaxn, hmaxm⟩
  rw [sizeAt, hmemory]
  by_cases hb : b = a
  · rw [hb, Heap.store_self, sizeAt_eq hentry, Option.map_some, hsize]
    rfl
  · rw [Heap.store_ne hb, sizeAt]

/-- The entry is at the front, or the link behind it is not one to freed memory. -/
def TouchSafe (c : PlanCache) (a : Nat) : Prop :=
  c.pLRUHead = some a ∨ ∀ entry b, c.memory a = some entry → entry.pLRU = some b →
    (c.memory b).isSome

theorem pushFront_relinked (hentry : c.memory a = some entry) :
    Relinked c (c.pushFront a entry) :=
  .of_store { entry with pLRU := c.pLRUHead } hentry rfl rfl rfl rfl rfl rfl rfl rfl

theorem touch_spec (hentry : c.memory a = some entry) (hsafe : c.TouchSafe a) :
    ∃ c', c.planCacheTouchLRU a = some c' ∧ Relinked c c' := by
  unfold planCacheTouchLRU
  by_cases hhead : c.pLRUHead = some a
  · exact ⟨c, if_pos hhead, .refl c⟩
  · rw [if_neg hhead, hentry, Option.bind_some]
    obtain ⟨c₁, hc₁, hlink⟩ : ∃ c₁, c.unlink entry = some c₁ ∧ Relinked c c₁ := by
      unfold unlink
      cases hb : entry.pLRU with
      | none => exact ⟨c, rfl, .refl c⟩
      | some b =>
        obtain ⟨next, hnext⟩ := Option.isSome_iff_exists.mp
          ((hsafe.resolve_left hhead) entry b hentry hb)
        simp only [hnext, Option.map_some]
        exact ⟨_, rfl, .of_store { next with pLRU := some b } hnext rfl rfl rfl rfl rfl rfl rfl rfl⟩
    obtain ⟨entry₁, hentry₁, -⟩ := hlink.same.symm.live hentry
    rw [hc₁, Option.bind_some, hentry₁, Option.map_some]
    refine ⟨_, rfl, ?_⟩
    simp only
    split
    · exact hlink.trans (.of_store { entry₁ with pLRU := c₁.pLRUHead } hentry₁ rfl rfl rfl rfl rfl
        rfl rfl rfl)
    · exact hlink.trans (pushFront_relinked hentry₁)

end Relink

section Room

variable {memorySize : Nat} {victim : PlanCacheEntry}

theorem Ledger.removed (hc : c.Ledger) (h : Removed c a entry c')
    (hn : c'.nEntries = c.nEntries - 1)
    (hm : c'.currentMemory = (c.currentMemory + sizeMax - entry.memorySize) % sizeMax) :
    c'.Ledger ∧ c'.currentMemory = c.currentMemory - entry.memorySize := by
  have hperm := h.perm hc.chained
  have hlen := hperm.length_eq
  have hnew : a ∉ c'.cached :=
    (List.nodup_cons.mp (hperm.nodup_iff.mpr hc.chained.nodup)).1
  have hsum : c.currentMemory = entry.memorySize + c'.sizeOf c'.cached := by
    rw [hc.memory, ← sizeOf_perm hperm, sizeOf_cons, sizeAt_eq h.live]
    refine congrArg _ (sizeOf_congr fun b hb => sizeAt_congr ?_).symm
    have hne : b ≠ a := fun heq => hnew (heq ▸ hb)
    rw [h.memory, Heap.free_ne hne]
  have hbound := hc.bounded
  have hmem : c'.currentMemory = c.currentMemory - entry.memorySize := by
    rw [hm, hsum, Nat.add_sub_cancel_left, Nat.add_assoc, Nat.add_sub_cancel_left,
      Nat.add_mod_right]
    exact Nat.mod_eq_of_lt (by omega)
  refine ⟨⟨h.chained hc.chained, ?_, by omega, by omega⟩, hmem⟩
  rw [hn, hc.entries, ← hlen, List.length_cons]
  omega

def Fits (c : PlanCache) (memorySize : Nat) (victims : List Nat) : Prop :=
  c.nEntries = victims.length ∨ c.nEntries - victims.length < c.maxEntries ∧
    c.currentMemory - c.sizeOf victims + memorySize ≤ c.maxMemory

def Evictable (c : PlanCache) (memorySize : Nat) : Prop :=
  ¬c.isFull memorySize ∨ c.nEntries = 0 ∧ c.pLRUTail = none ∨
    ∃ victims, victims ≠ [] ∧ victims.Nodup ∧
      Heap.Follows PlanCacheEntry.pLRU c.memory c.pLRUTail victims ∧ c.Fits memorySize victims

theorem isFull_iff (hsize : c.currentMemory + memorySize < sizeMax) :
    c.isFull memorySize = true ↔
      c.maxEntries ≤ c.nEntries ∨ c.maxMemory < c.currentMemory + memorySize := by
  rw [isFull, Bool.or_eq_true, decide_eq_true_eq, decide_eq_true_eq, Nat.mod_eq_of_lt hsize]

structure Roomy (c : PlanCache) (memorySize : Nat) (c' : PlanCache) : Prop where
  ledger : c'.Ledger
  room : c'.nEntries = 0 ∨ ¬c'.isFull memorySize
  memory : ∀ a entry, c'.memory a = some entry → c.memory a = some entry
  buckets : c'.buckets.length = c.buckets.length
  maxEntries : c'.maxEntries = c.maxEntries
  maxMemory : c'.maxMemory = c.maxMemory
  currentMemory : c'.currentMemory ≤ c.currentMemory

theorem makeRoom_spec {victims : List Nat} {turns : Nat} (hc : c.Ledger)
    (hsize : c.currentMemory + memorySize < sizeMax) (hnodup : victims.Nodup)
    (hfollows : Heap.Follows PlanCacheEntry.pLRU c.memory c.pLRUTail victims)
    (hfits : c.Fits memorySize victims) (hempty : victims = [] → ¬c.isFull memorySize)
    (hturns : victims.length ≤ turns) :
    ∃ c', makeRoom memorySize turns c = some c' ∧ c.Roomy memorySize c' := by
  induction victims generalizing c turns with
  | nil =>
    refine ⟨c, ?_, hc, Or.inr (hempty rfl), fun _ _ h => h, rfl, rfl, rfl, le_refl _⟩
    cases turns <;> rw [makeRoom, if_neg (hempty rfl)]
  | cons a victims ih =>
    obtain ⟨htail, victim, hvictim, hrest⟩ := hfollows
    obtain ⟨hnew, hnodup⟩ := List.nodup_cons.mp hnodup
    obtain ⟨turns, rfl⟩ := Nat.exists_eq_succ_of_ne_zero (Nat.ne_of_gt (Nat.zero_lt_of_lt hturns))
    by_cases hfull : c.isFull memorySize
    · obtain ⟨c₁, hevict, hremoved, hn, hm, hmaxn, hmaxm, htail₁, -⟩ := evict_removed htail hvictim
      obtain ⟨hc₁, hm₁⟩ := hc.removed hremoved hn hm
      have hsame : ∀ b ∈ victims, c₁.memory b = c.memory b := by
        intro b hb
        have hne : b ≠ a := fun heq => hnew (heq ▸ hb)
        rw [hremoved.memory, Heap.free_ne hne]
      have hback : ∀ b e, c₁.memory b = some e → c.memory b = some e := by
        intro b e hb
        by_cases hba : b = a
        · rw [hremoved.memory, hba, Heap.free_self] at hb
          exact absurd hb (Option.some_ne_none e).symm
        · rwa [hremoved.memory, Heap.free_ne hba] at hb
      have hlen : c₁.buckets.length = c.buckets.length := by
        rw [hremoved.buckets, List.length_modify]
      rw [makeRoom, if_pos hfull, hevict, Option.bind_some]
      by_cases hz : c₁.nEntries = 0
      · exact ⟨c₁, if_pos hz, hc₁, Or.inl hz, hback, hlen, hmaxn, hmaxm, by omega⟩
      · have hfits₁ : c₁.Fits memorySize victims := by
          rw [Fits, sizeOf_cons, sizeAt_eq hvictim, List.length_cons] at hfits
          rw [Fits, sizeOf_congr fun b hb => sizeAt_congr (hsame b hb), hn, hm₁, hmaxn, hmaxm]
          omega
        have hsize₁ : c₁.currentMemory + memorySize < sizeMax := by omega
        have hempty₁ : victims = [] → ¬c₁.isFull memorySize := by
          rintro rfl
          rw [isFull_iff hsize₁]
          rw [Fits, List.length_nil, sizeOf] at hfits₁
          omega
        obtain ⟨c', hroom, hc'⟩ := ih hc₁ hsize₁ hnodup
          (htail₁ ▸ hrest.congr fun b hb => by rw [hsame b hb]) hfits₁ hempty₁
          (Nat.le_of_succ_le_succ hturns)
        exact ⟨c', (if_neg hz).trans hroom, hc'.ledger, hc'.room,
          fun b e hb => hback b e (hc'.memory b e hb), hc'.buckets.trans hlen,
          hc'.maxEntries.trans hmaxn, hc'.maxMemory.trans hmaxm,
          hc'.currentMemory.trans (by omega)⟩
    · exact ⟨c, by rw [makeRoom, if_neg hfull], hc, Or.inr hfull, fun _ _ h => h, rfl, rfl, rfl,
        le_refl _⟩

theorem follows_length_le {victims : List Nat} {p : Option Nat} (hc : c.Ledger)
    (hnodup : victims.Nodup)
    (hfollows : Heap.Follows PlanCacheEntry.pLRU c.memory p victims) :
    victims.length ≤ c.nEntries.toNat := by
  rw [hc.entries, Int.toNat_natCast]
  exact (List.subperm_of_subset hnodup fun a ha =>
    hc.chained.mem_cached.mpr (hfollows.live ha)).length_le

theorem Evictable.makeRoom (h : c.Evictable memorySize) (hc : c.Ledger)
    (hsize : c.currentMemory + memorySize < sizeMax) :
    ∃ c', makeRoom memorySize (c.nEntries.toNat + 1) c = some c' ∧ c.Roomy memorySize c' := by
  obtain hroom | ⟨hz, htail⟩ | ⟨victims, hne, hnodup, hfollows, hfits⟩ := h
  · exact ⟨c, by rw [PlanCache.makeRoom, if_neg hroom], hc, Or.inr hroom, fun _ _ h => h, rfl, rfl,
      rfl, le_refl _⟩
  · refine ⟨c, ?_, hc, Or.inl hz, fun _ _ h => h, rfl, rfl, rfl, le_refl _⟩
    rw [PlanCache.makeRoom]
    split
    · have hevict : c.planCacheEvictLRU = some c := by rw [planCacheEvictLRU, htail]
      rw [hevict, Option.bind_some, if_pos hz]
    · rfl
  · exact makeRoom_spec hc hsize hnodup hfollows hfits (fun heq => absurd heq hne)
      ((follows_length_le hc hnodup hfollows).trans (Nat.le_succ _))

end Room

section Calls

variable {pPlan : PhysicalPlanNode} {pattern : Option Text}

/-- The entry of a call is touched without following a link to freed memory; a plan is replaced by
one of its size; and there is, or can be made, room for a new entry, whose size can be added. -/
def Keeps (c : PlanCache) : Call → Prop
  | .lookup zQuery => ∀ a, c.find zQuery = some (some a) → c.TouchSafe a
  | .insert zQuery pPlan a =>
    (∀ existing, c.find zQuery = some (some existing) →
      c.TouchSafe existing ∧ c.sizeAt existing = calculatePlanSize pPlan) ∧
    (c.find zQuery = some none → c.memory a = none ∧
      c.currentMemory + calculatePlanSize pPlan < sizeMax ∧ c.Evictable (calculatePlanSize pPlan))
  | .invalidate _ => True

theorem update_touch_spec (entry' : PlanCacheEntry) (hentry : c.memory a = some entry)
    (hsafe : c.TouchSafe a) (hquery : entry'.zQueryHash = entry.zQueryHash)
    (hsize : entry'.memorySize = entry.memorySize) (hlink : entry'.pLRU = entry.pLRU)
    (hits : Nat) :
    ∃ c', { c with memory := c.memory.store a entry', hits := hits }.planCacheTouchLRU a = some c' ∧
      Relinked c c' := by
  generalize hc₁ : ({ c with memory := c.memory.store a entry', hits := hits } : PlanCache) = c₁
  have hmemory : c₁.memory = c.memory.store a entry' := by rw [← hc₁]
  have hrelinked : Relinked c c₁ := by
    subst hc₁
    exact .of_store entry' hentry hquery hsize rfl rfl rfl rfl rfl rfl
  have hentry₁ : c₁.memory a = some entry' := by rw [hmemory, Heap.store_self]
  have hsafe₁ : c₁.TouchSafe a := by
    refine hsafe.imp (fun heq => by rw [← hc₁]; exact heq) fun hsafe e b he hb => ?_
    rw [← Option.some.inj (hentry₁.symm.trans he), hlink] at hb
    rw [hmemory]
    by_cases hba : b = a
    · rw [hba, Heap.store_self]
      rfl
    · rw [Heap.store_ne hba]
      exact hsafe entry b hentry hb
  obtain ⟨c', htouch, h⟩ := touch_spec hentry₁ hsafe₁
  exact ⟨c', htouch, hrelinked.trans h⟩

theorem Books.lookup (hc : c.Books) (hkeeps : c.Keeps (.lookup zQuery)) :
    ∃ plan c', c.graphPlanCacheLookup zQuery = some (plan, c') ∧ Relinked c c' := by
  obtain ⟨found, hfind, -, hsome⟩ := hc.ledger.chained.find_spec zQuery
  cases found with
  | none =>
    refine ⟨none, { c with misses := c.misses + 1 }, ?_,
      ⟨⟨rfl, fun _ => rfl⟩, fun _ => rfl, rfl, rfl, rfl, rfl⟩⟩
    rw [graphPlanCacheLookup, hfind]
    rfl
  | some a =>
    obtain ⟨entry, hentry, -⟩ := hsome a rfl
    obtain ⟨c', htouch, hrelinked⟩ := update_touch_spec
      { entry with useCount := entry.useCount + 1 } hentry (hkeeps a hfind) rfl rfl rfl (c.hits + 1)
    refine ⟨some entry.pPlan, c', ?_, hrelinked⟩
    rw [graphPlanCacheLookup, hfind]
    simp only [Option.bind_some, hentry, htouch, Option.map_some]

theorem Ledger.add (hc : c.Ledger) (hfresh : c.memory a = none) (hquery : entry.zQueryHash = zQuery)
    (hsize : c.currentMemory + entry.memorySize < sizeMax) :
    (c.add zQuery a entry).Ledger ∧
      (c.add zQuery a entry).currentMemory = c.currentMemory + entry.memorySize ∧
      (c.add zQuery a entry).cached.Perm (a :: c.cached) := by
  have hadded : Added c a { entry with pLRU := c.pLRUHead } (c.add zQuery a entry) :=
    ⟨hfresh, rfl, by subst hquery; rfl⟩
  have hperm := hadded.perm hc.chained
  have hmem : (c.add zQuery a entry).currentMemory = c.currentMemory + entry.memorySize :=
    Nat.mod_eq_of_lt hsize
  have hnew : a ∉ c.cached := fun hmem => by
    obtain ⟨e, he⟩ := hc.chained.mem_cached.mp hmem
    exact Option.some_ne_none e (he.symm.trans hfresh)
  refine ⟨⟨hadded.chained hc.chained, ?_, ?_, hmem ▸ hsize⟩, hmem, hperm⟩
  · rw [hperm.length_eq, List.length_cons]
    show c.nEntries + 1 = _
    rw [hc.entries]
    rfl
  · have hself : (c.add zQuery a entry).sizeAt a = entry.memorySize := by
      rw [sizeAt, hadded.memory, Heap.store_self]
      rfl
    have hold : (c.add zQuery a entry).sizeOf c.cached = c.sizeOf c.cached := by
      refine sizeOf_congr fun b hb => sizeAt_congr ?_
      have hne : b ≠ a := fun heq => hnew (heq ▸ hb)
      rw [hadded.memory, Heap.store_ne hne]
    rw [hmem, sizeOf_perm hperm, sizeOf_cons, hself, hold, hc.memory, Nat.add_comm]

theorem Books.insert (hc : c.Books) (hkeeps : c.Keeps (.insert zQuery pPlan a))
    (hmax : 0 < c.maxEntries) :
    ∃ rc c', c.graphPlanCacheInsert zQuery pPlan a = some (rc, c') ∧ c'.Books ∧
      c'.maxEntries = c.maxEntries := by
  obtain ⟨found, hfind, -, hsome⟩ := hc.ledger.chained.find_spec zQuery
  cases found with
  | none =>
    obtain ⟨hfresh, hsize, hevict⟩ := hkeeps.2 hfind
    obtain ⟨c₁, hroom, hc₁⟩ := hevict.makeRoom hc.ledger hsize
    generalize hentry : (⟨zQuery, pPlan, 1, calculatePlanSize pPlan, none⟩ : PlanCacheEntry) = entry
    have hentrysize : entry.memorySize = calculatePlanSize pPlan := by rw [← hentry]
    have hquery : entry.zQueryHash = zQuery := by rw [← hentry]
    have hfresh₁ : c₁.memory a = none := by
      cases h : c₁.memory a with
      | none => rfl
      | some e => exact absurd (hfresh.symm.trans (hc₁.memory a e h)) (Option.some_ne_none e).symm
    have hsize₁ : c₁.currentMemory + entry.memorySize < sizeMax := by
      have := hc₁.currentMemory
      omega
    obtain ⟨hledger, hmem, hperm⟩ := hc₁.ledger.add hfresh₁ hquery hsize₁
    refine ⟨.ok, c₁.add zQuery a entry, ?_, ⟨hledger, ?_, ?_⟩, hc₁.maxEntries⟩
    · rw [graphPlanCacheInsert, hfind]
      simp only [Option.bind_some, hfresh, Option.isNone_none, if_true, hroom, Option.map_some,
        hentry]
    · show c₁.nEntries + 1 ≤ c₁.maxEntries
      obtain hz | hroom := hc₁.room
      · rw [hz, hc₁.maxEntries]
        exact hmax
      · rw [← hentrysize, isFull_iff hsize₁] at hroom
        omega
    · rw [hmem]
      show _ ≤ c₁.maxMemory ∨ _
      obtain hz | hroom := hc₁.room
      · have hnil : c₁.cached = [] := List.eq_nil_of_length_eq_zero (by
          have := hc₁.ledger.entries
          omega)
        have hzero : c₁.currentMemory = 0 := by
          rw [hc₁.ledger.memory, hnil]
          rfl
        rw [hnil] at hperm
        by_cases hle : entry.memorySize ≤ c₁.maxMemory
        · exact Or.inl (by omega)
        · exact Or.inr ⟨a, { entry with pLRU := c₁.pLRUHead }, List.perm_singleton.mp hperm,
            Heap.store_self _ _ _, Nat.lt_of_not_le hle⟩
      · rw [← hentrysize, isFull_iff hsize₁] at hroom
        exact Or.inl (by omega)
  | some existing =>
    obtain ⟨entry, hentry, -⟩ := hsome existing rfl
    obtain ⟨hsafe, hsize⟩ := hkeeps.1 existing hfind
    rw [sizeAt_eq hentry] at hsize
    obtain ⟨c', htouch, hrelinked⟩ := update_touch_spec
      { entry with pPlan := pPlan, memorySize := calculatePlanSize pPlan } hentry hsafe rfl
      hsize.symm rfl c.hits
    refine ⟨.ok, c', ?_, hc.relinked hrelinked, hrelinked.maxEntries⟩
    rw [graphPlanCacheInsert, hfind]
    simp only [Option.bind_some, hentry, htouch, Option.map_some]

theorem dropAll_counters {as : List Nat} (hnodup : as.Nodup)
    (hlive : ∀ a ∈ as, ∃ entry, c.memory a = some entry) (hle : c.sizeOf as ≤ c.currentMemory)
    (hbound : c.currentMemory < sizeMax) :
    (c.dropAll as).nEntries = c.nEntries - as.length ∧
      (c.dropAll as).currentMemory = c.currentMemory - c.sizeOf as ∧
      (c.dropAll as).maxEntries = c.maxEntries ∧ (c.dropAll as).maxMemory = c.maxMemory := by
  induction as generalizing c with
  | nil => exact ⟨(Int.sub_zero _).symm, rfl, rfl, rfl⟩
  | cons a as ih =>
    obtain ⟨entry, hentry⟩ := hlive a List.mem_cons_self
    obtain ⟨hnew, hnodup⟩ := List.nodup_cons.mp hnodup
    have hsame : ∀ b ∈ as, (c.drop a entry).memory b = c.memory b := by
      intro b hb
      have hne : b ≠ a := fun heq => hnew (heq ▸ hb)
      exact Heap.free_ne hne c.memory
    rw [sizeOf_cons, sizeAt_eq hentry] at hle
    have hmem : (c.drop a entry).currentMemory = c.currentMemory - entry.memorySize := by
      show (c.currentMemory + sizeMax - entry.memorySize) % sizeMax = _
      rw [Nat.sub_add_comm (by omega), Nat.add_mod_right]
      exact Nat.mod_eq_of_lt (by omega)
    obtain ⟨hn, hm, hmaxn, hmaxm⟩ := ih (c := c.drop a entry) hnodup
      (fun b hb => by rw [hsame b hb]; exact hlive b (List.mem_cons_of_mem a hb))
      (by rw [sizeOf_congr fun b hb => sizeAt_congr (hsame b hb)]; omega) (by omega)
    have hall : c.dropAll (a :: as) = (c.drop a entry).dropAll as := by
      rw [dropAll, List.foldl_cons, dropAt_eq hentry, dropAll]
    rw [hall, hn, hm, hmaxn, hmaxm, sizeOf_congr fun b hb => sizeAt_congr (hsame b hb), sizeOf_cons,
      sizeAt_eq hentry, hmem, List.length_cons]
    refine ⟨?_, by omega, rfl, rfl⟩
    show c.nEntries - 1 - _ = _
    omega

theorem Books.invalidate (hc : c.Books) (pattern : Option Text) :
    ∃ n c', c.graphPlanCacheInvalidate pattern = some (n, c') ∧ c'.Books ∧
      c'.maxEntries = c.maxEntries := by
  have hchained := hc.ledger.chained
  refine ⟨_, _, hchained.invalidate_eq pattern, ?_⟩
  generalize hc' : ({ c.dropAll (c.invalid pattern) with
    buckets := c.buckets.map fun chain => chain.filter fun a => !c.invalidAt pattern a } :
      PlanCache) = c'
  obtain ⟨hchained', hcached⟩ := hchained.invalidate (hc' ▸ hchained.invalidate_eq pattern)
  have hparts : (c.invalid pattern ++ c'.cached).Perm c.cached := by
    rw [hcached]
    exact List.filter_append_perm _ _
  have hlen := hparts.length_eq
  have hsize : c.sizeOf (c.invalid pattern) + c.sizeOf c'.cached = c.currentMemory := by
    rw [hc.ledger.memory, ← sizeOf_perm hparts, sizeOf_append]
  have hnodup : (c.invalid pattern).Nodup := hchained.nodup.filter _
  obtain ⟨hn, hm, hmaxn, hmaxm⟩ : c'.nEntries = c.nEntries - (c.invalid pattern).length ∧
      c'.currentMemory = c.currentMemory - c.sizeOf (c.invalid pattern) ∧
      c'.maxEntries = c.maxEntries ∧ c'.maxMemory = c.maxMemory := by
    rw [← hc']
    exact dropAll_counters hnodup
      (fun a ha => hchained.mem_cached.mp (List.mem_of_mem_filter ha)) (by omega) hc.ledger.bounded
  have hmemory : ∀ a ∈ c'.cached, c'.memory a = c.memory a := by
    intro a ha
    obtain ⟨e, he⟩ := hchained'.mem_cached.mp ha
    rw [← hc'] at he ⊢
    simp only [memory_dropAll] at he ⊢
    rw [if_neg (Option.ite_none_left_eq_some.mp he).1]
  rw [List.length_append] at hlen
  have hentries := hc.ledger.entries
  have hbounded := hc.ledger.bounded
  have hfew := hc.few
  have hsame : c'.sizeOf c'.cached = c.sizeOf c'.cached :=
    sizeOf_congr fun a ha => sizeAt_congr (hmemory a ha)
  refine ⟨⟨⟨hchained', by omega, by omega, by omega⟩, by omega, ?_⟩, hmaxn⟩
  rw [hmaxm]
  obtain hsmall | ⟨a, entry, hsingle, hentry, hlarge⟩ := hc.small
  · exact Or.inl (by omega)
  · rw [hsingle, List.filter_singleton] at hcached
    cases hat : c.invalidAt pattern a with
    | false =>
      rw [hat] at hcached
      have hcached : c'.cached = [a] := hcached
      refine Or.inr ⟨a, entry, hcached, ?_, hlarge⟩
      rw [hmemory a (by rw [hcached]; exact List.mem_singleton_self a), hentry]
    | true =>
      rw [hat] at hcached
      have hcached : c'.cached = [] := hcached
      have hnil : c.sizeOf [] = 0 := rfl
      rw [hcached] at hsize
      exact Or.inl (by omega)

end Calls

section Run

def step (c : PlanCache) (call : Call) : Option PlanCache := (c.call call).map Prod.snd

theorem init_books {maxEntries : Int} {maxMemory : Nat}
    (h : graphInitPlanCache maxEntries maxMemory = some c) : c.Books ∧ 0 < c.maxEntries := by
  obtain ⟨hchained, hcached, hn, hm, -, -, hpos⟩ := init_empty h
  refine ⟨⟨⟨hchained, by rw [hn, hcached]; rfl, by rw [hm, hcached]; rfl, ?_⟩, ?_, ?_⟩, hpos⟩
  · rw [hm]
    exact Nat.two_pow_pos 64
  · rw [hn]
    exact Int.le_of_lt hpos
  · rw [hm]
    exact Or.inl (Nat.zero_le _)

theorem Books.call (hc : c.Books) (hmax : 0 < c.maxEntries) {call : Call} (hkeeps : c.Keeps call) :
    ∃ out c', c.call call = some (out, c') ∧ c'.Books ∧ c'.maxEntries = c.maxEntries := by
  cases call with
  | lookup zQuery =>
    obtain ⟨plan, c', hcall, hrelinked⟩ := hc.lookup hkeeps
    exact ⟨_, c', by rw [PlanCache.call, hcall]; rfl, hc.relinked hrelinked, hrelinked.maxEntries⟩
  | insert zQuery pPlan a =>
    obtain ⟨rc, c', hcall, h⟩ := hc.insert hkeeps hmax
    exact ⟨_, c', by rw [PlanCache.call, hcall]; rfl, h⟩
  | invalidate pattern =>
    obtain ⟨n, c', hcall, h⟩ := hc.invalidate pattern
    exact ⟨_, c', by rw [PlanCache.call, hcall]; rfl, h⟩

theorem books_kept {maxEntries : Int} {maxMemory : Nat} {c₀ : PlanCache}
    (hinit : graphInitPlanCache maxEntries maxMemory = some c₀)
    (h : Machine.Reached step Keeps c₀ c) :
    c.Books ∧ ∀ call, c.Keeps call → ∃ out c', c.call call = some (out, c') := by
  have hbooks : c.Books ∧ 0 < c.maxEntries := by
    refine h.invariant (P := fun c => c.Books ∧ 0 < c.maxEntries) (init_books hinit)
      fun s call s' hs hkeeps hstep => ?_
    obtain ⟨out, c', hcall, hbooks, hmax⟩ := hs.1.call hs.2 hkeeps
    rw [step, hcall] at hstep
    rw [← Option.some.inj hstep]
    exact ⟨hbooks, hmax ▸ hs.2⟩
  refine ⟨hbooks.1, fun call hkeeps => ?_⟩
  obtain ⟨out, c', hcall, -⟩ := hbooks.1.call hbooks.2 hkeeps
  exact ⟨out, c', hcall⟩

def onePlan : PhysicalPlanNode := .node .expand none none []

def filteredPlan : PhysicalPlanNode := .node .filter none none [onePlan]

theorem books_kept_two_queries :
    ∃ c₀ c, graphInitPlanCache 2 0 = some c₀ ∧
      Machine.run step c₀ [.insert ['a'] onePlan 0, .insert ['b'] filteredPlan 1, .lookup ['b']] =
        some c ∧
      c.nEntries = 2 ∧ c.currentMemory = 580 ∧ c.Books ∧
      ∀ call, c.Keeps call → ∃ out c', c.call call = some (out, c') := by
  have hnew : ∀ c : PlanCache, ∀ q p a, c.find q = some none → c.memory a = none →
      c.currentMemory + calculatePlanSize p < sizeMax → c.isFull (calculatePlanSize p) = false →
        c.Keeps (.insert q p a) := fun c q p a hfind hfresh hsize hroom =>
    ⟨fun _ hsome => absurd (Option.some.inj (hfind.symm.trans hsome)) (Option.some_ne_none _).symm,
      fun _ => ⟨hfresh, hsize, Or.inl (by rw [hroom]; exact Bool.false_ne_true)⟩⟩
  refine ⟨_, _, rfl, rfl, rfl, rfl, books_kept (show graphInitPlanCache 2 0 = some _ from rfl) ?_⟩
  refine .next (a := .lookup ['b']) (.next (a := .insert ['b'] filteredPlan 1)
    (.next (a := .insert ['a'] onePlan 0) .start (hnew _ _ _ _ rfl rfl ?_ ?_) rfl)
    (hnew _ _ _ _ rfl rfl ?_ ?_) rfl) ?_ rfl
  · decide
  · decide +kernel
  · decide
  · decide +kernel
  · intro a ha
    exact Or.inl (Option.some.inj ha)

theorem makeRoom_stuck {memorySize : Nat} (htail : c.pLRUTail = none)
    (hfull : c.isFull memorySize = true) (hn : c.nEntries ≠ 0) (turns : Nat) :
    makeRoom memorySize turns c = none := by
  have hevict : c.planCacheEvictLRU = some c := by rw [planCacheEvictLRU, htail]
  induction turns with
  | zero => rw [makeRoom, if_pos hfull]
  | succ turns ih => rw [makeRoom, if_pos hfull, hevict, Option.bind_some, if_neg hn, ih]

theorem books_broken :
    (∃ c₀ c, graphInitPlanCache 10 500 = some c₀ ∧
      Machine.run step c₀ [.insert ['a'] onePlan 0, .insert ['b'] onePlan 1] = some c ∧
      ∀ turns, makeRoom (calculatePlanSize filteredPlan) turns c = none) ∧
    ∃ c₀ c, graphInitPlanCache 10 500 = some c₀ ∧
      Machine.run step c₀ [.insert ['a'] onePlan 0, .insert ['a'] filteredPlan 0] = some c ∧
      c.currentMemory = 160 ∧ c.sizeOf c.cached = 420 ∧ ¬c.Books := by
  refine ⟨⟨_, _, rfl, rfl, fun turns => ?_⟩, _, _, rfl, rfl, rfl, rfl, fun h => ?_⟩
  · cases turns with
    | zero =>
      rw [makeRoom, if_pos (by decide +kernel)]
    | succ turns =>
      rw [makeRoom, if_pos (by decide +kernel)]
      exact makeRoom_stuck rfl (by decide +kernel) (by decide) turns
  · exact absurd h.ledger.memory (by decide)

end Run

end PlanCache

end SqliteMultimodal.Graph.Plans
