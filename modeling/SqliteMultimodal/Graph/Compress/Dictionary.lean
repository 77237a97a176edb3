import Mathlib.Data.Finset.Card
import Mathlib.Data.List.Nodup
import SqliteMultimodal.Graph.Value
import SqliteMultimodal.Lib.Chains
import SqliteMultimodal.Lib.Json

/-! The string dictionary of property compression, and the compression of property texts and its
inverse. A text is a C string, one character for each of its bytes. -/

namespace SqliteMultimodal.Graph.Compress

structure DictEntry where
  zValue : Text
  dictId : Int
  refCount : Nat
  length : Nat
  deriving DecidableEq, Repr

structure StringDictionary where
  /-- The hash chains, each from its head along `pNext`. -/
  buckets : List (List DictEntry)
  nEntries : Nat
  nextId : Int
  totalSize : Nat
  savedBytes : Nat
  deriving DecidableEq, Repr

def dictHash (zStr : Text) : Nat := zStr.djb2

def sizeofDictEntry : Nat := 40

def graphInitStringDictionary (initialBuckets : Int) : StringDictionary where
  buckets := List.replicate (if initialBuckets ≤ 0 then 1024 else initialBuckets.toNat) []
  nEntries := 0
  nextId := 1
  totalSize := 0
  savedBytes := 0

/-- The search of `dictAddString` along one chain. -/
def addReference (zStr : Text) : List DictEntry → Option (Int × List DictEntry)
  | [] => none
  | entry :: rest =>
    if entry.zValue = zStr then
      some (entry.dictId, { entry with refCount := entry.refCount + 1 } :: rest)
    else (addReference zStr rest).map fun found => (found.1, entry :: found.2)

namespace StringDictionary

def bucketOf (d : StringDictionary) (zStr : Text) : Nat := dictHash zStr % d.buckets.length

def dictAddString (d : StringDictionary) (zStr : Text) : Int × StringDictionary :=
  let bucket := d.bucketOf zStr
  match addReference zStr (Chains.chain d.buckets bucket) with
  | some (id, chain) => (id, { d with buckets := d.buckets.modify bucket fun _ => chain })
  | none =>
    let entry : DictEntry := ⟨zStr, d.nextId, 1, zStr.length⟩
    (entry.dictId,
      { buckets := d.buckets.modify bucket (entry :: ·)
        nEntries := d.nEntries + 1
        nextId := d.nextId + 1
        totalSize := d.totalSize + (sizeofDictEntry + zStr.length + 1)
        -- The entry is new, so its count is one and nothing is added here.
        savedBytes := if entry.refCount > 1 then d.savedBytes + (zStr.length - 8)
          else d.savedBytes })

def dictGetString (d : StringDictionary) (dictId : Int) : Option Text :=
  if dictId ≤ 0 then none
  else d.buckets.findSome? fun chain => (chain.find? (·.dictId = dictId)).map (·.zValue)

def entries (d : StringDictionary) : List DictEntry := d.buckets.flatten

def dictAddStrings (d : StringDictionary) : List Text → List Int × StringDictionary
  | [] => ([], d)
  | zStr :: rest =>
    let call := d.dictAddString zStr
    let calls := call.2.dictAddStrings rest
    (call.1 :: calls.1, calls.2)

end StringDictionary

section AddReference

variable {zStr : Text} {chain : List DictEntry}

theorem addReference_eq_none (h : addReference zStr chain = none) :
    ∀ e ∈ chain, e.zValue ≠ zStr := by
  induction chain with
  | nil => exact fun e he => absurd he List.not_mem_nil
  | cons entry rest ih =>
    unfold addReference at h
    split at h
    next => exact absurd h (Option.some_ne_none _)
    next hne =>
      exact List.forall_mem_cons.mpr ⟨hne, ih (Option.map_eq_none_iff.mp h)⟩

theorem addReference_eq_some {id : Int} {chain' : List DictEntry}
    (h : addReference zStr chain = some (id, chain')) :
    ∃ e ∈ chain, e.zValue = zStr ∧ e.dictId = id ∧
      ([e] ++ chain').Perm ([{ e with refCount := e.refCount + 1 }] ++ chain) := by
  induction chain generalizing chain' with
  | nil => exact absurd h (Option.some_ne_none _).symm
  | cons entry rest ih =>
    unfold addReference at h
    split at h
    next heq =>
      obtain ⟨rfl, rfl⟩ := Prod.mk.inj (Option.some.inj h)
      exact ⟨entry, List.mem_cons_self, heq, rfl, List.Perm.swap _ _ rest⟩
    next =>
      obtain ⟨⟨id', rest'⟩, hrest, hfound⟩ := Option.map_eq_some_iff.mp h
      obtain ⟨rfl, rfl⟩ := Prod.mk.inj hfound
      obtain ⟨e, he, hz, hid, hperm⟩ := ih hrest
      refine ⟨e, List.mem_cons_of_mem entry he, hz, hid, ?_⟩
      exact ((List.Perm.swap entry e rest').trans (hperm.cons entry)).trans
        (List.Perm.swap _ entry rest)

end AddReference

/-- The entry of a string that is one of `names`, the distinct strings in the order of their first
addition, after all of `added`. -/
def entryOf (names added : List Text) (s : Text) : DictEntry :=
  ⟨s, names.idxOf s + 1, added.count s, s.length⟩

/-- The dictionary holds the distinct strings `names` of those `added`. -/
structure Holds (names added : List Text) (d : StringDictionary) : Prop where
  buckets_pos : 0 < d.buckets.length
  placed : Chains.Placed (fun e => d.bucketOf e.zValue) d.buckets
  nodup : names.Nodup
  mem_names : ∀ s, s ∈ names ↔ s ∈ added
  values : (d.entries.map (·.zValue)).Perm names
  entry_eq : ∀ e ∈ d.entries, e = entryOf names added e.zValue
  nEntries_eq : d.nEntries = names.length
  nextId_eq : d.nextId = names.length + 1

namespace Holds

variable {names added : List Text} {d : StringDictionary}

theorem init (initialBuckets : Int) : Holds [] [] (graphInitStringDictionary initialBuckets) := by
  have hentries : (graphInitStringDictionary initialBuckets).entries = [] := by
    simp [StringDictionary.entries, graphInitStringDictionary]
  refine ⟨?_, Chains.placed_replicate_nil _ _, List.nodup_nil, fun _ => Iff.rfl, ?_, ?_, rfl, rfl⟩
  · rw [graphInitStringDictionary, List.length_replicate]
    split <;> omega
  · rw [hentries]
    exact List.Perm.nil
  · rw [hentries]
    exact fun e he => absurd he List.not_mem_nil

theorem bucketOf_lt (h : Holds names added d) (s : Text) : d.bucketOf s < d.buckets.length :=
  Nat.mod_lt _ h.buckets_pos

theorem zValue_mem (h : Holds names added d) {e : DictEntry} (he : e ∈ d.entries) :
    e.zValue ∈ names :=
  h.values.mem_iff.mp (List.mem_map_of_mem he)

theorem entryOf_mem (h : Holds names added d) {s : Text} (hs : s ∈ names) :
    entryOf names added s ∈ d.entries := by
  obtain ⟨e, he, rfl⟩ := List.mem_map.mp (h.values.mem_iff.mpr hs)
  rwa [← h.entry_eq e he]

theorem mem_of_chain {b : Nat} {e : DictEntry} (he : e ∈ Chains.chain d.buckets b) :
    e ∈ d.entries :=
  Chains.mem_flatten_iff.mpr ⟨b, he⟩

theorem again (h : Holds names added d) {s : Text} {id : Int} {chain : List DictEntry}
    (hfound : addReference s (Chains.chain d.buckets (d.bucketOf s)) = some (id, chain)) :
    s ∈ names ∧ id = names.idxOf s + 1 ∧
      Holds names (added ++ [s])
        { d with buckets := d.buckets.modify (d.bucketOf s) fun _ => chain } := by
  have hb := h.bucketOf_lt s
  obtain ⟨e, he, rfl, rfl, hperm⟩ := addReference_eq_some hfound
  have heq := h.entry_eq e (mem_of_chain he)
  have hmem := h.zValue_mem (mem_of_chain he)
  have hentries := Chains.flatten_modify_perm hb (f := fun _ => chain) _ _ hperm
  refine ⟨hmem, congrArg DictEntry.dictId heq, ?_⟩
  have hvalues : ((d.buckets.modify (d.bucketOf e.zValue) fun _ => chain).flatten.map
      (·.zValue)).Perm names := by
    have hmap := hentries.map (·.zValue)
    rw [List.map_append, List.map_append] at hmap
    exact ((List.perm_append_left_iff _).mp hmap).trans h.values
  refine ⟨?_, ?_, h.nodup, fun t => ?_, hvalues, fun x hx => ?_, h.nEntries_eq, h.nextId_eq⟩
  · rw [List.length_modify]
    exact h.buckets_pos
  · simp only [StringDictionary.bucketOf, List.length_modify]
    refine h.placed.modify hb fun x hx => ?_
    obtain rfl | hx := List.mem_cons.mp (hperm.subset (List.mem_cons_of_mem e hx))
    · exact h.placed _ e he
    · exact h.placed _ x hx
  · rw [List.mem_append, List.mem_singleton, ← h.mem_names]
    constructor
    · exact Or.inl
    · rintro (ht | rfl)
      · exact ht
      · exact hmem
  · by_cases hxe : x.zValue = e.zValue
    · -- The values are distinct, so this is the entry that was counted up.
      have hcounted := (List.mem_cons.mp (hentries.symm.subset List.mem_cons_self)).resolve_left
        fun hsame => Nat.succ_ne_self e.refCount (congrArg DictEntry.refCount hsame)
      have hx' : x = { e with refCount := e.refCount + 1 } :=
        List.inj_on_of_nodup_map (hvalues.nodup_iff.mpr h.nodup) hx hcounted hxe
      rw [hx', heq]
      simp [entryOf, List.count_append]
    · obtain rfl | hx := List.mem_cons.mp (hentries.subset (List.mem_cons_of_mem e hx))
      · exact absurd rfl hxe
      · rw [h.entry_eq x hx]
        simp [entryOf, List.count_append, Ne.symm hxe]

theorem first (h : Holds names added d) {s : Text}
    (hnone : addReference s (Chains.chain d.buckets (d.bucketOf s)) = none) :
    s ∉ names ∧ Holds (names ++ [s]) (added ++ [s]) (d.dictAddString s).2 := by
  have hb := h.bucketOf_lt s
  have hnot : s ∉ names := by
    intro hs
    have hmem := h.placed.mem_flatten.mp (h.entryOf_mem hs)
    exact addReference_eq_none hnone _ hmem rfl
  have hidx : names.idxOf s = names.length := List.idxOf_eq_length_iff.mpr hnot
  have hcount : added.count s = 0 := List.count_eq_zero.mpr fun hs => hnot ((h.mem_names s).mpr hs)
  have hentries : ((d.dictAddString s).2.entries).Perm (⟨s, d.nextId, 1, s.length⟩ :: d.entries) := by
    simp only [StringDictionary.dictAddString, hnone, StringDictionary.entries]
    exact Chains.flatten_modify_perm hb [] [_] (List.Perm.refl _)
  refine ⟨hnot, ?_, ?_, ?_, fun t => ?_, ?_, fun x hx => ?_, ?_, ?_⟩
  · simp only [StringDictionary.dictAddString, hnone, List.length_modify]
    exact h.buckets_pos
  · simp only [StringDictionary.dictAddString, hnone]
    simp only [StringDictionary.bucketOf, List.length_modify]
    refine h.placed.modify hb fun x hx => ?_
    obtain rfl | hx := List.mem_cons.mp hx
    · rfl
    · exact h.placed _ x hx
  · exact List.nodup_append.mpr ⟨h.nodup, List.nodup_singleton s, fun a ha b hb hab =>
      hnot (List.mem_singleton.mp hb ▸ hab ▸ ha)⟩
  · rw [List.mem_append, List.mem_append, h.mem_names]
  · refine (hentries.map _).trans ?_
    rw [List.map_cons]
    exact (h.values.cons s).trans (List.perm_append_singleton s names).symm
  · obtain rfl | hx := List.mem_cons.mp (hentries.subset hx)
    · rw [h.nextId_eq]
      simp [entryOf, List.idxOf_append, hnot, hcount, List.count_append]
    · have hxs : x.zValue ≠ s := fun heq => hnot (heq ▸ h.zValue_mem hx)
      rw [h.entry_eq x hx]
      simp [entryOf, List.idxOf_append, h.zValue_mem hx, List.count_append, Ne.symm hxs]
  · simp only [StringDictionary.dictAddString, hnone, h.nEntries_eq, List.length_append,
      List.length_singleton]
  · simp only [StringDictionary.dictAddString, hnone, h.nextId_eq, List.length_append,
      List.length_singleton]
    push_cast
    rfl

theorem dictAddString (h : Holds names added d) (s : Text) :
    ∃ new, Holds (names ++ new) (added ++ [s]) (d.dictAddString s).2 ∧ s ∈ names ++ new ∧
      (d.dictAddString s).1 = (names ++ new).idxOf s + 1 := by
  match hfound : addReference s (Chains.chain d.buckets (d.bucketOf s)) with
  | some (id, chain) =>
    obtain ⟨hs, hid, hagain⟩ := h.again hfound
    refine ⟨[], ?_⟩
    rw [List.append_nil]
    simp only [StringDictionary.dictAddString, hfound]
    exact ⟨hagain, hs, hid⟩
  | none =>
    obtain ⟨hnot, hfirst⟩ := h.first hfound
    refine ⟨[s], hfirst, List.mem_append_right names (List.mem_singleton_self s), ?_⟩
    simp [StringDictionary.dictAddString, hfound, h.nextId_eq, List.idxOf_append, hnot]

theorem dictAddStrings (h : Holds names added d) (strs : List Text) :
    ∃ new, Holds (names ++ new) (added ++ strs) (d.dictAddStrings strs).2 ∧
      (∀ s ∈ strs, s ∈ names ++ new) ∧
      (d.dictAddStrings strs).1 = strs.map fun s => ((names ++ new).idxOf s + 1 : Int) := by
  induction strs generalizing names added d with
  | nil =>
    refine ⟨[], ?_, fun s hs => absurd hs List.not_mem_nil, rfl⟩
    rw [List.append_nil, List.append_nil]
    exact h
  | cons s strs ih =>
    obtain ⟨new, hcall, hs, hid⟩ := h.dictAddString s
    obtain ⟨more, hcalls, hstrs, hids⟩ := ih hcall
    rw [List.append_assoc names, List.append_assoc added] at hcalls
    refine ⟨new ++ more, hcalls, ?_, ?_⟩
    · rw [← List.append_assoc]
      exact List.forall_mem_cons.mpr ⟨List.mem_append_left more hs, hstrs⟩
    · rw [StringDictionary.dictAddStrings, List.map_cons, hids, ← List.append_assoc, hid,
        List.idxOf_append_of_mem hs]

theorem dictGetString_eq (d : StringDictionary) (id : Int) :
    d.dictGetString id =
      if id ≤ 0 then none else (d.entries.find? (·.dictId = id)).map (·.zValue) := by
  rw [StringDictionary.dictGetString, StringDictionary.entries, List.find?_flatten,
    List.map_findSome?]
  rfl

theorem dictGetString_name (h : Holds names added d) {s : Text} (hs : s ∈ names) :
    d.dictGetString (names.idxOf s + 1) = some s := by
  have hsome : (d.entries.find? (·.dictId = (names.idxOf s + 1 : Int))).isSome :=
    List.find?_isSome.mpr ⟨_, h.entryOf_mem hs, decide_eq_true rfl⟩
  obtain ⟨e, he⟩ := Option.isSome_iff_exists.mp hsome
  have hid : e.dictId = names.idxOf s + 1 := by simpa using List.find?_some he
  have hmem := List.mem_of_find?_eq_some he
  have heq : e.zValue = s := by
    rw [h.entry_eq e hmem] at hid
    refine (List.idxOf_inj (h.zValue_mem hmem)).mp ?_
    simp only [entryOf] at hid
    omega
  rw [dictGetString_eq, if_neg (by omega), he, Option.map_some, heq]

theorem dictGetString_other (h : Holds names added d) {id : Int}
    (hid : ∀ s ∈ names, id ≠ names.idxOf s + 1) : d.dictGetString id = none := by
  rw [dictGetString_eq]
  split
  next => rfl
  next =>
    rw [Option.map_eq_none_iff, List.find?_eq_none]
    intro e he heq
    rw [h.entry_eq e he] at heq
    exact hid _ (h.zValue_mem he) (of_decide_eq_true heq).symm

theorem mem_dictIds (h : Holds names added d) (id : Int) :
    id ∈ d.entries.map (·.dictId) ↔ 1 ≤ id ∧ id ≤ d.nEntries := by
  rw [h.nEntries_eq, List.mem_map]
  constructor
  · rintro ⟨e, he, rfl⟩
    rw [h.entry_eq e he]
    have hlt := List.idxOf_lt_length_of_mem (h.zValue_mem he)
    simp only [entryOf]
    omega
  · rintro ⟨hpos, hle⟩
    obtain ⟨i, hi⟩ := Int.eq_ofNat_of_zero_le (by omega : 0 ≤ id - 1)
    have hlt : i < names.length := by omega
    refine ⟨_, h.entryOf_mem (List.getElem_mem hlt), ?_⟩
    simp only [entryOf, h.nodup.idxOf_getElem i hlt]
    omega

end Holds

/-- The number of a string tells it from every other string, now and after any further calls. -/
theorem dictionary_bijection (initialBuckets : Int) (strs more : List Text) :
    let run := (graphInitStringDictionary initialBuckets).dictAddStrings strs
    let calls := strs.zip run.1
    run.1.length = strs.length ∧
    (∀ id ∈ run.1, 0 < id) ∧
    (∀ x ∈ calls, ∀ y ∈ calls, x.2 = y.2 ↔ x.1 = y.1) ∧
    (∀ x ∈ calls, (run.2.dictAddStrings more).2.dictGetString x.2 = some x.1) ∧
    (∀ id ∉ run.1, run.2.dictGetString id = none) ∧
    run.2.nEntries = strs.toFinset.card ∧
    (∀ id : Int, id ∈ run.2.entries.map (·.dictId) ↔ 1 ≤ id ∧ id ≤ run.2.nEntries) ∧
    ∀ e ∈ run.2.entries, e.refCount = strs.count e.zValue := by
  intro run calls
  obtain ⟨names, hrun, hstrs, hids⟩ := (Holds.init initialBuckets).dictAddStrings strs
  rw [List.nil_append] at hrun hstrs hids
  rw [List.nil_append] at hrun
  obtain ⟨new, hmore, -, -⟩ := hrun.dictAddStrings more
  have hcalls : ∀ x ∈ calls, x.1 ∈ names ∧ x.2 = (names.idxOf x.1 + 1 : Int) := by
    intro x hx
    simp only [calls, run, hids] at hx
    rw [← List.map_prod_left_eq_zip] at hx
    obtain ⟨s, hs, rfl⟩ := List.mem_map.mp hx
    exact ⟨hstrs s hs, rfl⟩
  refine ⟨?_, ?_, fun x hx y hy => ?_, fun x hx => ?_, fun id hid => ?_, ?_, hrun.mem_dictIds,
    fun e he => ?_⟩
  · rw [hids, List.length_map]
  · rw [hids]
    intro id hid
    obtain ⟨s, -, rfl⟩ := List.mem_map.mp hid
    omega
  · obtain ⟨hx, hxid⟩ := hcalls x hx
    obtain ⟨hy, hyid⟩ := hcalls y hy
    rw [hxid, hyid, ← List.idxOf_inj hx (y := y.1)]
    omega
  · obtain ⟨hx, hxid⟩ := hcalls x hx
    have hidx : (names ++ new).idxOf x.1 = names.idxOf x.1 := List.idxOf_append_of_mem hx
    rw [hxid, ← hidx]
    exact hmore.dictGetString_name (List.mem_append_left new hx)
  · refine hrun.dictGetString_other fun s hs heq => hid ?_
    rw [hids, heq]
    exact List.mem_map_of_mem ((hrun.mem_names s).mp hs)
  · rw [hrun.nEntries_eq, ← List.toFinset_card_of_nodup hrun.nodup]
    refine congrArg Finset.card (Finset.ext fun s => ?_)
    rw [List.mem_toFinset, List.mem_toFinset, hrun.mem_names]
  · rw [hrun.entry_eq e he]
    rfl

section Properties

inductive Result
  /-- The code reads behind the end of the text. -/
  | undefined
  | null
  | text (z : Text)
  deriving DecidableEq, Repr

/-- The text with a string added, long strings as a reference; `none` where the buffer is full. -/
def compressValue (bufSize : Nat) (d : StringDictionary) (compressed value : Text) :
    Option Text × StringDictionary :=
  if value.length > 10 then
    let (dictId, d) := d.dictAddString value
    if dictId > 0 then
      let dictRef := "\"_dict\":".toList ++ Text.ofInt dictId
      (if compressed.length + dictRef.length ≥ bufSize then none else some (compressed ++ dictRef), d)
    else (some compressed, d)
  else
    (if compressed.length + value.length + 3 ≥ bufSize then none
      else some (compressed ++ quoted value), d)

/-- The scan of `graphCompressProperties`. `value` is what has been read of a string, inside
quotes; all that stands outside of strings is dropped. -/
def compressLoop (bufSize : Nat) (d : StringDictionary) (compressed : Text)
    (value : Option Text) : Text → Result × StringDictionary
  | [] =>
    if value.isSome then (.undefined, d)
    else if compressed.length + 2 ≥ bufSize then (.null, d)
    else (.text (compressed ++ ['\x7d']), d)
  | c :: p =>
    match value with
    | none => compressLoop bufSize d compressed (if c = '"' then some [] else none) p
    | some value =>
      if c ≠ '"' then compressLoop bufSize d compressed (some (value ++ [c])) p
      else
        match compressValue bufSize d compressed value with
        | (none, d) => (.null, d)
        | (some compressed, d) => compressLoop bufSize d compressed none p

def compressedPrefix : Text := "\x7b\"_compressed\":true,".toList

def graphCompressProperties (d : StringDictionary) (zProperties : Text) :
    Result × StringDictionary :=
  compressLoop (zProperties.length * 2 + 256) d compressedPrefix none zProperties

def readDictId (p : Text) : Int :=
  (p.takeWhile Char.isDigit).foldl
    (fun dictId c => (dictId * 10 + (c.toNat - 48 : Int)).bmod 18446744073709551616) 0

theorem decompressLoop_decreasing {p found : Text}
    (h : Text.strstr "_dict".toList p = some found) (hlen : ¬found.length < 7) :
    ((found.drop 7).dropWhile Char.isDigit).length < p.length := by
  have hfound := (Text.strstr_suffix h).length_le
  have hdrop := (List.dropWhile_suffix Char.isDigit (l := found.drop 7)).length_le
  rw [List.length_drop] at hdrop
  omega

/-- The loop of `graphDecompressProperties` over the references. -/
def decompressLoop (bufSize : Nat) (d : StringDictionary) (decompressed p : Text) : Result :=
  match _h : Text.strstr "_dict".toList p with
  | none =>
    if decompressed.length + 2 ≥ bufSize then .null else .text (decompressed ++ ['\x7d'])
  | some found =>
    if _hlen : found.length < 7 then .undefined
    else
      match d.dictGetString (readDictId (found.drop 7)) with
      | none => decompressLoop bufSize d decompressed ((found.drop 7).dropWhile Char.isDigit)
      | some value =>
        if decompressed.length + value.length + 3 ≥ bufSize then .null
        else decompressLoop bufSize d (decompressed ++ quoted value)
          ((found.drop 7).dropWhile Char.isDigit)
termination_by p.length
decreasing_by all_goals exact decompressLoop_decreasing _h _hlen

def graphDecompressProperties (d : StringDictionary) (zCompressed : Text) : Result :=
  if (Text.strstr "_compressed".toList zCompressed).isSome then
    decompressLoop (zCompressed.length * 4 + 256) d ['\x7b'] zCompressed
  else .text zCompressed

inductive Reachable : StringDictionary → Prop
  | init (initialBuckets : Int) : Reachable (graphInitStringDictionary initialBuckets)
  | compress {d : StringDictionary} (h : Reachable d) (zProperties : Text) :
    Reachable (graphCompressProperties d zProperties).2

/-- Decompression gives back an object with the members `ms`. -/
def RoundTrips (d : StringDictionary) (p : Text) (ms : List (Text × Json.Scalar)) : Prop :=
  ∃ z d', graphCompressProperties d p = (.text z, d') ∧
    ∃ out ms', graphDecompressProperties d' z = .text out ∧ Json.object out = some ms' ∧
      ms'.Perm ms

end Properties

end SqliteMultimodal.Graph.Compress
