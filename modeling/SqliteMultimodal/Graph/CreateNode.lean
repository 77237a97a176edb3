import SqliteMultimodal.Graph.Steps
import SqliteMultimodal.Lib.Block
import SqliteMultimodal.Lib.JsonValue
import SqliteMultimodal.Lib.TextBuffer

namespace SqliteMultimodal.Graph

section Escape

def escapeInto (nAlloc : Nat) : Text → Text → Text
  | zResult, [] => zResult
  | zResult, c :: t =>
    if zResult.length < nAlloc - 1 then
      if c = Text.quote then
        if zResult.length < nAlloc - 2 then
          escapeInto nAlloc (zResult ++ [Text.quote, Text.quote]) t
        else escapeInto nAlloc zResult t
      else escapeInto nAlloc (zResult ++ [c]) t
    else zResult

def cypherStorageEscapeString (zStr : Text) : Option Text :=
  if zStr.length * 2 + 1 < intLimit then some (escapeInto (zStr.length * 2 + 1) [] zStr) else none

theorem escapeInto_eq {nAlloc : Nat} {zResult t : Text}
    (h : zResult.length + t.length * 2 < nAlloc) :
    escapeInto nAlloc zResult t = zResult ++ Text.escape t := by
  induction t generalizing zResult with
  | nil => exact (List.append_nil _).symm
  | cons c t ih =>
    rw [List.length_cons] at h
    have hroom : zResult.length < nAlloc - 1 := by omega
    rw [escapeInto, if_pos hroom]
    by_cases hc : c = Text.quote
    · have hroom' : zResult.length < nAlloc - 2 := by omega
      have hnext : (zResult ++ [Text.quote, Text.quote]).length + t.length * 2 < nAlloc := by
        rw [List.length_append]
        exact Nat.lt_of_le_of_lt (by simp only [List.length_cons, List.length_nil]; omega) h
      rw [if_pos hc, if_pos hroom', ih hnext, List.append_assoc, hc]
      rfl
    · have hnext : (zResult ++ [c]).length + t.length * 2 < nAlloc := by
        rw [List.length_append, List.length_singleton]
        omega
      rw [if_neg hc, ih hnext, Text.escape_cons hc, List.append_assoc]
      rfl

theorem cypherStorageEscapeString_eq {zStr : Text} (h : zStr.length * 2 + 1 < intLimit) :
    cypherStorageEscapeString zStr = some (Text.escape zStr) := by
  rw [cypherStorageEscapeString, if_pos h, escapeInto_eq (by simp)]
  rfl

def escapeStores (nAlloc : Nat) : Block Char → Nat → Text → Option (Block Char × Nat)
  | zResult, nResult, [] => some (zResult, nResult)
  | zResult, nResult, c :: t =>
    if nResult < nAlloc - 1 then
      if c = Text.quote then
        if nResult < nAlloc - 2 then do
          let zResult ← zResult.store nResult Text.quote
          let zResult ← zResult.store (nResult + 1) Text.quote
          escapeStores nAlloc zResult (nResult + 2) t
        else escapeStores nAlloc zResult nResult t
      else do
        let zResult ← zResult.store nResult c
        escapeStores nAlloc zResult (nResult + 1) t
    else some (zResult, nResult)

def escapedBlock (zStr : Text) : Option (Block Char) :=
  if zStr.length * 2 + 1 < intLimit then do
    let nAlloc := zStr.length * 2 + 1
    let (zResult, nResult) ← escapeStores nAlloc (Block.alloc nAlloc) 0 zStr
    zResult.store nResult Block.nul
  else none

theorem escapeStores_filled {nAlloc : Nat} {zResult : Block Char} (w t : Text)
    (hlength : zResult.length = nAlloc) (hfilled : zResult.Filled w) (hw : w.length < nAlloc) :
    ∃ zResult', escapeStores nAlloc zResult w.length t =
        some (zResult', (escapeInto nAlloc w t).length) ∧ zResult'.length = nAlloc ∧
      zResult'.Filled (escapeInto nAlloc w t) ∧ (escapeInto nAlloc w t).length < nAlloc := by
  induction t generalizing zResult w with
  | nil => exact ⟨zResult, rfl, hlength, hfilled, hw⟩
  | cons c t ih =>
    rw [escapeStores, escapeInto]
    have hstore : ∀ d, zResult.store w.length d = some (zResult.set w.length (some d)) :=
      fun d => Block.store_eq (hlength ▸ hw) d
    have hpush : ∀ d, Block.Filled (zResult.set w.length (some d)) (w ++ [d]) :=
      fun d => hfilled.push (hlength ▸ hw) d
    by_cases hroom : w.length < nAlloc - 1
    · rw [if_pos hroom, if_pos hroom]
      by_cases hc : c = Text.quote
      · rw [if_pos hc, if_pos hc]
        by_cases hroom' : w.length < nAlloc - 2
        · rw [if_pos hroom', if_pos hroom', hstore]
          have hnext : (w ++ [Text.quote]).length <
              (zResult.set w.length (some Text.quote)).length := by
            rw [List.length_set, hlength, List.length_append, List.length_singleton]
            omega
          have hfilled' := (hpush Text.quote).push hnext Text.quote
          have hstore' := Block.store_eq hnext Text.quote
          rw [List.append_assoc] at hfilled'
          rw [List.length_append, List.length_singleton] at hstore' hfilled'
          have hrest := ih _ (by rw [List.length_set, List.length_set, hlength]) hfilled'
            (by rw [List.length_append]; exact Nat.lt_sub_iff_add_lt.mp hroom')
          rw [List.length_append] at hrest
          simp only [Option.bind_eq_bind, Option.bind_some, hstore']
          exact hrest
        · rw [if_neg hroom', if_neg hroom']
          exact ih w hlength hfilled hw
      · rw [if_neg hc, if_neg hc, hstore]
        have hrest := ih _ (by rw [List.length_set, hlength]) (hpush c)
          (by rw [List.length_append]; exact Nat.lt_sub_iff_add_lt.mp hroom)
        rw [List.length_append] at hrest
        exact hrest
    · rw [if_neg hroom, if_neg hroom]
      exact ⟨zResult, rfl, hlength, hfilled, hw⟩

theorem not_mem_escape {c : Char} (hc : c ≠ Text.quote) {t : Text} (ht : c ∉ t) :
    c ∉ Text.escape t := by
  intro h
  obtain ⟨d, hd, hmem⟩ := List.mem_flatMap.mp h
  split at hmem
  next =>
    simp only [List.mem_cons, List.not_mem_nil, or_false, or_self] at hmem
    exact hc hmem
  next => exact ht (List.mem_singleton.mp hmem ▸ hd)

/-- All stores are in the block, none of the text is cut off, and what is read of a literal with it
is the text, whatever comes after the literal. -/
theorem escapedBlock_reads_back {zStr : Text} (hnul : Block.nul ∉ zStr)
    (hlength : zStr.length < 1073741824) :
    ∃ zResult t, escapedBlock zStr = some zResult ∧ zResult.length = 2 * zStr.length + 1 ∧
      zResult.cString = some t ∧ cypherStorageEscapeString zStr = some t ∧
      Text.readLiteral (Text.quote :: (t ++ [Text.quote])) = some (zStr, []) ∧
      ∀ u, u.head? ≠ some Text.quote →
        Text.readLiteral (Text.quote :: (t ++ Text.quote :: u)) = some (zStr, u) := by
  have hlimit : zStr.length * 2 + 1 < intLimit := by
    rw [intLimit]
    omega
  obtain ⟨zResult, hstores, hsize, hfilled, hroom⟩ := escapeStores_filled [] zStr
    (Block.length_alloc (zStr.length * 2 + 1)) (Block.Filled.nil _) (Nat.succ_pos _)
  rw [escapeInto_eq (by simp), List.nil_append] at hstores hfilled hroom
  have hfilled' := hfilled.push (hsize ▸ hroom) Block.nul
  refine ⟨_, Text.escape zStr, ?_, ?_, Block.cString_of_filled hfilled'
    (not_mem_escape (by decide) hnul), cypherStorageEscapeString_eq hlimit,
    Text.readLiteral_escape zStr (u := []) (by simp), fun u => Text.readLiteral_escape zStr⟩
  · rw [escapedBlock, if_pos hlimit]
    dsimp only
    rw [List.length_nil] at hstores
    rw [hstores]
    exact Block.store_eq (hsize ▸ hroom) _
  · rw [List.length_set, hsize, Nat.mul_comm]

theorem escapedBlock_reads_back_quote : ∃ zResult t, escapedBlock [Text.quote] = some zResult ∧
    zResult.length = 3 ∧ zResult.cString = some t ∧
    Text.readLiteral (Text.quote :: (t ++ [Text.quote])) = some ([Text.quote], []) := by
  obtain ⟨zResult, t, hblock, hlength, hstring, -, hread, -⟩ :=
    @escapedBlock_reads_back [Text.quote] (by decide) (by decide)
  exact ⟨zResult, t, hblock, hlength, hstring, hread⟩

end Escape

namespace Buffered

section Code

open TextBuffer

def recordedLabels (azLabels : List Text) : Option Text :=
  if azLabels = [] then some "[]".toList
  else (openList 512 512 '[' (azLabels.map fun l => quoted (cypherSanitizeString l))).map
    (·.closeAnyway ']')

def storedLabels (azLabels : List Text) : Option Text := do
  let zEscapedLabels ← azLabels.mapM cypherStorageEscapeString
  if zEscapedLabels = [] then some "[]".toList
  else (openList 256 256 '[' (zEscapedLabels.map quoted)).map (·.close ']')

variable (host : Host)

def propertyPieces (properties : List Property) : List Text :=
  properties.map fun p => propertyText (cypherSanitizeString p.1) (createNodeValue host p.2)

def createNodeProps (properties : List Property) : Option Text :=
  if properties = [] then some "\x7b\x7d".toList
  else (openList 512 1024 '\x7b' (propertyPieces host properties)).map (·.closeAnyway '\x7d')

def cypherStorageAddNode (store : Store) (iNodeId : Int) (azLabels : List Text)
    (zProperties : Text) : Option (ResultCode × Store) := do
  let zLabelsJson ← storedLabels azLabels
  let zEscapedProps ← cypherStorageEscapeString zProperties
  match Text.literal zLabelsJson, Text.literal zEscapedProps with
  | some labels, some properties => some (insertNode store iNodeId ⟨some labels, some properties⟩)
  | _, _ => some (.error, store)

def cypherCreateNode (s : Session) (op : CreateNodeOp) : Option (ResultCode × Session) :=
  match op.check with
  | some rc => some (rc, s)
  | none =>
    let iCreatedNodeId := cypherGenerateSecureNodeId s.store op.seed
    if iCreatedNodeId ≤ 0 then some (.error, s)
    else do
      let zLabelsJson ← recordedLabels op.azLabels
      let zPropsJson ← createNodeProps host op.properties
      match cypherWriteContextBegin s with
      | (.ok, s) =>
        let s := cypherWriteContextAddOperation s
          { type := .createNode
            iNodeId := iCreatedNodeId
            zNewLabels := some zLabelsJson
            pNewValue := some (.string (some zPropsJson)) }
        match ← cypherStorageAddNode s.store iCreatedNodeId op.azLabels zPropsJson with
        | (.ok, store) => some (.ok, { s with store })
        | (rc, store) => some (rc, cypherWriteContextRollbackOp { s with store })
      | (rc, s) => some (rc, s)

end Code

end Buffered

section Names

variable {t : Text} {op : CreateNodeOp}

theorem length_of_isValidName (h : isValidName t = true) : t.length ≤ maxNameLength := by
  cases t with
  | nil => cases h
  | cons c t =>
    rw [isValidName, Bool.and_eq_true, Bool.and_eq_true, decide_eq_true_eq] at h
    exact h.1.1

theorem char_of_isValidName (h : isValidName t = true) {c : Char} (hc : c ∈ t) :
    c.isAlphanum = true ∨ c = '_' := by
  cases t with
  | nil => cases h
  | cons d t =>
    rw [isValidName, Bool.and_eq_true, Bool.and_eq_true, Bool.or_eq_true, decide_eq_true_eq,
      decide_eq_true_eq] at h
    obtain ⟨⟨-, hfirst⟩, hrest⟩ := h
    obtain rfl | hc := List.mem_cons.mp hc
    · refine hfirst.imp (fun halpha => ?_) id
      rw [Char.isAlphanum, halpha, Bool.true_or]
    · have := List.all_eq_true.mp hrest c hc
      rwa [Bool.or_eq_true, decide_eq_true_eq] at this

theorem ne_of_isValidName (h : isValidName t = true) {c d : Char} (hc : c ∈ t)
    (hd : d.isAlphanum = false) (hunder : d ≠ '_') : c ≠ d := by
  rintro rfl
  obtain halpha | rfl := char_of_isValidName h hc
  · exact absurd (hd.symm.trans halpha) Bool.false_ne_true
  · exact hunder rfl

theorem le_toNat_of_isValidName (h : isValidName t = true) {c : Char} (hc : c ∈ t) :
    32 ≤ c.toNat := by
  by_contra hlow
  have hcontrol : ∀ n < 32, (Char.ofNat n).isAlphanum = false := by decide
  have hunder : ∀ n < 32, Char.ofNat n ≠ '_' := by decide
  have hlow := not_le.mp hlow
  refine ne_of_isValidName h hc (hcontrol c.toNat hlow) (hunder c.toNat hlow) ?_
  exact (Char.ofNat_toNat c).symm

theorem plain_of_isValidName (h : isValidName t = true) : ∀ c ∈ t, Json.Plain c := fun _ hc =>
  ⟨ne_of_isValidName h hc rfl (by decide), ne_of_isValidName h hc rfl (by decide),
    le_toNat_of_isValidName h hc⟩

theorem flatMap_of_isValidName {f : Char → Text} (h : isValidName t = true)
    (hf : ∀ c, c ≠ Text.quote → c ≠ '"' → c ≠ '\\' → 32 ≤ c.toNat → f c = [c]) :
    t.flatMap f = t := by
  have hone : ∀ c ∈ t, f c = [c] := fun c hc =>
    hf c (ne_of_isValidName h hc rfl (by decide)) (plain_of_isValidName h c hc).1
      (plain_of_isValidName h c hc).2.1 (le_toNat_of_isValidName h hc)
  rw [List.flatMap_congr hone]
  exact List.flatMap_singleton' t

theorem cypherSanitizeString_of_isValidName (h : isValidName t = true) :
    cypherSanitizeString t = t := by
  refine flatMap_of_isValidName h fun c hquote hdouble hslash hlow => ?_
  rw [if_neg (not_or.mpr ⟨hquote, not_or.mpr ⟨hdouble, hslash⟩⟩), if_neg]
  exact fun hcontrol => not_lt.mpr hlow hcontrol.1

theorem escape_of_isValidName (h : isValidName t = true) : Text.escape t = t :=
  flatMap_of_isValidName h fun _ hquote _ _ _ => if_neg hquote

theorem mapM_eq_map {α β : Type} {f : α → Option β} {g : α → β} {xs : List α}
    (h : ∀ x ∈ xs, f x = some (g x)) : xs.mapM f = some (xs.map g) := by
  induction xs with
  | nil => rfl
  | cons x xs ih =>
    obtain ⟨hx, hxs⟩ := List.forall_mem_cons.mp h
    rw [List.mapM_cons, hx, ih hxs]
    rfl

theorem mapM_eq_self {α : Type} {f : α → Option α} {xs : List α} (h : ∀ x ∈ xs, f x = some x) :
    xs.mapM f = some xs := by
  rw [mapM_eq_map h, List.map_id']

theorem reject_eq_none {bad : Bool} {rc : ResultCode} : reject bad rc = none ↔ bad = false := by
  cases bad with
  | true => exact iff_of_false (Option.some_ne_none rc) (by decide)
  | false => exact iff_of_true rfl rfl

theorem checkName_eq_none {isValid : Text → Bool} (h : checkName isValid t = none) :
    isValid t = true := by
  rw [checkName, Option.orElse_eq_none, reject_eq_none] at h
  rw [← Bool.not_not (isValid t), h.1]
  rfl

theorem labels_of_check (h : op.check = none) :
    op.azLabels.length ≤ maxLabels ∧ ∀ l ∈ op.azLabels, isValidName l = true := by
  rw [CreateNodeOp.check, Option.orElse_eq_none, Option.orElse_eq_none, Option.orElse_eq_none,
    reject_eq_none, decide_eq_false_iff_not, not_lt, List.findSome?_eq_none_iff] at h
  exact ⟨h.2.1, fun l hl => checkName_eq_none (h.2.2.1 l hl)⟩

theorem names_of_check (h : op.check = none) : ∀ p ∈ op.properties, isValidName p.1 = true := by
  rw [CreateNodeOp.check, Option.orElse_eq_none, Option.orElse_eq_none, Option.orElse_eq_none,
    checkProperties, Option.orElse_eq_none] at h
  intro p hp
  have hproperty := List.findSome?_eq_none_iff.mp h.2.2.2.2 p hp
  rw [checkProperty, Option.orElse_eq_none] at hproperty
  exact checkName_eq_none hproperty.1

end Names

namespace Buffered

section Texts

open TextBuffer

variable {azLabels : List Text} {host : Host} {properties : List Property}

theorem grows_labels (hlength : azLabels.length ≤ maxLabels)
    (hnames : ∀ l ∈ azLabels, isValidName l = true) {nSlack : Nat} (hslack : nSlack ≤ 512)
    (nAlloc : Nat) : Grows nSlack nAlloc 1 (separated (azLabels.map quoted)) := by
  have hbound : ∀ ls : List Text, (∀ l ∈ ls, isValidName l = true) →
      (Text.join ',' (ls.map quoted)).length ≤ ls.length * 258 := by
    intro ls hls
    induction ls with
    | nil => exact Nat.le_refl 0
    | cons l ls ih =>
      obtain ⟨hl, hls⟩ := List.forall_mem_cons.mp hls
      have hl := length_of_isValidName hl
      have ih := ih hls
      have hquoted : (quoted l).length = l.length + 2 := by
        rw [quoted, List.length_append, List.length_cons]
        rfl
      rw [maxNameLength] at hl
      by_cases hne : ls.map quoted = []
      · rw [List.map_cons, hne, Text.join_cons_flatMap, List.flatMap_nil, List.append_nil, hquoted,
          List.length_cons]
        omega
      · rw [List.map_cons, Text.join_cons ',' _ hne, List.length_append, List.length_cons, hquoted,
          List.length_cons]
        omega
  refine grows_of_le ?_
  have h := hbound azLabels hnames
  rw [maxLabels] at hlength
  rw [flatten_separated, intLimit]
  omega

theorem openList_labels (hlength : azLabels.length ≤ maxLabels)
    (hnames : ∀ l ∈ azLabels, isValidName l = true) {nSlack nAlloc : Nat} (hslack : 2 ≤ nSlack)
    (hle : nSlack ≤ 512) (hroom : 3 < nAlloc) :
    ∃ b, openList nSlack nAlloc '[' (azLabels.map quoted) = some b ∧ b.Fits ∧
      b.text ++ [']'] = labelsJson azLabels := by
  obtain ⟨b, hopen, hfits, htext⟩ := openList_of_grows hslack hroom '['
    (grows_labels hlength hnames hle nAlloc)
  exact ⟨b, hopen, hfits, by rw [htext]; rfl⟩

theorem recordedLabels_eq (hlength : azLabels.length ≤ maxLabels)
    (hnames : ∀ l ∈ azLabels, isValidName l = true) :
    recordedLabels azLabels = some (labelsJson (azLabels.map cypherSanitizeString)) := by
  have hsanitize : azLabels.map cypherSanitizeString = azLabels := by
    rw [List.map_congr_left fun l hl => cypherSanitizeString_of_isValidName (hnames l hl)]
    exact List.map_id azLabels
  have hquoted : (azLabels.map fun l => quoted (cypherSanitizeString l)) = azLabels.map quoted :=
    List.map_congr_left fun l hl => by rw [cypherSanitizeString_of_isValidName (hnames l hl)]
  obtain ⟨b, hopen, -, htext⟩ := @openList_labels _ hlength hnames 512 512 (by decide)
    (Nat.le_refl _) (by decide)
  rw [recordedLabels, hsanitize]
  split
  next hnil => rw [hnil]; rfl
  next hne =>
    rw [hquoted, hopen, Option.map_some, closeAnyway, htext]

theorem storedLabels_eq (hlength : azLabels.length ≤ maxLabels)
    (hnames : ∀ l ∈ azLabels, isValidName l = true) :
    storedLabels azLabels = some (labelsJson azLabels) := by
  have hescape : azLabels.mapM cypherStorageEscapeString = some azLabels := by
    refine mapM_eq_self fun l hl => ?_
    have hbound := length_of_isValidName (hnames l hl)
    rw [maxNameLength] at hbound
    rw [cypherStorageEscapeString_eq (by rw [intLimit]; omega),
      escape_of_isValidName (hnames l hl)]
  obtain ⟨b, hopen, hfits, htext⟩ := @openList_labels _ hlength hnames 256 256 (by decide)
    (by decide) (by decide)
  rw [storedLabels, hescape]
  change (if azLabels = [] then some "[]".toList else _) = _
  split
  next hnil => rw [hnil]; rfl
  next hne => rw [hopen, Option.map_some, hfits.close, htext]

theorem createNodeProps_of_grows
    (h : Grows 512 1024 1 (separated (propertyPieces host properties))) :
    createNodeProps host properties = some (Graph.createNodeProps host properties) := by
  obtain ⟨b, hopen, -, htext⟩ := openList_of_grows (by decide) (by decide) '\x7b' h
  rw [createNodeProps]
  split
  next hnil => rw [hnil]; rfl
  next hne =>
    rw [hopen, Option.map_some, closeAnyway, htext]
    rfl

theorem createNodeProps_of_not_grows
    (h : ¬Grows 512 1024 1 (separated (propertyPieces host properties))) :
    createNodeProps host properties = none := by
  have hne : properties ≠ [] := by
    rintro rfl
    exact h trivial
  rw [createNodeProps, if_neg hne, openList_of_not_grows '\x7b' h]
  rfl

end Texts

section Calls

open TextBuffer

/-- The buffer for the properties grows to sizes of type `int` only, and so does the copy in which
quotes are doubled. -/
def Roomy (host : Host) (properties : List Property) : Prop :=
  Grows 512 1024 1 (separated (propertyPieces host properties)) ∧
    (Graph.createNodeProps host properties).length * 2 + 1 < intLimit

variable {host : Host} {s : Session} {op : CreateNodeOp}

theorem cypherStorageAddNode_eq (hcheck : op.check = none) (store : Store) (iNodeId : Int)
    {zProperties : Text} (h : zProperties.length * 2 + 1 < intLimit) :
    cypherStorageAddNode store iNodeId op.azLabels zProperties =
      some (Graph.cypherStorageAddNode store iNodeId op.azLabels (some zProperties)) := by
  obtain ⟨hlength, hnames⟩ := labels_of_check hcheck
  have hescape : op.azLabels.map Text.escape = op.azLabels := by
    rw [List.map_congr_left fun l hl => escape_of_isValidName (hnames l hl)]
    exact List.map_id op.azLabels
  have hlabels : Text.literal (labelsJson op.azLabels) = some (labelsJson op.azLabels) := by
    have h := Text.literal_escape (labelsJson op.azLabels)
    rwa [escape_labelsJson, hescape] at h
  rw [Graph.cypherStorageAddNode_eq]
  simp only [cypherStorageAddNode, storedLabels_eq hlength hnames, cypherStorageEscapeString_eq h,
    Option.bind_eq_bind, Option.bind_some, hlabels, Text.literal_escape]

theorem cypherCreateNode_of_roomy (hcheck : op.check = none) (h : Roomy host op.properties) :
    cypherCreateNode host s op = some (Graph.cypherCreateNode host s op) := by
  obtain ⟨hlength, hnames⟩ := labels_of_check hcheck
  rw [cypherCreateNode, Graph.cypherCreateNode, hcheck]
  dsimp only
  split
  next => rfl
  next =>
    simp only [recordedLabels_eq hlength hnames, createNodeProps_of_grows h.1,
      cypherStorageAddNode_eq hcheck _ _ h.2, Option.bind_eq_bind, Option.bind_some]
    generalize cypherWriteContextBegin s = begun
    obtain ⟨rc, t⟩ := begun
    cases rc with
    | ok =>
      dsimp only
      generalize Graph.cypherStorageAddNode _ _ _ _ = added
      obtain ⟨rc, store⟩ := added
      cases rc <;> rfl
    | _ => rfl

theorem cypherCreateNode_of_not_roomy (hcheck : op.check = none)
    (hpos : 0 < cypherGenerateSecureNodeId s.store op.seed)
    (hbegin : (cypherWriteContextBegin s).1 = .ok) (h : ¬Roomy host op.properties) :
    cypherCreateNode host s op = none := by
  obtain ⟨hlength, hnames⟩ := labels_of_check hcheck
  rw [cypherCreateNode, hcheck]
  dsimp only
  rw [if_neg (not_le.mpr hpos), recordedLabels_eq hlength hnames]
  by_cases hgrows : Grows 512 1024 1 (separated (propertyPieces host op.properties))
  · rw [createNodeProps_of_grows hgrows]
    obtain ⟨t, ht⟩ : ∃ t, cypherWriteContextBegin s = (.ok, t) := ⟨_, Prod.ext hbegin rfl⟩
    have hescape : cypherStorageEscapeString (Graph.createNodeProps host op.properties) = none :=
      if_neg fun hlimit => h ⟨hgrows, hlimit⟩
    simp only [ht, cypherStorageAddNode, storedLabels_eq hlength hnames, hescape,
      Option.bind_eq_bind, Option.bind_some, Option.bind_none]
  · rw [createNodeProps_of_not_grows hgrows]
    rfl

end Calls

end Buffered

section Specification

inductive StoredValue
  | null
  | boolean (b : Bool)
  | integer (i : Int)
  | string (z : Text)

namespace StoredValue

def cypher : StoredValue → CypherValue
  | null => .null
  | boolean b => .boolean b
  | integer i => .integer i
  | string z => .string (some z)

def json : StoredValue → Json.Value
  | null => .scalar .null
  | boolean b => .scalar (.bool b)
  | integer i => .scalar (.number (Text.ofInt i))
  | string z => .scalar (.string z)

def Survives : StoredValue → Prop
  | string z => ∀ c ∈ z, c ≠ Text.quote ∧ 32 ≤ c.toNat
  | _ => True

end StoredValue

structure PlainNode where
  zVariable : Option Text
  azLabels : List Text
  properties : List (Text × StoredValue)
  seed : Int

def PlainNode.op (node : PlainNode) : CreateNodeOp :=
  ⟨node.zVariable, node.azLabels, node.properties.map fun p => (p.1, p.2.cypher), node.seed⟩

def StoresExactly (host : Host) (node : PlainNode) : Prop :=
  ∀ s : Session, (cypherWriteContextBegin s).1 = .ok → ∃ s' zLabels zProps,
    Buffered.cypherCreateNode host s node.op = some (.ok, s') ∧
    s'.store.nodes.get (cypherGenerateSecureNodeId s.store node.seed) =
      some ⟨some zLabels, some zProps⟩ ∧
    Json.parse zLabels = some (.array (node.azLabels.map fun l => .scalar (.string l))) ∧
    Json.parse zProps = some (.object (node.properties.map fun p => (p.1, p.2.json)))

end Specification

section Texts

variable {host : Host} {n : Nat}

theorem cypherSanitizeString_cons (c : Char) (z : Text) : cypherSanitizeString (c :: z) =
    (if c = Text.quote ∨ c = '"' ∨ c = '\\' then ['\\', c]
      else if c.toNat < 32 ∧ c ≠ '\t' ∧ c ≠ '\n' ∧ c ≠ '\r' then []
      else [c]) ++ cypherSanitizeString z := List.flatMap_cons

theorem scan_escaped {c : Char} (hc : c = '"' ∨ c = '\\') (t : Text) :
    Json.scan none .plain ('\\' :: c :: t) =
      (Json.scan none .plain t).map fun r => (c :: r.1, r.2) := by
  obtain rfl | rfl := hc
  · rfl
  · rfl

theorem scan_cons {c : Char} (hc : Json.Plain c) (t : Text) : Json.scan none .plain (c :: t) =
    (Json.scan none .plain t).map fun r => (c :: r.1, r.2) := by
  rw [Json.scan, if_neg hc.1, if_neg hc.2.1, if_neg (not_lt.mpr hc.2.2)]
  rfl

theorem scan_of_survives {z : Text} (h : (StoredValue.string z).Survives) (t : Text) :
    Json.scan none .plain (cypherSanitizeString z ++ '"' :: t) = some (z, t) := by
  induction z with
  | nil => rfl
  | cons c z ih =>
    obtain ⟨⟨hquote, hlow⟩, hz⟩ := List.forall_mem_cons.mp h
    rw [cypherSanitizeString_cons]
    by_cases hc : c = '"' ∨ c = '\\'
    · rw [if_pos (.inr hc), List.append_assoc, List.cons_append, List.singleton_append,
        scan_escaped hc, ih hz]
      rfl
    · rw [if_neg (not_or.mpr ⟨hquote, hc⟩), if_neg fun hcontrol => not_lt.mpr hlow hcontrol.1,
        List.append_assoc, List.singleton_append,
        scan_cons ⟨(not_or.mp hc).1, (not_or.mp hc).2, hlow⟩, ih hz]
      rfl

theorem survives_of_scan {z t v u : Text}
    (h : Json.scan none .plain (cypherSanitizeString z ++ '"' :: t) = some (v, u)) :
    v.length ≤ z.length ∧ (v = z → (StoredValue.string z).Survives ∧ u = t) := by
  induction z generalizing v with
  | nil =>
    obtain ⟨rfl, rfl⟩ := Prod.mk.inj (Option.some.inj h)
    exact ⟨Nat.le_refl _, fun _ => ⟨fun _ hc => absurd hc List.not_mem_nil, rfl⟩⟩
  | cons c z ih =>
    have hkept : ∀ {r : Text × Text},
        Json.scan none .plain (cypherSanitizeString z ++ '"' :: t) = some r →
        (c :: r.1, r.2) = (v, u) → c ≠ Text.quote ∧ 32 ≤ c.toNat → v.length ≤ (c :: z).length ∧
          (v = c :: z → (StoredValue.string (c :: z)).Survives ∧ u = t) := by
      rintro ⟨v', u'⟩ hscan heq hc
      obtain ⟨rfl, rfl⟩ := Prod.mk.inj heq
      obtain ⟨hle, hsame⟩ := ih hscan
      refine ⟨Nat.succ_le_succ hle, fun heq => ?_⟩
      obtain ⟨hz, hu⟩ := hsame (List.cons.inj heq).2
      exact ⟨List.forall_mem_cons.mpr ⟨hc, hz⟩, hu⟩
    rw [cypherSanitizeString_cons] at h
    by_cases hquote : c = Text.quote
    · subst hquote
      cases h
    by_cases hc : c = '"' ∨ c = '\\'
    · rw [if_pos (.inr hc), List.append_assoc, List.cons_append, List.singleton_append,
        scan_escaped hc] at h
      obtain ⟨r, hscan, heq⟩ := Option.map_eq_some_iff.mp h
      refine hkept hscan heq ⟨hquote, ?_⟩
      obtain rfl | rfl := hc
      · decide
      · decide
    rw [if_neg (not_or.mpr ⟨hquote, hc⟩)] at h
    by_cases hdropped : c.toNat < 32 ∧ c ≠ '\t' ∧ c ≠ '\n' ∧ c ≠ '\r'
    · rw [if_pos hdropped, List.nil_append] at h
      obtain ⟨hle, -⟩ := ih h
      refine ⟨Nat.le_succ_of_le hle, ?_⟩
      rintro rfl
      exact absurd hle (Nat.not_succ_le_self _)
    rw [if_neg hdropped, List.append_assoc, List.singleton_append] at h
    by_cases hlow : 32 ≤ c.toNat
    · rw [scan_cons ⟨(not_or.mp hc).1, (not_or.mp hc).2, hlow⟩] at h
      obtain ⟨r, hscan, heq⟩ := Option.map_eq_some_iff.mp h
      exact hkept hscan heq ⟨hquote, hlow⟩
    · rw [Json.scan, if_neg (not_or.mp hc).1, if_neg (not_or.mp hc).2,
        if_pos (not_le.mp hlow)] at h
      cases h

theorem readsBack_stored (n : Nat) : Json.ReadsBack (Json.value (n + 1))
    (fun v : StoredValue => createNodeValue host v.cypher) (fun v x => x = v.json)
    StoredValue.Survives (Json.EndsItem '\x7d') where
  read {v t} ht hgood := by
    refine ⟨v.json, ?_, rfl⟩
    cases v with
    | null => rfl
    | boolean b => cases b <;> rfl
    | integer i => exact Json.value_printed (Json.printsNumber_ofInt i) (.inr rfl) n ht
    | string z =>
      change Json.value (n + 1) (Json.skip (quoted (cypherSanitizeString z) ++ t)) = _
      rw [quoted, List.append_assoc, List.cons_append, Json.skip_cons rfl, Json.value_quote,
        List.singleton_append, scan_of_survives hgood]
      rfl
  good {v t x u} ht hread hx := by
    cases v with
    | null => exact ⟨trivial, (Prod.mk.inj (Option.some.inj hread)).2.symm⟩
    | boolean b =>
      refine ⟨trivial, ?_⟩
      cases b with
      | true => exact (Prod.mk.inj (Option.some.inj hread)).2.symm
      | false => exact (Prod.mk.inj (Option.some.inj hread)).2.symm
    | integer i =>
      have hprinted := Json.value_printed (Json.printsNumber_ofInt i) (.inr rfl) n ht
      exact ⟨trivial, (Prod.mk.inj (Option.some.inj (hprinted.symm.trans hread))).2.symm⟩
    | string z =>
      change Json.value (n + 1) (Json.skip (quoted (cypherSanitizeString z) ++ t)) = _ at hread
      rw [quoted, List.append_assoc, List.cons_append, Json.skip_cons rfl, Json.value_quote,
        List.singleton_append] at hread
      obtain ⟨r, hscan, heq⟩ := Option.map_eq_some_iff.mp hread
      obtain ⟨rfl, rfl⟩ := Prod.mk.inj heq
      exact (survives_of_scan hscan).2 (Json.Scalar.string.inj (Json.Value.scalar.inj hx))

end Texts

section Calls

variable {host : Host} {s : Session} {op : CreateNodeOp}

theorem le_nextFree (taken : Int → Bool) (fuel : Nat) (id : Int) : id ≤ nextFree taken fuel id := by
  induction fuel generalizing id with
  | zero => exact le_refl id
  | succ fuel ih =>
    rw [nextFree]
    split
    next => exact (Int.le_add_one (le_refl id)).trans (ih (id + 1))
    next => exact le_refl id

theorem cypherGenerateSecureNodeId_pos (store : Store) {seed : Int} (h : 0 < seed) :
    0 < cypherGenerateSecureNodeId store seed := h.trans_le (le_nextFree _ _ _)

theorem cypherCreateNode_stores (hcheck : op.check = none) (hseed : 0 < op.seed)
    (hbegin : (cypherWriteContextBegin s).1 = .ok) : ∃ s',
      cypherCreateNode host s op = (.ok, s') ∧
      s'.store.nodes.get (cypherGenerateSecureNodeId s.store op.seed) =
        some ⟨some (labelsJson op.azLabels), some (createNodeProps host op.properties)⟩ := by
  have hpos := cypherGenerateSecureNodeId_pos s.store hseed
  obtain ⟨t, ht⟩ : ∃ t, cypherWriteContextBegin s = (.ok, t) := ⟨_, Prod.ext hbegin rfl⟩
  have hstore : t.store = s.store := by
    rw [← store_cypherWriteContextBegin s, ht]
  obtain ⟨nodes, hinsert, heq⟩ := insertNode_eq
    ⟨some (labelsJson op.azLabels), some (createNodeProps host op.properties)⟩ hpos
    (get_cypherGenerateSecureNodeId hpos)
  refine ⟨t.record
    { type := .createNode
      iNodeId := cypherGenerateSecureNodeId s.store op.seed
      zNewLabels := some (labelsJson (op.azLabels.map cypherSanitizeString))
      pNewValue := some (.string (some (createNodeProps host op.properties))) }
    { s.store with nodes }, ?_, ((RowTable.insert_eq_some hinsert).2 _).trans (if_pos rfl)⟩
  rw [cypherCreateNode, hcheck]
  dsimp only
  rw [if_neg (not_le.mpr hpos), ht]
  dsimp only
  rw [cypherStorageAddNode_eq, cypherWriteContextAddOperation]
  dsimp only
  rw [hstore, heq]
  rfl

end Calls

section Exactness

variable {host : Host} {node : PlainNode}

theorem names_of_node (hcheck : node.op.check = none) :
    ∀ p ∈ node.properties, isValidName p.1 = true := fun p hp =>
  names_of_check hcheck (p.1, p.2.cypher)
    (List.mem_map_of_mem (f := fun p => (p.1, p.2.cypher)) hp)

theorem createNodeProps_op (hcheck : node.op.check = none) :
    createNodeProps host node.op.properties = '\x7b' :: (Text.join ',' (node.properties.map fun p =>
      '"' :: (p.1 ++ '"' :: ':' :: createNodeValue host p.2.cypher)) ++ ['\x7d']) := by
  have hpieces : (node.properties.map fun p =>
      propertyText (cypherSanitizeString p.1) (createNodeValue host p.2.cypher)) =
        node.properties.map fun p =>
          '"' :: (p.1 ++ '"' :: ':' :: createNodeValue host p.2.cypher) := by
    refine List.map_congr_left fun p hp => ?_
    rw [cypherSanitizeString_of_isValidName (names_of_node hcheck p hp), propertyText, quoted]
    simp only [List.cons_append, List.append_assoc, List.nil_append]
  rw [← hpieces, createNodeProps, PlainNode.op, List.map_map]
  rfl

theorem parse_createNodeProps_iff (hcheck : node.op.check = none) :
    Json.parse (createNodeProps host node.op.properties) =
        some (.object (node.properties.map fun p => (p.1, p.2.json))) ↔
      ∀ p ∈ node.properties, p.2.Survives := by
  rw [createNodeProps_op hcheck]
  exact Json.parse_members_iff readsBack_stored node.properties fun p hp =>
    plain_of_isValidName (names_of_node hcheck p hp)

theorem parse_labelsJson (hcheck : node.op.check = none) :
    Json.parse (labelsJson node.azLabels) =
      some (.array (node.azLabels.map fun l => .scalar (.string l))) :=
  Json.parse_strings_iff.mpr fun l hl => plain_of_isValidName ((labels_of_check hcheck).2 l hl)

theorem StoresExactly.of_check (h : StoresExactly host node) (hcheck : node.op.check = none)
    (hseed : 0 < node.seed) :
    (∀ p ∈ node.properties, p.2.Survives) ∧ Buffered.Roomy host node.op.properties := by
  have hbegin : (cypherWriteContextBegin (cypherWriteContextCreate .empty)).1 = .ok := rfl
  obtain ⟨s', zLabels, zProps, hcreate, hget, -, hprops⟩ := h _ hbegin
  have hroomy : Buffered.Roomy host node.op.properties := by
    by_contra hroomy
    rw [Buffered.cypherCreateNode_of_not_roomy hcheck (cypherGenerateSecureNodeId_pos _ hseed)
      hbegin hroomy] at hcreate
    cases hcreate
  refine ⟨(@parse_createNodeProps_iff host node hcheck).mp ?_, hroomy⟩
  obtain ⟨t, ht, hrow⟩ := @cypherCreateNode_stores host _ _ hcheck hseed hbegin
  rw [Buffered.cypherCreateNode_of_roomy hcheck hroomy, ht] at hcreate
  obtain rfl : t = s' := (Prod.mk.inj (Option.some.inj hcreate)).2
  have hsame := (NodeRow.mk.inj (Option.some.inj (hget.symm.trans hrow))).2
  rwa [Option.some.inj hsame] at hprops

/-- The texts that are stored have what was given exactly where no string has a single quote or a
control character and the buffers do not grow too large. -/
theorem storesExactly_iff (host : Host) (node : PlainNode) (hcheck : node.op.check = none)
    (hseed : 0 < node.seed) : StoresExactly host node ↔
      (∀ p ∈ node.properties, p.2.Survives) ∧ Buffered.Roomy host node.op.properties := by
  constructor
  · exact fun h => h.of_check hcheck hseed
  · rintro ⟨hsurvives, hroomy⟩ s hbegin
    obtain ⟨s', hcreate, hrow⟩ := @cypherCreateNode_stores host _ _ hcheck hseed hbegin
    refine ⟨s', _, _, ?_, hrow, parse_labelsJson hcheck,
      (parse_createNodeProps_iff hcheck).mpr hsurvives⟩
    rw [Buffered.cypherCreateNode_of_roomy hcheck hroomy, hcreate]

def quotedNote : PlainNode where
  zVariable := some "n".toList
  azLabels := ["Page".toList]
  properties := [("note".toList, .string "it's".toList)]
  seed := 1

theorem quotedNote_check : quotedNote.op.check = none := by decide +kernel

theorem not_storesExactly_quotedNote :
    createNodeProps sampleHost quotedNote.op.properties =
        "\x7b\"note\":\"it\\'s\"\x7d".toList ∧
      ¬StoresExactly sampleHost quotedNote := by
  refine ⟨by decide +kernel, fun h => ?_⟩
  have hsurvives := (h.of_check quotedNote_check (by decide)).1 _ List.mem_cons_self
  exact (hsurvives Text.quote (by decide)).1 rfl

theorem storesExactly_quotedNote : StoresExactly sampleHost quotedNote ↔
    (∀ p ∈ quotedNote.properties, p.2.Survives) ∧
      Buffered.Roomy sampleHost quotedNote.op.properties :=
  storesExactly_iff sampleHost quotedNote quotedNote_check (by decide)

end Exactness

end SqliteMultimodal.Graph
