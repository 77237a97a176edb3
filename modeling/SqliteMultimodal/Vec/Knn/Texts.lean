import Mathlib.Data.List.TakeWhile
import SqliteMultimodal.Vec.Knn.Integers

namespace SqliteMultimodal.Vec.Knn

open Storage Except

section Strncmp

def cString (t : Bytes) : Bytes := t.takeWhile (· ≠ 0#8)

theorem cString_cons (x : BitVec 8) (t : Bytes) :
    cString (x :: t) = if x = 0#8 then [] else x :: cString t := by
  by_cases hx : x = 0#8
  · simp [cString, hx]
  · simp [cString, hx]

theorem cString_cString (t : Bytes) : cString (cString t) = cString t :=
  List.takeWhile_idem

theorem length_cString_le (t : Bytes) : (cString t).length ≤ t.length :=
  (List.takeWhile_prefix _).length_le

theorem toNat_pos {x : BitVec 8} (hx : x ≠ 0#8) : 0 < x.toNat := by
  rw [Nat.pos_iff_ne_zero]
  exact fun h => hx (BitVec.eq_of_toNat_eq h)

theorem strncmp_nil_nil (n : Nat) : strncmp [] [] n = .eq := by
  cases n <;> rfl

theorem strncmp_nil_cons (y : BitVec 8) (b : Bytes) (n : Nat) :
    strncmp [] (y :: b) (n + 1) = if y = 0#8 then .eq else .lt := by
  rw [strncmp, List.headD_nil, List.headD_cons]
  by_cases hy : y = 0#8
  · rw [if_pos hy, hy]
    rfl
  · have hcmp : compare (0#8).toNat y.toNat = .lt := Nat.compare_eq_lt.mpr (toNat_pos hy)
    rw [if_neg hy, hcmp]

theorem strncmp_cons_nil (x : BitVec 8) (a : Bytes) (n : Nat) :
    strncmp (x :: a) [] (n + 1) = if x = 0#8 then .eq else .gt := by
  rw [strncmp, List.headD_nil, List.headD_cons]
  by_cases hx : x = 0#8
  · rw [if_pos hx, hx]
    rfl
  · have hcmp : compare x.toNat (0#8).toNat = .gt := Nat.compare_eq_gt.mpr (toNat_pos hx)
    rw [if_neg hx, if_neg hx, hcmp]

theorem strncmp_cons_cons (x y : BitVec 8) (a b : Bytes) (n : Nat) :
    strncmp (x :: a) (y :: b) (n + 1) =
      if x = y then if x = 0#8 then .eq else strncmp a b n else compare x.toNat y.toNat := by
  rw [strncmp, List.headD_cons, List.headD_cons]
  by_cases hxy : x = y
  · rw [if_pos hxy, Nat.compare_eq_eq.mpr (congrArg BitVec.toNat hxy)]
    rfl
  · rw [if_neg hxy]
    cases hcmp : compare x.toNat y.toNat with
    | lt => rfl
    | gt => rfl
    | eq => exact absurd (BitVec.eq_of_toNat_eq (Nat.compare_eq_eq.mp hcmp)) hxy

theorem strncmp_of_ne {a b : Bytes} {n : Nat} (h : strncmp a b n ≠ .eq) :
    strncmp a b n = cmpBytes a b := by
  induction n generalizing a b with
  | zero => exact absurd rfl h
  | succ n ih =>
    rcases a with _ | ⟨x, a⟩ <;> rcases b with _ | ⟨y, b⟩
    · exact absurd (strncmp_nil_nil _) h
    · rw [strncmp_nil_cons] at h ⊢
      rw [if_neg (fun hy => h (if_pos hy))]
      rfl
    · rw [strncmp_cons_nil] at h ⊢
      rw [if_neg (fun hx => h (if_pos hx))]
      rfl
    · rw [strncmp_cons_cons] at h ⊢
      rw [cmpBytes]
      split at h
      next hxy =>
        rw [if_pos hxy, Nat.compare_eq_eq.mpr (congrArg BitVec.toNat hxy), Ordering.eq_then]
        split at h
        next => exact absurd rfl h
        next hx => rw [if_neg hx, ih h]
      next hxy =>
        rw [if_neg hxy]
        cases hcmp : compare x.toNat y.toNat with
        | lt => rfl
        | gt => rfl
        | eq => exact absurd hcmp h

theorem strncmp_eq_iff {a b : Bytes} {n : Nat} :
    strncmp a b n = .eq ↔ cString (a.take n) = cString (b.take n) := by
  induction n generalizing a b with
  | zero => simp [strncmp]
  | succ n ih =>
    rcases a with _ | ⟨x, a⟩ <;> rcases b with _ | ⟨y, b⟩
    · simp [strncmp_nil_nil]
    · rw [strncmp_nil_cons, List.take_nil, List.take_succ_cons, cString_cons]
      by_cases hy : y = 0#8 <;> simp [hy, cString]
    · rw [strncmp_cons_nil, List.take_nil, List.take_succ_cons, cString_cons]
      by_cases hx : x = 0#8 <;> simp [hx, cString]
    · rw [strncmp_cons_cons, List.take_succ_cons, List.take_succ_cons, cString_cons, cString_cons]
      by_cases hxy : x = y
      · subst hxy
        by_cases hx : x = 0#8
        · simp [hx]
        · simp [hx, ih]
      · have hcmp : compare x.toNat y.toNat ≠ .eq := fun h =>
          hxy (BitVec.eq_of_toNat_eq (Nat.compare_eq_eq.mp h))
        rw [if_neg hxy, iff_false_left hcmp]
        by_cases hx : x = 0#8
        · have hy : y ≠ 0#8 := fun hy => hxy (hx.trans hy.symm)
          simp [hx, hy]
        · by_cases hy : y = 0#8
          · simp [hx, hy]
          · simp [hx, hy, hxy]

end Strncmp

section Tests

variable {t target : Bytes} {full : Except ResultCode Bytes}

theorem strncmp_congr {a a' b : Bytes} {n : Nat} (h : a.take n = a'.take n) :
    strncmp a b n = strncmp a' b n := by
  induction n generalizing a a' b with
  | zero => rfl
  | succ n ih =>
    have hhead : a.headD 0#8 = a'.headD 0#8 := by
      cases a <;> cases a' <;> simp_all
    have htail : a.tail.take n = a'.tail.take n := by
      cases a <;> cases a' <;> simp_all
    rw [strncmp, strncmp, hhead, ih htail]

theorem strncmp_view {n : Nat} (hn : n ≤ min t.length 12) :
    strncmp ((textView t).drop 4) target n = strncmp t target n := by
  have htake := congrArg (List.take n) (take_drop_textView_min t)
  rw [List.take_take, List.take_take, Nat.min_eq_left hn] at htake
  exact strncmp_congr htake

theorem longText_of_full (ht : t.length < 2147483648) :
    longText (textView t) (.ok t) = .ok t := by
  rw [longText, viewLength_textView ht]
  simp [require, bind, Except.bind, pure, Except.pure]

theorem textEqual_spec (ht : t.length < 2147483648) (hfull : 12 < t.length → full = .ok t)
    {nTarget : Nat} (hlen : target.length ≤ nTarget) :
    textEqual (textView t) full nTarget target =
      .ok (decide (t.length = nTarget ∧ cString t = cString target)) := by
  unfold textEqual
  rw [viewLength_textView ht]
  dsimp only
  by_cases hn : t.length = nTarget
  · subst hn
    have hwhole : strncmp t target t.length = .eq ↔ cString t = cString target := by
      rw [strncmp_eq_iff, List.take_length, List.take_of_length_le hlen]
    rw [if_neg (by omega), toNat_min, strncmp_view le_rfl]
    by_cases hshort : t.length ≤ 12
    · rw [if_pos (by omega), Nat.min_eq_left hshort]
      simp [hwhole, pure, Except.pure]
    · rw [if_neg (by omega), hfull (by omega), longText_of_full ht]
      by_cases hprefix : strncmp t target (min t.length 12) = .eq
      · rw [if_neg (not_not.mpr hprefix), ok_bind]
        simp [hwhole, pure, Except.pure]
      · have hne : cString t ≠ cString target := fun heq => hprefix (strncmp_eq_iff.mpr (by
          rw [cString, cString, ← List.take_takeWhile, ← List.take_takeWhile]
          exact congrArg (List.take _) heq))
        rw [if_pos hprefix]
        simp [hne, pure, Except.pure]
  · rw [if_pos (by omega)]
    simp [hn, pure, Except.pure]

def comparedLength (t target : Bytes) : Nat :=
  if t.length < 12 then min t.length target.length else t.length

def Undecided (t target : Bytes) : Prop :=
  cString (t.take (comparedLength t target)) = cString (target.take (comparedLength t target))

instance decidableUndecided (t target : Bytes) : Decidable (Undecided t target) :=
  inferInstanceAs (Decidable (_ = _))

theorem undecided_iff {t target : Bytes} :
    Undecided t target ↔ strncmp t target (comparedLength t target) = .eq :=
  strncmp_eq_iff.symm

def lengthOrder (t target : Bytes) : Ordering :=
  if t.length < 12 then compare t.length target.length else .eq

theorem textRange_spec (op : CompareOp) (ht : t.length < 2147483648) (h12 : t.length ≠ 12)
    (hfull : 12 < t.length → full = .ok t) :
    textRange (textView t) full op target = .ok (op.holds
      (if Undecided t target then lengthOrder t target else cmpBytes t target)) := by
  unfold textRange
  rw [viewLength_textView ht]
  dsimp only
  by_cases hshort : t.length < 12
  · have hmin : (min (min (t.length : Int) 12) target.length).toNat = min t.length target.length := by
      omega
    have hcmp : compare (t.length : Int) (target.length : Int) = compare t.length target.length := by
      simp [Int.compare_eq_ite_lt, Nat.compare_eq_ite_lt]
    have hlen : comparedLength t target = min t.length target.length := if_pos hshort
    rw [if_pos (by omega), hmin, strncmp_view (by omega), hcmp, lengthOrder, if_pos hshort]
    by_cases heq : strncmp t target (min t.length target.length) = .eq
    · rw [if_pos heq, if_pos (undecided_iff.mpr (hlen ▸ heq))]
      rfl
    · rw [if_neg heq, if_neg fun h => heq (hlen ▸ undecided_iff.mp h), strncmp_of_ne heq]
      rfl
  · have hlen : comparedLength t target = t.length := if_neg hshort
    rw [if_neg (by omega), hfull (by omega), longText_of_full ht, ok_bind, lengthOrder,
      if_neg hshort]
    by_cases heq : strncmp t target t.length = .eq
    · rw [heq, if_pos (undecided_iff.mpr (hlen ▸ heq))]
      rfl
    · rw [if_neg fun h => heq (hlen ▸ undecided_iff.mp h), strncmp_of_ne heq]
      rfl

theorem textRange_twelve (op : CompareOp) (h12 : t.length = 12) :
    textRange (textView t) (.error sqliteError) op target = .error sqliteError := by
  unfold textRange
  rw [viewLength_textView (by omega)]
  dsimp only
  rw [if_neg (by omega)]
  rfl

theorem textIn_spec (ht : t.length < 2147483648) (hfull : 12 < t.length → full = .ok t)
    (targets : List Bytes) :
    textIn (textView t) full targets =
      .ok (targets.any fun g => decide (t.length = g.length ∧ cString t = cString g)) := by
  induction targets with
  | nil => rfl
  | cons g targets ih =>
    have hequal := textEqual_spec ht hfull (length_cString_le g)
    have hcstring : g.takeWhile (· ≠ 0#8) = cString g := rfl
    rw [cString_cString] at hequal
    rw [textIn]
    simp only [hcstring, hequal, ok_bind, List.any_cons]
    cases decide (t.length = g.length ∧ cString t = cString g) with
    | true => rfl
    | false => exact ih

end Tests

section Constraints

inductive TextConstraint
  | compare (op : CompareOp) (target : Bytes)
  | isIn (targets : List Bytes)

def TextConstraint.constraint : TextConstraint → MetadataConstraint
  | .compare op target => .compare op (.text target)
  | .isIn targets => .isIn (targets.map .text)

/-- What the constraint means for a text, whose bytes are compared by `memcmp`. -/
def TextConstraint.holds : TextConstraint → Bytes → Bool
  | .compare op target, t => op.holds (cmpBytes t target)
  | .isIn targets, t => targets.contains t

def Alike (t target : Bytes) : Prop := t.length = target.length ∧ cString t = cString target

instance decidableAlike (t target : Bytes) : Decidable (Alike t target) :=
  inferInstanceAs (Decidable (_ ∧ _))

def TextConstraint.Decided : TextConstraint → Bytes → Prop
  | .compare .eq target, t => Alike t target → t = target
  | .compare .ne target, t => Alike t target → t = target
  | .compare op target, t => t.length ≠ 12 ∧
    (Undecided t target → op.holds (lengthOrder t target) = op.holds (cmpBytes t target))
  | .isIn targets, t => (∃ target ∈ targets, Alike t target) → t ∈ targets

instance TextConstraint.decidableDecided :
    (constraint : TextConstraint) → (t : Bytes) → Decidable (constraint.Decided t)
  | .compare .eq _, _ => inferInstanceAs (Decidable (_ → _))
  | .compare .ne _, _ => inferInstanceAs (Decidable (_ → _))
  | .compare .gt _, _ => inferInstanceAs (Decidable (_ ∧ _))
  | .compare .ge _, _ => inferInstanceAs (Decidable (_ ∧ _))
  | .compare .lt _, _ => inferInstanceAs (Decidable (_ ∧ _))
  | .compare .le _, _ => inferInstanceAs (Decidable (_ ∧ _))
  | .isIn _, _ => inferInstanceAs (Decidable (_ → _))

structure HoldsText (view : Bytes) (full : Except ResultCode Bytes) (t : Bytes) : Prop where
  view : view = textView t
  lt : t.length < 2147483648
  full : 12 ≤ t.length → full = overflow t

variable {α : Type} {conv : Conversions} {s : Shadow α} {metadataIdx i : Nat} {rowids : List Rowid}
  {views : List Bytes} {t : Bytes}

theorem HoldsText.long {view : Bytes} {full : Except ResultCode Bytes} (h : HoldsText view full t)
    (hlong : 12 < t.length) : full = .ok t := by
  rw [h.full hlong.le, overflow, if_pos hlong]

theorem cmpBytes_eq_iff {a b : Bytes} : cmpBytes a b = .eq ↔ a = b :=
  ⟨eq_of_cmpBytes, fun h => h ▸ cmpBytes_self a⟩

section Slot

variable {view target : Bytes} {full : Except ResultCode Bytes} (h : HoldsText view full t)

include h

theorem textEqual_iff : textEqual view full target.length target =
    .ok (CompareOp.eq.holds (cmpBytes t target)) ↔ (Alike t target → t = target) := by
  have hself : t = target → Alike t target := fun heq => heq ▸ ⟨rfl, rfl⟩
  rw [h.view, textEqual_spec h.lt h.long le_rfl, Except.ok.injEq, CompareOp.holds, Bool.eq_iff_iff,
    decide_eq_true_iff, beq_iff_eq, cmpBytes_eq_iff]
  exact ⟨fun hiff => hiff.mp, fun himp => ⟨himp, hself⟩⟩

theorem textNotEqual_iff : textTest view full .ne target =
    .ok (CompareOp.ne.holds (cmpBytes t target)) ↔ (Alike t target → t = target) := by
  rw [← textEqual_iff h, textTest, h.view, textEqual_spec h.lt h.long le_rfl, ok_bind]
  have hne : CompareOp.ne.holds (cmpBytes t target) = !CompareOp.eq.holds (cmpBytes t target) := rfl
  rw [hne, pure_eq_ok, Except.ok.injEq, Bool.not_inj_iff]

theorem textRange_iff (op : CompareOp) :
    textRange view full op target = .ok (op.holds (cmpBytes t target)) ↔ t.length ≠ 12 ∧
      (Undecided t target → op.holds (lengthOrder t target) = op.holds (cmpBytes t target)) := by
  rw [h.view]
  by_cases h12 : t.length = 12
  · have hfull : full = .error sqliteError := by
      rw [h.full h12.ge, overflow, if_neg (by omega)]
    rw [hfull, textRange_twelve op h12]
    simp [h12]
  · rw [textRange_spec op h.lt h12 h.long, Except.ok.injEq]
    by_cases hund : Undecided t target
    · simp [hund, h12]
    · simp [hund, h12]

theorem textIn_iff (targets : List Bytes) : textIn view full targets = .ok (targets.contains t) ↔
    ((∃ target ∈ targets, Alike t target) → t ∈ targets) := by
  have hself : t ∈ targets → ∃ target ∈ targets, Alike t target := fun hmem => ⟨t, hmem, rfl, rfl⟩
  rw [h.view, textIn_spec h.lt h.long, Except.ok.injEq, Bool.eq_iff_iff, List.any_eq_true,
    List.contains_iff_mem]
  simp only [decide_eq_true_iff]
  exact ⟨fun hiff => hiff.mp, fun himp => ⟨himp, hself⟩⟩

end Slot

theorem slotTest_text_ok (conv : Conversions) (constraint : TextConstraint)
    (h : HoldsText (views.getD i [])
      (ofOption sqliteError (s.metadataText.get (metadataIdx, rowids.getD i 0))) t)
    (h12 : t.length ≠ 12) :
    ∃ b, slotTest conv s metadataIdx constraint.constraint rowids i (.text views) = .ok b := by
  cases constraint with
  | isIn targets =>
    simp only [TextConstraint.constraint, slotTest]
    rw [h.view, textIn_spec h.lt h.long]
    exact ⟨_, rfl⟩
  | compare op target =>
    simp only [TextConstraint.constraint, slotTest, conv.text_text]
    rw [h.view]
    cases op with
    | eq => exact ⟨_, textEqual_spec h.lt h.long le_rfl⟩
    | ne => exact ⟨_, by rw [textTest, textEqual_spec h.lt h.long le_rfl]; rfl⟩
    | gt => exact ⟨_, textRange_spec .gt h.lt h12 h.long⟩
    | ge => exact ⟨_, textRange_spec .ge h.lt h12 h.long⟩
    | lt => exact ⟨_, textRange_spec .lt h.lt h12 h.long⟩
    | le => exact ⟨_, textRange_spec .le h.lt h12 h.long⟩

theorem slotTest_text_iff (constraint : TextConstraint)
    (h : HoldsText (views.getD i [])
      (ofOption sqliteError (s.metadataText.get (metadataIdx, rowids.getD i 0))) t) :
    slotTest conv s metadataIdx constraint.constraint rowids i (.text views) =
        .ok (constraint.holds t) ↔ constraint.Decided t := by
  cases constraint with
  | isIn targets =>
    have hmap : (targets.map SqlValue.text).map conv.text = targets := by
      simp [Function.comp_def, conv.text_text]
    simp only [TextConstraint.constraint, slotTest, hmap]
    exact textIn_iff h targets
  | compare op target =>
    simp only [TextConstraint.constraint, slotTest, conv.text_text]
    cases op with
    | eq => exact textEqual_iff h
    | ne => exact textNotEqual_iff h
    | gt => exact textRange_iff h .gt
    | ge => exact textRange_iff h .ge
    | lt => exact textRange_iff h .lt
    | le => exact textRange_iff h .le

structure TextSlots (p : Vec0Vtab) (s : Shadow α) (metadataIdx : Nat) (c : ChunkRow)
    (views texts : List Bytes) : Prop where
  length : texts.length = p.chunkSize.val
  views_length : views.length = p.chunkSize.val
  free : ∀ i t, c.validity.get i = false → texts[i]? = some t → t = []
  slot : ∀ i t, texts[i]? = some t → HoldsText (views.getD i [])
    (ofOption sqliteError (s.metadataText.get (metadataIdx, c.rowids.getD i 0))) t

/-- Texts are filtered as by SQL if and only if the constraint can be decided for the text in each
valid slot. -/
theorem text_filter_exact_iff (conv : Conversions) {p : Vec0Vtab} (chunkId : Int32) {c : ChunkRow}
    {texts : List Bytes} (constraint : TextConstraint) (hc : s.chunks.get chunkId.toInt64 = some c)
    (hviews : s.metadataChunks.get (metadataIdx, chunkId.toInt64) = some (.text views))
    (h : TextSlots p s metadataIdx c views texts) :
    (∃ b, vec0SetMetadataFilterBitmap conv p s metadataIdx constraint.constraint chunkId.toInt64 =
        .ok b ∧ ∀ i t, c.validity.get i = true → texts[i]? = some t → b.get i = constraint.holds t) ↔
      ∀ i t, c.validity.get i = true → texts[i]? = some t → constraint.Decided t := by
  have hfits : MetadataChunk.fits p.chunkSize.val (.text views) = true :=
    decide_eq_true h.views_length
  have hrowids : filterRowids s chunkId.toInt64 (.text views) = .ok c.rowids := by
    have hint : Rowid.throughInt chunkId.toInt64 = chunkId.toInt64 := by simp [Rowid.throughInt]
    rw [filterRowids, hint, hc]
    rfl
  have hiff := filterBitmap_iff conv constraint.constraint
    (fun i => if c.validity.get i then texts[i]?.map constraint.holds else none) hviews hfits hrowids
  have hlt : ∀ {i t}, texts[i]? = some t → i < p.chunkSize.val := fun ht =>
    h.length ▸ (List.getElem?_eq_some_iff.mp ht).1
  constructor
  · rintro ⟨b, hb, hbits⟩ i t hv ht
    obtain ⟨e, he, hexpected⟩ := hiff.mp ⟨b, hb, fun i hi e he => by
      split at he
      next hv =>
        obtain ⟨t, ht, rfl⟩ := Option.map_eq_some_iff.mp he
        exact hbits i t hv ht
      next => cases he⟩ i (hlt ht)
    rw [hexpected (constraint.holds t) (by rw [if_pos hv, ht, Option.map_some])] at he
    exact (slotTest_text_iff constraint (h.slot i t ht)).mp he
  · intro hdecided
    obtain ⟨b, hb, hbits⟩ := hiff.mpr fun i hi => by
      obtain ⟨t, ht⟩ : ∃ t, texts[i]? = some t := ⟨_, List.getElem?_eq_getElem (h.length ▸ hi)⟩
      cases hv : c.validity.get i with
      | false =>
        have hnil := h.free i t hv ht
        obtain ⟨e, he⟩ := slotTest_text_ok conv constraint (h.slot i t ht) (by simp [hnil])
        exact ⟨e, he, by simp⟩
      | true =>
        refine ⟨_, (slotTest_text_iff constraint (h.slot i t ht)).mpr (hdecided i t hv ht), ?_⟩
        simp [ht]
    refine ⟨b, hb, fun i t hv ht => hbits i (hlt ht) _ ?_⟩
    rw [if_pos hv, ht, Option.map_some]

end Constraints

section Runs

variable {α ι : Type} [Zero α] {ops : IndexOps α ι} {p : Vec0Vtab} {v : Vec0 α ι} {rows : Rows α}

def slotTexts (p : Vec0Vtab) (rows : Rows α) (i : Nat) (c : ChunkRow) : List Bytes :=
  (List.range p.chunkSize.val).map fun off =>
    if c.validity.get off then (c.rowids[off]?.bind (textOf rows i)).getD [] else []

theorem textSlots_of_run (h : Run ops p v rows) {i : Nat} (hkind : p.metadataKinds[i]? = some .text)
    {chunkId : Rowid} {c : ChunkRow} (hc : v.shadow.chunks.get chunkId = some c) :
    ∃ views, v.shadow.metadataChunks.get (i, chunkId) = some (.text views) ∧
      TextSlots p v.shadow i c views (slotTexts p rows i c) := by
  obtain ⟨views, hviews, hV⟩ := (Texts.run h hkind).views hc
  have hslots := Slots.run h
  have htexts : ∀ {off t}, (slotTexts p rows i c)[off]? = some t → off < p.chunkSize.val ∧
      t = if c.validity.get off then (c.rowids[off]?.bind (textOf rows i)).getD [] else [] := by
    intro off t ht
    rw [slotTexts, List.getElem?_map, Option.map_eq_some_iff] at ht
    obtain ⟨o, ho, rfl⟩ := ht
    obtain ⟨hlt, rfl⟩ := List.getElem?_eq_some_iff.mp ho
    rw [List.getElem_range]
    exact ⟨by simpa using hlt, rfl⟩
  refine ⟨views, hviews, by simp [slotTexts], hV.length, fun off t hv ht => ?_, fun off t ht => ?_⟩
  · rw [(htexts ht).2, hv]
    rfl
  · obtain ⟨hlt, rfl⟩ := htexts ht
    cases hv : c.validity.get off with
    | false =>
      rw [List.getD_eq_getElem?_getD, hV.free hlt hv, if_neg Bool.false_ne_true]
      exact ⟨by decide, by decide, fun h12 => absurd h12 (by decide)⟩
    | true =>
      obtain ⟨r, hr⟩ : ∃ r, c.rowids[off]? = some r :=
        ⟨_, List.getElem?_eq_getElem ((hslots.sized hc).2 ▸ hlt)⟩
      obtain ⟨t, ht, hview⟩ := hV.live hv hr
      obtain ⟨row, hrow, hpos⟩ := hslots.row_of_rowid hc hv hr
      obtain ⟨_, x, -, hx, -⟩ := hslots.position hrow hpos
      obtain ⟨t', ht', hlen⟩ := (Texts.run h hkind).typed hx
      obtain rfl : t = t' := Option.some.inj (ht.symm.trans ht')
      rw [if_pos rfl, hr, Option.bind_some, ht, Option.getD_some, List.getD_eq_getElem?_getD, hview]
      refine ⟨rfl, hlen, fun _ => ?_⟩
      rw [List.getD_eq_getElem?_getD, hr, Option.getD_some,
        overflow_of_texts (Texts.run h hkind) ht]

end Runs

section Sample

theorem text_filter_sample : ∃ c b, sampleRun.1.shadow.chunks.get 1 = some c ∧
    vec0SetMetadataFilterBitmap numberConversions sampleTable sampleRun.1.shadow 0
      (.compare .ge (.text [67#8, 67#8])) 1 = .ok b ∧
    ∀ i t, c.validity.get i = true → (slotTexts sampleTable sampleRun.2 0 c)[i]? = some t →
      b.get i = CompareOp.ge.holds (cmpBytes t [67#8, 67#8]) := by
  obtain ⟨c, hc⟩ : ∃ c, sampleRun.1.shadow.chunks.get 1 = some c :=
    Option.isSome_iff_exists.mp (by decide +kernel)
  have htexts : (sampleRun.1.shadow.chunks.get 1).map (slotTexts sampleTable sampleRun.2 0) =
      some ([[], List.replicate 13 67#8] ++ List.replicate 6 []) := by decide +kernel
  rw [hc, Option.map_some, Option.some.injEq] at htexts
  have hrun : Run noIndex sampleTable sampleRun.1 sampleRun.2 := Run.exec (.create ()) sampleStatements
  obtain ⟨views, hviews, hslots⟩ := textSlots_of_run (i := 0) hrun rfl hc
  have hdecided : ∀ t ∈ slotTexts sampleTable sampleRun.2 0 c,
      (TextConstraint.compare .ge [67#8, 67#8]).Decided t := by
    rw [htexts]
    decide +kernel
  obtain ⟨b, hb, hbits⟩ := (text_filter_exact_iff numberConversions 1
    (.compare .ge [67#8, 67#8]) hc hviews hslots).mpr
      fun i t _ ht => hdecided t (List.mem_of_getElem? ht)
  exact ⟨c, b, hc, hb, hbits⟩

theorem text_filter_twelve : ¬ ∃ b, vec0SetMetadataFilterBitmap numberConversions sampleTable
    (exec noIndex (.create sampleTable ()) (fun _ => none)
      [sampleInsert .null 6 (List.replicate 12 65#8) (by decide)]).1.shadow 0
    (.compare .gt (.text [65#8])) 1 = .ok b := by
  rintro ⟨b, hb⟩
  have herror : vec0SetMetadataFilterBitmap numberConversions sampleTable
      (exec noIndex (.create sampleTable ()) (fun _ => none)
        [sampleInsert .null 6 (List.replicate 12 65#8) (by decide)]).1.shadow 0
      (.compare .gt (.text [65#8])) 1 = .error sqliteError := by decide +kernel
  rw [herror] at hb
  cases hb

end Sample

end SqliteMultimodal.Vec.Knn
