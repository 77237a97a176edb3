import SqliteMultimodal.Vec.Storage.Slots

namespace SqliteMultimodal.Vec.Storage

open Except

section Views

theorem viewLength_intBytes {n : Nat} (h : n < 2147483648) (rest : Bytes) :
    viewLength (intBytes n ++ rest) = n := by
  have h0 : byteAt (intBytes n ++ rest) 0 = n % 256 := by simp [byteAt, intBytes]
  have h1 : byteAt (intBytes n ++ rest) 1 = n / 256 % 256 := by simp [byteAt, intBytes]
  have h2 : byteAt (intBytes n ++ rest) 2 = n / 65536 % 256 := by simp [byteAt, intBytes]
  have h3 : byteAt (intBytes n ++ rest) 3 = n / 16777216 % 256 := by simp [byteAt, intBytes]
  have hsum : n % 256 + 256 * (n / 256 % 256) + 65536 * (n / 65536 % 256) +
      16777216 * (n / 16777216 % 256) = n := by omega
  simp only [viewLength, h0, h1, h2, h3, hsum, h, if_true]

theorem viewLength_textView {text : Bytes} (h : text.length < 2147483648) :
    viewLength (textView text) = text.length := by
  rw [textView, List.append_assoc]
  exact viewLength_intBytes h _

theorem viewLength_zeroView : viewLength zeroView = 0 := by decide

theorem take_drop_textView {text : Bytes} (h : text.length ≤ 12) :
    ((textView text).drop 4).take text.length = text := by
  have hlen : (intBytes text.length).length = 4 := rfl
  rw [textView, List.append_assoc, List.drop_append_of_le_length hlen.ge,
    List.drop_of_length_le hlen.le, List.nil_append, List.take_of_length_le h, List.take_left]

end Views

variable {α ι : Type} {p : Vec0Vtab} {i : Nat} {rows : Rows α} {s s' : Shadow α}

/-- The text that the row is meant to have in column `i`. -/
def textOf (rows : Rows α) (i : Nat) (r : Rowid) : Option Bytes :=
  (rows r).bind fun x =>
    match x.metadata[i]? with
    | some (.text t) => some t
    | _ => none

structure Views (p : Vec0Vtab) (i : Nat) (rows : Rows α) (c : ChunkRow) (views : List Bytes) :
    Prop where
  length : views.length = p.chunkSize.val
  free : ∀ {off}, off < p.chunkSize.val → c.validity.get off = false → views[off]? = some zeroView
  live : ∀ {off r}, c.validity.get off = true → c.rowids[off]? = some r →
    ∃ t, textOf rows i r = some t ∧ views[off]? = some (textView t)

structure Texts (p : Vec0Vtab) (i : Nat) (rows : Rows α) (s : Shadow α) : Prop where
  views : ∀ {chunkId c}, s.chunks.get chunkId = some c →
    ∃ views, (s.column i).1 chunkId = some (.text views) ∧ Views p i rows c views
  overflow : ∀ r, (s.column i).2 r = (textOf rows i r).filter (12 < ·.length)
  typed : ∀ {r x}, rows r = some x → ∃ t, textOf rows i r = some t ∧ t.length < 2147483648

theorem Texts.empty : Texts p i (fun _ => none) (.empty : Shadow α) where
  views h := by simp [Shadow.empty, AutoTable.empty] at h
  overflow _ := rfl
  typed h := by simp at h

theorem textOf_of_row {r : Rowid} {x : Row α} (hr : rows r = some x) {t : Bytes} :
    textOf rows i r = some t ↔ x.metadata[i]? = some (.text t) := by
  unfold textOf
  rw [hr, Option.bind_some]
  split
  next t' ht => rw [ht]; simp
  next hne =>
    constructor
    · simp
    · intro h
      exact absurd h (hne t)

theorem textOf_update_of_ne {r r' : Rowid} (hne : r ≠ r') (x : Option (Row α)) :
    textOf (Function.update rows r' x) i r = textOf rows i r := by
  rw [textOf, Function.update_of_ne hne, textOf]

namespace Views

variable {c c' : ChunkRow} {views : List Bytes} {rows' : Rows α}

theorem congr (h : Views p i rows c views)
    (hrows : ∀ {off r}, c.validity.get off = true → c.rowids[off]? = some r →
      textOf rows' i r = textOf rows i r) : Views p i rows' c views where
  length := h.length
  free := h.free
  live hv hr := by
    rw [hrows hv hr]
    exact h.live hv hr

theorem set {off : Nat} {view : Bytes} (h : Views p i rows c views) (hlt : off < p.chunkSize.val)
    (hbits : ∀ o, o ≠ off → c'.validity.get o = c.validity.get o ∧ c'.rowids[o]? = c.rowids[o]?)
    (hrows : ∀ {o r}, o ≠ off → c.validity.get o = true → c.rowids[o]? = some r →
      textOf rows' i r = textOf rows i r)
    (hfree : c'.validity.get off = false → view = zeroView)
    (hlive : ∀ {r}, c'.validity.get off = true → c'.rowids[off]? = some r →
      ∃ t, textOf rows' i r = some t ∧ view = textView t) :
    Views p i rows' c' (views.set off view) where
  length := by rw [List.length_set, h.length]
  free {o} ho hv := by
    by_cases heq : o = off
    · subst heq
      rw [List.getElem?_set_self (h.length ▸ ho), hfree hv]
    · rw [List.getElem?_set_ne (Ne.symm heq)]
      exact h.free ho ((hbits o heq).1 ▸ hv)
  live {o r} hv hr := by
    by_cases heq : o = off
    · subst heq
      obtain ⟨t, ht, rfl⟩ := hlive hv hr
      exact ⟨t, ht, List.getElem?_set_self (h.length ▸ hlt)⟩
    · obtain ⟨hbit, hrowid⟩ := hbits o heq
      rw [List.getElem?_set_ne (Ne.symm heq), hrows heq (hbit ▸ hv) (hrowid ▸ hr)]
      exact h.live (hbit ▸ hv) (hrowid ▸ hr)

end Views

theorem writeOverflow_text {t t' : Table (Nat × Rowid) Bytes} {key : Nat × Rowid}
    (old : Option Bytes) {text : Bytes} {isupdate : Bool} {prevN : Int}
    (hold : t.get key = old.filter (12 < ·.length))
    (hprev : prevN = (old.map List.length).getD 0)
    (h : writeOverflow t key prevN text isupdate = .ok t') :
    t'.get key = (some text).filter (12 < ·.length) := by
  obtain ⟨-, hlong, hshort⟩ := writeOverflow_get h
  by_cases hlen : text.length > 12
  · rw [Option.filter_some, if_pos (by simpa using hlen)]
    obtain ⟨-, hprevN, hget⟩ | hget := hlong hlen
    · cases old with
      | none => simp [hprev] at hprevN
      | some o =>
        rw [hprev, Option.map_some, Option.getD_some] at hprevN
        have ho : 12 < o.length := by omega
        rw [hget, hold, Option.filter_some, if_pos (by simpa using ho), Option.map_some]
    · exact hget
  · rw [Option.filter_some, if_neg (by simpa using hlen), hshort (by omega)]
    split
    · rfl
    next hprevN =>
      cases old with
      | none => exact hold
      | some o =>
        rw [hprev, Option.map_some, Option.getD_some] at hprevN
        have ho : ¬ 12 < o.length := by omega
        rw [hold, Option.filter_some, if_neg (by simpa using ho)]

namespace Texts

theorem overflow_of_ne {t t' : Table (Nat × Rowid) Bytes} {rowid r : Rowid} {text : Bytes}
    {isupdate : Bool} {prevN : Int}
    (h : writeOverflow t (i, rowid) prevN text isupdate = .ok t') (hne : r ≠ rowid) :
    t'.get (i, r) = t.get (i, r) :=
  (writeOverflow_get h).1 _ fun heq => hne (Prod.mk.inj heq).2

theorem congr {rows' : Rows α} (h : Texts p i rows s) (hchunks : s'.chunks = s.chunks)
    (hcolumn : s'.column i = s.column i) (htext : ∀ r, textOf rows' i r = textOf rows i r)
    (hrows : ∀ {r x}, rows' r = some x → ∃ y, rows r = some y) : Texts p i rows' s' where
  views hc := by
    rw [hcolumn]
    obtain ⟨views, hviews, hV⟩ := h.views (hchunks ▸ hc)
    exact ⟨views, hviews, hV.congr fun _ _ => htext _⟩
  overflow r := by rw [hcolumn, htext, h.overflow]
  typed hx := by
    obtain ⟨y, hy⟩ := hrows hx
    rw [htext]
    exact h.typed hy

theorem typed_update {rowid r : Rowid} {y : Option (Row α)} {x : Row α} (h : Texts p i rows s)
    (hy : ∀ x, y = some x → ∃ t, textOf (Function.update rows rowid y) i rowid = some t ∧
      t.length < 2147483648) (hx : Function.update rows rowid y r = some x) :
    ∃ t, textOf (Function.update rows rowid y) i r = some t ∧ t.length < 2147483648 := by
  by_cases hr : r = rowid
  · subst hr
    rw [Function.update_self] at hx
    exact hy x hx
  · rw [Function.update_of_ne hr] at hx
    rw [textOf_update_of_ne hr]
    exact h.typed hx

theorem slotFound [Zero α] {dimensions : List Nat} {values : List SqlValue} {s₁ : Shadow α}
    {chunkId : Rowid} {chunkOffset : Nat} (h : Texts p i rows s)
    (hkind : p.metadataKinds[i]? = some .text)
    (hslot : SlotFound p dimensions values s s₁ chunkId chunkOffset) : Texts p i rows s₁ := by
  cases hslot with
  | latest c _ _ _ _ hchunks _ hmetadata htext =>
    have hcolumn : s₁.column i = s.column i := by
      simp only [Shadow.column, hmetadata, htext]
    exact h.congr hchunks hcolumn (fun _ => rfl) fun hx => ⟨_, hx⟩
  | new hgrown _ =>
    have hi : i < p.metadataKinds.length := (List.getElem?_eq_some_iff.mp hkind).1
    have hcolumn : ∀ k, (s₁.column i).1 k = if k = chunkId
        then some (.text (List.replicate p.chunkSize.val zeroView)) else (s.column i).1 k := by
      intro k
      show s₁.metadataChunks.get (i, k) = _
      rw [hgrown.metadataChunks, hkind]
      simp only [hi, and_true]
      rfl
    exact {
      views := fun {k c} hc => by
        rw [hgrown.chunks] at hc
        rw [hcolumn]
        split at hc
        next heq =>
          obtain rfl := Option.some.inj hc
          refine ⟨_, if_pos heq, ⟨List.length_replicate, fun {off} hoff _ => ?_, fun hv _ => ?_⟩⟩
          · rw [List.getElem?_replicate, if_pos hoff]
          · exact absurd ((Bitmap.get_new _ _).symm.trans hv) (by simp)
        next hne =>
          rw [if_neg hne]
          exact h.views hc
      overflow := fun r => by
        rw [← h.overflow r]
        show s₁.metadataText.get (i, r) = s.metadataText.get (i, r)
        rw [hgrown.metadataText]
      typed := h.typed }

theorem insert [Zero α] {dimensions : List Nat} {args : InsertArgs p α}
    {vectorDatas : List (List α)} {s₁ s₂ : Shadow α} {rowid chunkId : Rowid} {chunkOffset : Nat}
    (h : Texts p i rows s) (hslots : Slots p rows s) (hkind : p.metadataKinds[i]? = some .text)
    (hins : Inserted p dimensions args vectorDatas s s₁ s₂ s' rowid chunkId chunkOffset) :
    Texts p i (Function.update rows rowid (some args.row)) s' := by
  have hi : i < args.metadata.length := by
    rw [args.length_metadata]
    exact (List.getElem?_eq_some_iff.mp hkind).1
  have hmeta := List.getElem?_eq_getElem hi
  obtain ⟨t₁, t₂, hwrite, hcol₁, hcol⟩ := writeMetadata_column_some hins.metadata
    (j := i) (v := args.metadata[i]) (by rw [List.getElem?_map, hmeta, Option.map_some])
  obtain ⟨text, views, hv, hviews, hoff, hchunk, hover⟩ := vec0WriteMetadataValue_text hkind hwrite
  rw [hv] at hmeta
  rw [hcol₁, hins.column] at hviews
  have hs₁ := h.slotFound hkind hins.slot
  obtain ⟨hslots₁, hlt, c, hc, hfree, -⟩ :=
    hslots.slotFound ⟨args.length_partitions, hins.partitions⟩ hins.slot
  obtain ⟨views', hviews', hV⟩ := hs₁.views hc
  obtain rfl : views = views' := by simpa using hviews.symm.trans hviews'
  have hne : ∀ {k c off r}, s₁.chunks.get k = some c → c.validity.get off = true →
      c.rowids[off]? = some r → r ≠ rowid :=
    fun hk hbit hr => hslots₁.ne_of_fresh hins.fresh hk hbit hr
  have hrow : textOf (Function.update rows rowid (some args.row)) i rowid = some text :=
    (textOf_of_row (Function.update_self ..)).mpr hmeta
  have hsize := hslots₁.sized hc
  have hget := hslots₁.valid_set hc hlt true
  exact {
    views := fun {k c'} hk => by
      rw [hins.chunks] at hk
      rw [hcol, hchunk]
      split at hk
      next heq =>
        rw [heq, hc, Option.map_some, Option.some.injEq] at hk
        subst hk
        refine ⟨_, if_pos heq, hV.set hlt (fun o ho => ⟨(hget o).trans (if_neg ho), ?_⟩)
          (fun {o r} ho hbit hr => textOf_update_of_ne (hne hc hbit hr) _) (fun hbit => ?_)
          fun {r} _ hr => ⟨text, ?_, rfl⟩⟩
        · rw [ChunkRow.put, List.getElem?_set_ne (Ne.symm ho)]
        · exact absurd (((hget chunkOffset).trans (if_pos rfl)).symm.trans hbit) (by simp)
        · rw [ChunkRow.put, List.getElem?_set_self (by omega)] at hr
          rw [← Option.some.inj hr, hrow]
      next hk' =>
        obtain ⟨views', hviews', hV'⟩ := hs₁.views hk
        rw [if_neg hk', hcol₁, hins.column]
        exact ⟨views', hviews', hV'.congr fun hbit hr => textOf_update_of_ne (hne hk hbit hr) _⟩
    overflow := fun r => by
      have hcolumn : ∀ r, t₁.metadataText.get (i, r) = (textOf rows i r).filter (12 < ·.length) := by
        intro r
        rw [← hs₁.overflow r, ← hins.column i, ← hcol₁]
        rfl
      rw [hcol]
      show t₂.metadataText.get (i, r) = _
      by_cases hr : r = rowid
      · subst hr
        have hnone : textOf rows i r = none := by rw [textOf, hslots.absent hins.fresh]; rfl
        have hview : views.getD chunkOffset [] = zeroView := by
          rw [List.getD_eq_getElem?_getD, hV.free hlt hfree, Option.getD_some]
        rw [hrow]
        refine writeOverflow_text none ?_ ?_ hover
        · rw [hcolumn, hnone]
        · rw [hview, viewLength_zeroView]
          rfl
      · rw [overflow_of_ne hover hr, hcolumn, textOf_update_of_ne hr]
    typed := h.typed_update fun _ _ =>
      ⟨text, hrow, args.text_lt text (List.mem_of_getElem? hmeta)⟩ }

theorem view {r chunkId : Rowid} {chunkOffset : Nat} {row : RowidsRow} (h : Texts p i rows s)
    (hslots : Slots p rows s) (hr : s.rowids.get r = some row)
    (hpos : row.position.getD (0, 0) = (chunkId, chunkOffset)) :
    ∃ c views t, InSlot p s r chunkId chunkOffset c ∧
      (s.column i).1 chunkId = some (.text views) ∧ Views p i rows c views ∧
      textOf rows i r = some t ∧ views.getD chunkOffset [] = textView t ∧
      ∀ {k c off r'}, s.chunks.get k = some c → c.validity.get off = true →
        c.rowids[off]? = some r' → (k, off) ≠ (chunkId, chunkOffset) → r' ≠ r := by
  obtain ⟨cid, off, c, x, hpos', hslot, hx, -⟩ := hslots.placed hr
  obtain ⟨rfl, rfl⟩ : cid = chunkId ∧ off = chunkOffset := by
    rwa [hpos', Option.getD_some, Prod.mk.injEq] at hpos
  obtain ⟨views, hviews, hV⟩ := h.views hslot.chunk
  obtain ⟨t, ht, hview⟩ := hV.live hslot.valid hslot.rowid
  refine ⟨c, views, t, hslot, hviews, hV, ht, ?_, ?_⟩
  · rw [List.getD_eq_getElem?_getD, hview, Option.getD_some]
  · exact fun hk hbit hr' hne => hslots.ne_of_slot_ne hr hpos' hk hbit hr' hne

theorem delete {rowid chunkId : Rowid} {chunkOffset : Nat} (h : Texts p i rows s)
    (hslots : Slots p rows s) (hkind : p.metadataKinds[i]? = some .text)
    (hdel : Deleted p s s' rowid chunkId chunkOffset) :
    Texts p i (Function.update rows rowid none) s' := by
  obtain ⟨row, hr, hpos⟩ := hdel.row
  obtain ⟨c, views, t, hslot, hviews, hV, ht, hview, hne⟩ := h.view hslots hr hpos
  obtain ⟨s₁, hcol₁, hcol⟩ := hdel.column i (List.getElem?_eq_some_iff.mp hkind).1
  rw [← hcol₁] at hviews
  obtain ⟨hchunk, htext⟩ :=
    vec0UpdateDeleteClearMetadata_text rowid chunkOffset hviews
  have hlt := hslot.lt
  have hget := hslots.valid_set hslot.chunk hlt false
  have hnone : textOf (Function.update rows rowid none) i rowid = none := by
    rw [textOf, Function.update_self, Option.bind_none]
  exact {
    views := fun {k c'} hk => by
      rw [hdel.chunks] at hk
      rw [hcol, hchunk]
      split at hk
      next heq =>
        subst heq
        rw [hslot.chunk, Option.map_some, Option.some.injEq] at hk
        subst hk
        refine ⟨_, if_pos rfl, hV.set hlt (fun o ho => ⟨(hget o).trans (if_neg ho), rfl⟩)
          (fun {o r} ho hbit hr => textOf_update_of_ne ?_ _) (fun _ => rfl) fun hbit _ => ?_⟩
        · exact hne hslot.chunk hbit hr fun heq => ho (Prod.mk.inj heq).2
        · exact absurd (((hget chunkOffset).trans (if_pos rfl)).symm.trans hbit) (by simp)
      next hk' =>
        obtain ⟨views', hviews', hV'⟩ := h.views hk
        rw [if_neg hk', hcol₁]
        exact ⟨views', hviews', hV'.congr fun hbit hr => textOf_update_of_ne
          (hne hk hbit hr fun heq => hk' (Prod.mk.inj heq).1) _⟩
    overflow := fun r => by
      rw [hcol, htext, hview, hcol₁]
      by_cases heq : r = rowid
      · subst heq
        obtain ⟨x, hx⟩ : ∃ x, rows r = some x := by
          obtain ⟨_, _, _, x, -, -, hx, -⟩ := hslots.placed hr
          exact ⟨x, hx⟩
        obtain ⟨t', ht', hlen⟩ := h.typed hx
        obtain rfl : t = t' := Option.some.inj (ht.symm.trans ht')
        rw [hnone, viewLength_textView hlen, h.overflow, ht, Option.filter_some]
        by_cases hlong : 12 < t.length
        · rw [if_pos ⟨rfl, by omega⟩]
          rfl
        · rw [if_neg (by omega), if_neg (by simpa using hlong)]
          rfl
      · rw [if_neg fun hcond => heq hcond.1, textOf_update_of_ne heq, h.overflow]
    typed := h.typed_update fun _ hx => absurd hx (by simp) }

theorem update {args : UpdateArgs p α} {rowid chunkId : Rowid} {chunkOffset : Nat}
    (h : Texts p i rows s) (hslots : Slots p rows s) (hkind : p.metadataKinds[i]? = some .text)
    (hupd : Updated p args s s' rowid chunkId chunkOffset) :
    Texts p i (Function.update rows rowid ((rows rowid).map args.row)) s' := by
  obtain ⟨row, hr, hpos⟩ := hupd.row
  obtain ⟨c, views, t, hslot, hviews, hV, ht, hview, hne⟩ := h.view hslots hr hpos
  obtain ⟨s₀, hcol₀, hmeta⟩ := hupd.metadata
  obtain ⟨x, hx⟩ : ∃ x, rows rowid = some x := by
    obtain ⟨_, _, _, x, -, -, hx, -⟩ := hslots.placed hr
    exact ⟨x, hx⟩
  obtain ⟨t', ht', hlen⟩ := h.typed hx
  obtain rfl : t = t' := Option.some.inj (ht.symm.trans ht')
  have hold := (textOf_of_row hx).mp ht
  have hi : i < args.metadata.length := by
    rw [args.length_metadata]
    exact (List.getElem?_eq_some_iff.mp hkind).1
  have hrow : ∀ {o}, args.metadata[i]? = some o →
      (args.row x).metadata[i]? = some (o.getD (.text t)) := fun ho => getElem?_overlay ho hold
  rw [hx, Option.map_some]
  cases ho : args.metadata[i] with
  | none =>
    have ho' : args.metadata[i]? = some none := by rw [List.getElem?_eq_getElem hi, ho]
    have hcol : s'.column i = s.column i := (writeMetadata_column_none hmeta ho').trans (hcol₀ i)
    have htext : ∀ r, textOf (Function.update rows rowid (some (args.row x))) i r = textOf rows i r := by
      intro r
      by_cases heq : r = rowid
      · rw [heq, ht]
        exact (textOf_of_row (Function.update_self ..)).mpr (hrow ho')
      · exact textOf_update_of_ne heq _
    refine h.congr hupd.chunks hcol htext fun {r y} hy => ?_
    by_cases heq : r = rowid
    · exact ⟨x, heq ▸ hx⟩
    · rw [Function.update_of_ne heq] at hy
      exact ⟨y, hy⟩
  | some v =>
    have ho' : args.metadata[i]? = some (some v) := by rw [List.getElem?_eq_getElem hi, ho]
    obtain ⟨t₁, t₂, hwrite, hcol₁, hcol⟩ := writeMetadata_column_some hmeta ho'
    obtain ⟨text, views', rfl, hviews', -, hchunk, hover⟩ := vec0WriteMetadataValue_text hkind hwrite
    rw [hcol₀] at hcol₁
    rw [hcol₁] at hviews'
    obtain rfl : views = views' := by simpa using hviews.symm.trans hviews'
    have htext : textOf (Function.update rows rowid (some (args.row x))) i rowid = some text :=
      (textOf_of_row (Function.update_self ..)).mpr (hrow ho')
    exact {
      views := fun {k c'} hk => by
        rw [hupd.chunks] at hk
        rw [hcol, hchunk]
        by_cases heq : k = chunkId
        · subst heq
          obtain rfl : c = c' := Option.some.inj (hslot.chunk.symm.trans hk)
          refine ⟨_, if_pos rfl, hV.set hslot.lt (fun _ _ => ⟨rfl, rfl⟩)
            (fun {o r} ho hbit hr => textOf_update_of_ne ?_ _) (fun hbit => ?_)
            fun {r} _ hr => ⟨text, ?_, rfl⟩⟩
          · exact hne hk hbit hr fun heq => ho (Prod.mk.inj heq).2
          · exact absurd (hbit.symm.trans hslot.valid) (by simp)
          · rw [← Option.some.inj (hslot.rowid.symm.trans hr), htext]
        · obtain ⟨views', hviews', hV'⟩ := h.views hk
          rw [if_neg heq, hcol₁]
          exact ⟨views', hviews', hV'.congr fun hbit hr => textOf_update_of_ne
            (hne hk hbit hr fun hcond => heq (Prod.mk.inj hcond).1) _⟩
      overflow := fun r => by
        have hcolumn : ∀ r, t₁.metadataText.get (i, r) =
            (textOf rows i r).filter (12 < ·.length) := by
          intro r
          rw [← h.overflow r, ← hcol₁]
          rfl
        rw [hcol]
        show t₂.metadataText.get (i, r) = _
        by_cases heq : r = rowid
        · subst heq
          rw [htext]
          refine writeOverflow_text (some t) ?_ ?_ hover
          · rw [hcolumn, ht]
          · rw [hview, viewLength_textView hlen]
            rfl
        · rw [overflow_of_ne hover heq, hcolumn, textOf_update_of_ne heq]
      typed := h.typed_update fun _ _ =>
        ⟨text, htext, args.text_lt text (List.mem_of_getElem? ho')⟩ }

section Statements

variable [Zero α] {ops : IndexOps α ι} {v v' : Vec0 α ι}

theorem step {stmt : Statement p α} {rowid : Rowid} (h : Texts p i rows v.shadow)
    (hslots : Slots p rows v.shadow) (hkind : p.metadataKinds[i]? = some .text)
    (hstmt : vec0Update ops p v stmt = (v', .ok rowid)) :
    Texts p i (rows.apply rowid stmt) v'.shadow := by
  cases stmt with
  | insert args =>
    obtain ⟨_, hins, -⟩ := vec0Update_insert hstmt
    obtain ⟨_, _, _, _, hins⟩ := insertShadow_spec hins
    exact h.insert hslots hkind hins
  | update args =>
    obtain ⟨s₁, _, _, hupd, hloop⟩ := vec0Update_update hstmt
    obtain ⟨_, hs'⟩ := updateVectors_frame (congrArg (fun x => x.2.2) hloop)
    rw [hs']
    exact (h.update hslots hkind (updateShadow_spec hupd)).congr rfl rfl (fun _ => rfl) fun hx => ⟨_, hx⟩
  | delete id =>
    obtain ⟨_, _, hdel⟩ := deleteShadow_spec (vec0Update_delete hstmt).1
    exact h.delete hslots hkind hdel

theorem run (h : Run ops p v rows) (hkind : p.metadataKinds[i]? = some .text) :
    Texts p i rows v.shadow := by
  induction h with
  | create index => exact Texts.empty
  | ok stmt hrun hstmt ih => exact ih.step (Slots.run hrun) hkind hstmt
  | error stmt _ hstmt ih =>
    rw [vec0Update_error hstmt]
    exact ih

end Statements

theorem read {r : Rowid} {row : RowidsRow} (h : Texts p i rows s) (hslots : Slots p rows s)
    (hr : s.rowids.get r = some row) :
    ∃ t, textOf rows i r = some t ∧ vec0ResultMetadataValueForRowid s i r = .ok (.text t) := by
  obtain ⟨chunkId, chunkOffset, c, x, hpos, hslot, hx, -⟩ := hslots.placed hr
  obtain ⟨views, hviews, hV⟩ := h.views hslot.chunk
  obtain ⟨t, ht, hview⟩ := hV.live hslot.valid hslot.rowid
  obtain ⟨t', ht', hlen⟩ := h.typed hx
  obtain rfl : t = t' := Option.some.inj (ht.symm.trans ht')
  have hposition : vec0GetChunkPosition s r = .ok (chunkId, chunkOffset) :=
    vec0GetChunkPosition_eq_ok.mpr ⟨row, hr, by rw [hpos, Option.getD_some]⟩
  have hget : s.metadataChunks.get (i, chunkId) = some (.text views) := hviews
  refine ⟨t, ht, ?_⟩
  rw [vec0ResultMetadataValueForRowid, hposition]
  simp only [bind, Except.bind, hget, hview, ofOption, viewLength_textView hlen]
  by_cases hlong : 12 < t.length
  · have hover : s.metadataText.get (i, r) = some t := by
      have := h.overflow r
      rw [ht, Option.filter_some, if_pos (by simpa using hlong)] at this
      exact this
    rw [if_neg (by omega), hover]
    rfl
  · rw [if_pos (by omega), Int.toNat_natCast, take_drop_textView (by omega)]
    rfl

end Texts

section

variable [Zero α] {ops : IndexOps α ι} {v v' : Vec0 α ι}

end

end SqliteMultimodal.Vec.Storage
