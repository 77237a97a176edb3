import SqliteMultimodal.Lib.Block
import SqliteMultimodal.Lib.Text

def intLimit : Nat := 2147483648

/-- `nUsed` is what the code counts, which is the length of the text while nothing is cut off. -/
structure TextBuffer where
  nAlloc : Nat
  nUsed : Nat
  text : Text

namespace TextBuffer

section Operations

variable (nSlack : Nat)

def print (b : TextBuffer) (t : Text) : TextBuffer :=
  ⟨b.nAlloc, b.nUsed + t.length, b.text ++ t.take (b.nAlloc - b.nUsed - 1)⟩

def reserve (b : TextBuffer) (nNeeded : Nat) : Option TextBuffer :=
  if b.nUsed + nNeeded + 2 ≥ b.nAlloc then
    if (b.nUsed + nNeeded + nSlack) * 2 < intLimit then
      some { b with nAlloc := (b.nUsed + nNeeded + nSlack) * 2 }
    else none
  else some b

def append (b : TextBuffer) (t : Text) : Option TextBuffer :=
  (b.reserve nSlack t.length).map (·.print t)

def appendAll : TextBuffer → List Text → Option TextBuffer
  | b, [] => some b
  | b, t :: ts => (b.append nSlack t).bind (·.appendAll ts)

def separated : List Text → List Text
  | [] => []
  | t :: ts => t :: ts.map (',' :: ·)

def openList (nAlloc : Nat) (opening : Char) (ts : List Text) : Option TextBuffer :=
  (print ⟨nAlloc, 0, []⟩ [opening]).appendAll nSlack (separated ts)

def close (b : TextBuffer) (closing : Char) : Text :=
  if b.nUsed + 2 < b.nAlloc then b.text ++ [closing] else b.text

def closeAnyway (b : TextBuffer) (closing : Char) : Text := b.text ++ [closing]

end Operations

section Growth

def Grows (nSlack : Nat) : Nat → Nat → List Text → Prop
  | _, _, [] => True
  | nAlloc, nUsed, t :: ts =>
    if nUsed + t.length + 2 ≥ nAlloc then
      (nUsed + t.length + nSlack) * 2 < intLimit ∧
        Grows nSlack ((nUsed + t.length + nSlack) * 2) (nUsed + t.length) ts
    else Grows nSlack nAlloc (nUsed + t.length) ts

structure Fits (b : TextBuffer) : Prop where
  used : b.nUsed = b.text.length
  room : b.nUsed + 2 < b.nAlloc

variable {nSlack : Nat} {b : TextBuffer}

theorem Fits.print {t : Text} (hused : b.nUsed = b.text.length)
    (hroom : b.nUsed + t.length + 2 < b.nAlloc) : (b.print t).Fits ∧
      (b.print t).text = b.text ++ t := by
  have htake : t.take (b.nAlloc - b.nUsed - 1) = t := List.take_of_length_le (by omega)
  refine ⟨⟨?_, hroom⟩, ?_⟩
  · rw [TextBuffer.print, htake, List.length_append, hused]
  · rw [TextBuffer.print, htake]

theorem appendAll_of_grows (hslack : 2 ≤ nSlack) {ts : List Text} (h : b.Fits)
    (hgrows : Grows nSlack b.nAlloc b.nUsed ts) : ∃ b', b.appendAll nSlack ts = some b' ∧ b'.Fits ∧
      b'.text = b.text ++ ts.flatten := by
  induction ts generalizing b with
  | nil => exact ⟨b, rfl, h, (List.append_nil _).symm⟩
  | cons t ts ih =>
    have hnext : ∀ c : TextBuffer, b.reserve nSlack t.length = some c → c.nUsed = b.nUsed →
        c.text = b.text → c.nUsed + t.length + 2 < c.nAlloc →
        Grows nSlack c.nAlloc (c.nUsed + t.length) ts →
        ∃ b', b.appendAll nSlack (t :: ts) = some b' ∧ b'.Fits ∧
          b'.text = b.text ++ (t :: ts).flatten := by
      intro c hreserve hused htext hroom hrest
      have hlength : c.nUsed = c.text.length := by rw [hused, htext, h.used]
      obtain ⟨hfits, hprint⟩ := Fits.print hlength hroom
      obtain ⟨b', happend, hfits', htext'⟩ := ih hfits hrest
      refine ⟨b', ?_, hfits', ?_⟩
      · rw [appendAll, append, hreserve]
        exact happend
      · rw [htext', hprint, htext, List.append_assoc, List.flatten_cons]
    rw [Grows] at hgrows
    by_cases hfull : b.nUsed + t.length + 2 ≥ b.nAlloc
    · rw [if_pos hfull] at hgrows
      refine hnext { b with nAlloc := (b.nUsed + t.length + nSlack) * 2 } ?_ rfl rfl ?_ hgrows.2
      · rw [reserve, if_pos hfull, if_pos hgrows.1]
      · change b.nUsed + t.length + 2 < (b.nUsed + t.length + nSlack) * 2
        omega
    · rw [if_neg hfull] at hgrows
      exact hnext b (if_neg hfull) rfl rfl (not_le.mp hfull) hgrows

theorem appendAll_of_not_grows {ts : List Text} (h : ¬Grows nSlack b.nAlloc b.nUsed ts) :
    b.appendAll nSlack ts = none := by
  induction ts generalizing b with
  | nil => exact absurd trivial h
  | cons t ts ih =>
    rw [Grows] at h
    rw [appendAll, append, reserve]
    by_cases hfull : b.nUsed + t.length + 2 ≥ b.nAlloc
    · rw [if_pos hfull] at h ⊢
      by_cases hlimit : (b.nUsed + t.length + nSlack) * 2 < intLimit
      · rw [if_pos hlimit]
        exact ih fun hrest => h ⟨hlimit, hrest⟩
      · rw [if_neg hlimit]
        rfl
    · rw [if_neg hfull] at h ⊢
      exact ih h

theorem grows_of_le {ts : List Text} {nAlloc nUsed : Nat}
    (h : (nUsed + ts.flatten.length + nSlack) * 2 < intLimit) : Grows nSlack nAlloc nUsed ts := by
  induction ts generalizing nAlloc nUsed with
  | nil => exact trivial
  | cons t ts ih =>
    rw [List.flatten_cons, List.length_append, ← Nat.add_assoc] at h
    rw [Grows]
    split
    next => exact ⟨by omega, ih h⟩
    next => exact ih h

theorem Fits.close (h : b.Fits) (closing : Char) : b.close closing = b.text ++ [closing] :=
  if_pos h.room

theorem flatten_separated (ts : List Text) : (separated ts).flatten = Text.join ',' ts := by
  cases ts with
  | nil => rfl
  | cons t ts =>
    rw [separated, Text.join_cons_flatMap, List.flatten_cons]
    rfl

theorem openList_of_grows (hslack : 2 ≤ nSlack) {nAlloc : Nat} (hroom : 3 < nAlloc) (opening : Char)
    {ts : List Text} (h : Grows nSlack nAlloc 1 (separated ts)) :
    ∃ b, openList nSlack nAlloc opening ts = some b ∧ b.Fits ∧
      b.text = opening :: Text.join ',' ts := by
  obtain ⟨hfits, htext⟩ := @Fits.print ⟨nAlloc, 0, []⟩ [opening] rfl hroom
  obtain ⟨b, happend, hb, hflatten⟩ := appendAll_of_grows hslack hfits h
  refine ⟨b, happend, hb, ?_⟩
  rw [hflatten, htext, flatten_separated]
  rfl

theorem openList_of_not_grows {nAlloc : Nat} (opening : Char) {ts : List Text}
    (h : ¬Grows nSlack nAlloc 1 (separated ts)) : openList nSlack nAlloc opening ts = none :=
  appendAll_of_not_grows h

end Growth

end TextBuffer

structure GrowingBlock where
  cells : Block Char
  nUsed : Nat

namespace GrowingBlock

section Operations

variable (nSlack : Nat)

def create (nAlloc : Nat) : GrowingBlock := ⟨Block.alloc nAlloc, 0⟩

def nAlloc (b : GrowingBlock) : Nat := b.cells.length

def reserve (b : GrowingBlock) (nTotal : Nat) : Option GrowingBlock :=
  if nTotal + 2 ≥ b.nAlloc then
    if (nTotal + nSlack) * 2 < intLimit then
      some { b with cells := b.cells.realloc ((nTotal + nSlack) * 2) }
    else none
  else some b

def print (b : GrowingBlock) (t : Text) : Option GrowingBlock :=
  (b.cells.storeAll b.nUsed (t.take (b.nAlloc - b.nUsed - 1) ++ [Block.nul])).map
    fun cells => ⟨cells, b.nUsed + t.length⟩

def copy (b : GrowingBlock) (t : Text) : Option GrowingBlock :=
  (b.cells.storeAll b.nUsed t).map fun cells => ⟨cells, b.nUsed + t.length⟩

def printAll : GrowingBlock → List Text → Option GrowingBlock
  | b, [] => some b
  | b, t :: ts => (b.reserve nSlack (b.nUsed + t.length)).bind fun b =>
      (b.print t).bind fun b => b.printAll ts

def close (b : GrowingBlock) (closing : Char) : Option (Block Char) :=
  if b.nUsed + 2 < b.nAlloc then b.cells.storeAll b.nUsed [closing, Block.nul] else some b.cells

end Operations

structure Holds (b : GrowingBlock) (t : Text) (nRoom : Nat) : Prop where
  filled : b.cells.Filled t
  used : b.nUsed = t.length
  room : t.length + nRoom + 2 < b.nAlloc

variable {b : GrowingBlock} {t u : Text} {nSlack n : Nat}

theorem holds_create {nAlloc : Nat} (h : n + 2 < nAlloc) : (create nAlloc).Holds [] n where
  filled := Block.Filled.nil _
  used := rfl
  room := by
    rw [List.length_nil, Nat.zero_add]
    exact h.trans_eq (Block.length_alloc nAlloc).symm

theorem Holds.reserve (h : b.Holds t 0) (nRoom : Nat) (hslack : 2 ≤ nSlack)
    (hlimit : (t.length + nRoom + nSlack) * 2 < intLimit) :
    ∃ b', b.reserve nSlack (t.length + nRoom) = some b' ∧ b'.Holds t nRoom := by
  rw [GrowingBlock.reserve]
  by_cases hfull : t.length + nRoom + 2 ≥ b.nAlloc
  · rw [if_pos hfull, if_pos hlimit]
    refine ⟨_, rfl, h.filled.realloc (by omega), h.used, ?_⟩
    rw [nAlloc, Block.length_realloc]
    omega
  · rw [if_neg hfull]
    exact ⟨b, rfl, h.filled, h.used, not_le.mp hfull⟩

theorem Holds.copy (h : b.Holds t (u.length + n)) :
    ∃ b', b.copy u = some b' ∧ b'.Holds (t ++ u) n := by
  have hroom := h.room
  rw [nAlloc] at hroom
  obtain ⟨cells, hstore, hlength, hfilled⟩ := h.filled.pushAll u (by omega)
  refine ⟨⟨cells, b.nUsed + u.length⟩, ?_, hfilled, ?_, ?_⟩
  · rw [GrowingBlock.copy, h.used, hstore]
    rfl
  · rw [h.used, List.length_append]
  · rw [nAlloc, hlength, List.length_append]
    omega

theorem Holds.print (h : b.Holds t u.length) :
    ∃ b', b.print u = some b' ∧ b'.Holds (t ++ u) 0 := by
  have hroom := h.room
  have htake : u.take (b.nAlloc - b.nUsed - 1) = u :=
    List.take_of_length_le (by rw [h.used]; omega)
  rw [nAlloc] at hroom
  obtain ⟨cells, hstore, hlength, hfilled⟩ := h.filled.pushAll (u ++ [Block.nul])
    (by rw [List.length_append, List.length_singleton]; omega)
  rw [← List.append_assoc] at hfilled
  refine ⟨⟨cells, b.nUsed + u.length⟩, ?_, hfilled.left, ?_, ?_⟩
  · rw [GrowingBlock.print, htake, h.used, hstore]
    rfl
  · rw [h.used, List.length_append]
  · rw [nAlloc, hlength, List.length_append]
    exact hroom

theorem Holds.printAll (h : b.Holds t 0) (ts : List Text) (hslack : 2 ≤ nSlack)
    (hlimit : (t.length + ts.flatten.length + nSlack) * 2 < intLimit) :
    ∃ b', b.printAll nSlack ts = some b' ∧ b'.Holds (t ++ ts.flatten) 0 := by
  induction ts generalizing b t with
  | nil => exact ⟨b, rfl, by rwa [List.flatten_nil, List.append_nil]⟩
  | cons u ts ih =>
    rw [List.flatten_cons, List.length_append] at hlimit
    obtain ⟨b₁, hreserve, hb₁⟩ := h.reserve u.length hslack (by omega)
    obtain ⟨b₂, hprint, hb₂⟩ := hb₁.print
    obtain ⟨b₃, hall, hb₃⟩ := ih hb₂ (by rw [List.length_append]; omega)
    refine ⟨b₃, ?_, ?_⟩
    · rw [GrowingBlock.printAll, h.used, hreserve, Option.bind_some, hprint, Option.bind_some, hall]
    · rwa [List.flatten_cons, ← List.append_assoc]

theorem Holds.close (h : b.Holds t 0) (closing : Char) :
    ∃ cells, b.close closing = some cells ∧ cells.Filled (t ++ [closing] ++ [Block.nul]) := by
  have hroom := h.room
  rw [GrowingBlock.close, if_pos (h.used ▸ hroom), h.used]
  rw [nAlloc] at hroom
  obtain ⟨cells, hstore, -, hfilled⟩ := h.filled.pushAll [closing, Block.nul]
    (by rw [List.length_cons, List.length_singleton]; omega)
  exact ⟨cells, hstore, by rwa [List.append_assoc]⟩

end GrowingBlock
