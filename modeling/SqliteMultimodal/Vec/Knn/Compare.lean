import SqliteMultimodal.Vec.Knn.Filter
import SqliteMultimodal.Vec.Storage.Text

namespace SqliteMultimodal.Vec

theorem cmpBytes_self (a : Bytes) : cmpBytes a a = .eq := by
  induction a with
  | nil => rfl
  | cons x xs ih => simp [cmpBytes, ih]

theorem eq_of_cmpBytes {a b : Bytes} (h : cmpBytes a b = .eq) : a = b := by
  induction a generalizing b with
  | nil =>
    cases b with
    | nil => rfl
    | cons y ys => simp [cmpBytes] at h
  | cons x xs ih =>
    cases b with
    | nil => simp [cmpBytes] at h
    | cons y ys =>
      rw [cmpBytes, Ordering.then_eq_eq, Nat.compare_eq_eq] at h
      rw [BitVec.eq_of_toNat_eq h.1, ih h.2]

namespace Knn

open Storage Except

section Strncmp

end Strncmp

section Text

variable {t target : Bytes} {full : Except ResultCode Bytes}

theorem take_drop_textView_min (t : Bytes) :
    ((textView t).drop 4).take (min t.length 12) = t.take (min t.length 12) := by
  have hlen : (intBytes t.length).length = 4 := rfl
  rw [textView, List.append_assoc, List.drop_append_of_le_length hlen.ge,
    List.drop_of_length_le hlen.le, List.nil_append,
    List.take_append_of_le_length (by rw [List.length_take]; omega), List.take_take]
  congr 1
  omega

/-- What the overflow table gives for a row with the text `t`. -/
def overflow (t : Bytes) : Except ResultCode Bytes :=
  if 12 < t.length then .ok t else .error sqliteError

theorem overflow_of_texts {α : Type} {p : Vec0Vtab} {i : Nat} {rows : Rows α} {s : Shadow α}
    {r : Rowid} (h : Texts p i rows s) (ht : textOf rows i r = some t) :
    ofOption sqliteError (s.metadataText.get (i, r)) = overflow t := by
  have hover : s.metadataText.get (i, r) = (textOf rows i r).filter (12 < ·.length) := h.overflow r
  rw [hover, ht, Option.filter_some, overflow]
  simp only [decide_eq_true_eq]
  split <;> rfl

theorem toNat_min (n : Nat) : (min (n : Int) 12).toNat = min n 12 := by omega

end Text

section Numbers

end Numbers

end Knn

end SqliteMultimodal.Vec
