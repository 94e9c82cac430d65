import SqlAtlas.Proofs.Checked.Block
import SqlAtlas.Proofs.Name

/-!
# Parts of names, checked

A part is trimmed, and the two bytes at its ends are read if it is long enough to be delimited. The
parts of a spelling are then cut out of it.
-/

namespace SqlAtlas.Checked

set_option autoImplicit false

open Text

def innerSpan (raw : List Char) (part : Span) : Except Fault Span := do
  let s ← trim raw part
  let length ← sub s.stop s.start
  if length < 2 then return s
  else
    let last ← sub s.stop 1
    bytes raw ⟨s.start, s.start + 1⟩
    bytes raw ⟨last, s.stop⟩
    let chars := Text.slice raw s
    if (chars.head? == some '[' && chars.getLast? == some ']') ||
        (chars.head? == some '"' && chars.getLast? == some '"') then
      return ⟨s.start + 1, last⟩
    else return s

def partSpans (raw : List Char) : Except Fault (List Span) :=
  (partSpansFrom none 0 0 raw).mapM (innerSpan raw)

def displayName (raw : List Char) : Except Fault (List Char) := do
  let spans ← partSpans raw
  let parts ← spans.mapM (slice raw)
  return joinWithChar '.' parts

theorem innerSpan_eq {raw piece : List Char} {part : Span} (h : IsPiece raw part piece) :
    innerSpan raw part = pure (SqlAtlas.innerSpan raw part) := by
  have hle := h.trim.start_le_stop
  have hsize := h.trim.stop_le_size
  simp only [innerSpan, SqlAtlas.innerSpan, trim_eq, sub_of_le hle, pure_bind]
  by_cases hshort : (trimSpan raw part).stop - (trimSpan raw part).start < 2
  · rw [if_pos hshort, if_neg (by simp; omega)]
  · rw [if_neg hshort, sub_of_le (by omega), pure_bind, bytes_of_le (by omega) (by omega), pure_bind,
      bytes_of_le (by omega) hsize, pure_bind]
    simp only [Nat.not_lt.mp hshort, decide_true, Bool.true_and]
    split <;> rfl

theorem partSpans_eq (raw : List Char) : partSpans raw = pure (SqlAtlas.partSpans raw) := by
  apply mapM_pure_of_forall
  intro part hpart
  obtain ⟨piece, hpiece⟩ : ∃ piece, IsPiece ([] ++ raw) part piece :=
    isPiece_of_mem_partSpansFrom (isBoundary_zero ([] ++ raw)) (Nat.zero_le (size [])) hpart
  exact innerSpan_eq hpiece

theorem slices_partSpans (raw : List Char) : (SqlAtlas.partSpans raw).mapM (slice raw) =
    pure ((SqlAtlas.partSpans raw).map (Text.slice raw)) := by
  apply mapM_pure_of_forall
  intro part hpart
  obtain ⟨kept, hkept⟩ := isPiece_of_mem_partSpans hpart
  rw [slice_piece hkept, hkept.slice_eq]

theorem displayName_eq (raw : List Char) : displayName raw = pure (SqlAtlas.displayName raw) := by
  rw [displayName, partSpans_eq, pure_bind, slices_partSpans, pure_bind, SqlAtlas.displayName]

end SqlAtlas.Checked
