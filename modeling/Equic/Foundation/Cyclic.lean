import Mathlib.Data.List.Range
import Mathlib.Data.List.GetD
import Mathlib.Tactic.Ring

/-!
# The endless repetition of a text

`endless text` repeats a text for ever, and `segment text i k` is the piece of it from
position `i` on that has length `k`. A segment that does not reach past the end of the copy
it starts in is a piece of the text itself, and consecutive segments are one segment.
-/

namespace Equic.Foundation

variable {α : Type*} [Inhabited α]

/-- The text, repeated for ever. -/
def endless (text : List α) (i : ℕ) : α := text.getD (i % text.length) default

/-- `k` elements of the endless text from position `i` on. -/
def segment (text : List α) (i k : ℕ) : List α := (List.range' i k).map (endless text)

@[simp] theorem segment_zero (text : List α) (i : ℕ) : segment text i 0 = [] := rfl

@[simp] theorem length_segment (text : List α) (i k : ℕ) : (segment text i k).length = k := by
  simp [segment]

/-- Consecutive segments are one segment. -/
theorem segment_append (text : List α) (i k l : ℕ) :
    segment text i k ++ segment text (i + k) l = segment text i (k + l) := by
  rw [segment, segment, segment, ← List.map_append, List.range'_append_1]

/-- Within one copy a segment is a piece of the text. -/
theorem segment_eq_of_le {text : List α} {i k : ℕ} (h : i % text.length + k ≤ text.length) :
    segment text i k = (text.drop (i % text.length)).take k := by
  apply List.ext_getElem
  · simp
    omega
  · intro j hj _
    rw [length_segment] at hj
    have hmod : (i + j) % text.length = i % text.length + j := by
      rw [Nat.add_mod, Nat.mod_eq_of_lt (show j < text.length by omega)]
      apply Nat.mod_eq_of_lt
      omega
    simp only [segment, List.getElem_map, List.getElem_range', endless, one_mul, hmod]
    rw [List.getD_eq_getElem _ _ (by omega)]
    simp

end Equic.Foundation
