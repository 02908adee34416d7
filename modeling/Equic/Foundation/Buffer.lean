import Mathlib.Data.List.Basic
import Mathlib.Data.Nat.Notation

/-!
# Buffers

A buffer is the list of its elements. `realloc` grows one, the new part holding whatever
was in memory, and `overwrite` copies elements into one at an offset. The lemmas follow a
write that starts where the meaningful part of the buffer ends: it makes that part longer
by what is written.
-/

namespace Equic.Foundation

variable {α : Type*}

/-- `memcpy(buf + off, chunk, n)` -/
def overwrite (buf : List α) (off : ℕ) (chunk : List α) : List α :=
  buf.take off ++ chunk ++ buf.drop (off + chunk.length)

/-- `realloc(buf, n)`: at position `i` of the new part memory holds `junk i`. -/
def realloc (junk : ℕ → α) (buf : List α) (n : ℕ) : List α :=
  buf.take n ++ (List.range' buf.length (n - buf.length)).map junk

/-- A write behind the meaningful part extends it. -/
theorem overwrite_append (a b c : List α) :
    overwrite (a ++ b) a.length c = a ++ c ++ b.drop c.length := by
  simp only [overwrite, List.take_left, List.drop_append]
  simp

/-- Growing a buffer keeps what it held. -/
theorem realloc_eq_append (junk : ℕ → α) {buf : List α} {n : ℕ} (h : buf.length ≤ n) :
    ∃ rest, realloc junk buf n = buf ++ rest ∧ rest.length = n - buf.length :=
  ⟨_, by rw [realloc, List.take_of_length_le h], by simp⟩

end Equic.Foundation
