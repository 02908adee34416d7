import Mathlib.Tactic.Linarith
import Mathlib.Data.Int.Init

/-!
# The C type `int`

A 32-bit two's complement integer, read through `BitVec.toInt`. Stepping by one is exact
except at the end of the range; the two lemmas of §2 say so in both directions.
-/

namespace Equic.Foundation

/-! ## §1 The type -/

/-- C's `int`. -/
abbrev CInt := BitVec 32

namespace CInt

/-- `INT_MAX`. -/
def max : ℤ := 2 ^ 31 - 1

/-! ## §2 Stepping by one -/

/-- `value + 1` is exact below `INT_MAX`, and only there. -/
theorem toInt_add_one_iff (v : CInt) : (v + 1#32).toInt = v.toInt + 1 ↔ v.toInt < max := by
  have hlt := BitVec.toInt_lt (x := v)
  have hle := BitVec.le_toInt (x := v)
  have hone : (1#32).toInt = 1 := rfl
  -- `bmod` moves the sum only where it leaves the range
  rw [BitVec.toInt_add, hone, Int.bmod_def, max]
  norm_num at hlt hle ⊢
  split <;> omega

/-- `value - 1` is exact for a value that is not negative. -/
theorem toInt_sub_one {v : CInt} (hv : 0 ≤ v.toInt) : (v - 1#32).toInt = v.toInt - 1 := by
  have hlt := BitVec.toInt_lt (x := v)
  have hone : (1#32).toInt = 1 := rfl
  rw [BitVec.toInt_sub, hone, Int.bmod_def]
  norm_num at hlt ⊢
  split <;> omega

theorem eq_zero_iff (v : CInt) : v = 0#32 ↔ v.toInt = 0 := by
  constructor
  · rintro rfl
    rfl
  · intro h
    exact BitVec.eq_of_toInt_eq (by rw [h]; rfl)

end CInt

end Equic.Foundation
