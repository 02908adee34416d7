import Mathlib.Data.Nat.Digits.Defs
import Mathlib.Tactic.Ring

/-!
# Decimal numbers in C strings

`strtol` for base ten, as the standard describes it with a `long` of 64 bits: it reads the
digits at the beginning of the text and saturates. The value of the digits themselves is
`numeral`, which has no bound.
-/

namespace Equic.Foundation

/-- `isdigit` -/
def isDigit (b : UInt8) : Bool := 48 ≤ b && b ≤ 57

/-- `isspace`, in the POSIX locale. -/
def isSpace (b : UInt8) : Bool := b = 32 || 9 ≤ b && b ≤ 13

/-- The number that a string of digits denotes. -/
def numeral (s : List UInt8) : ℕ := Nat.ofDigits 10 (s.reverse.map fun b => b.toNat - 48)

/-- The digits at the beginning of the text, behind digits of value `acc`. -/
def readDigits (acc : ℕ) : List UInt8 → ℕ
  | [] => acc
  | b :: s => if isDigit b then readDigits (acc * 10 + (b.toNat - 48)) s else acc

/-- `strtol(s, NULL, 10)` -/
def strtol (s : List UInt8) : ℤ :=
  match s.dropWhile isSpace with
  | 43 :: s => min (readDigits 0 s) (2 ^ 63 - 1)
  | 45 :: s => max (-readDigits 0 s) (-2 ^ 63)
  | s => min (readDigits 0 s) (2 ^ 63 - 1)

theorem numeral_cons (b : UInt8) (s : List UInt8) :
    numeral (b :: s) = (b.toNat - 48) * 10 ^ s.length + numeral s := by
  rw [numeral, List.reverse_cons, List.map_append, Nat.ofDigits_append, List.length_map,
    List.length_reverse, List.map_singleton, Nat.ofDigits_singleton, numeral]
  ring

/-- Reading ends behind the digits. -/
theorem readDigits_append {s rest : List UInt8} (hs : ∀ b ∈ s, isDigit b)
    (hrest : ∀ b tail, rest = b :: tail → isDigit b = false) (acc : ℕ) :
    readDigits acc (s ++ rest) = acc * 10 ^ s.length + numeral s := by
  induction s generalizing acc with
  | nil =>
    have hstop : readDigits acc rest = acc := by
      cases rest with
      | nil => rfl
      | cons b tail => rw [readDigits, hrest b tail rfl, if_neg Bool.false_ne_true]
    rw [List.nil_append, hstop, List.length_nil, pow_zero, mul_one]
    rfl
  | cons b s ih =>
    obtain ⟨hb, hs⟩ := List.forall_mem_cons.mp hs
    rw [List.cons_append, readDigits, if_pos hb, ih hs, numeral_cons, List.length_cons]
    ring

/-- `strtol` on digits: their number, as far as it fits a `long`. -/
theorem strtol_append {s rest : List UInt8} (hs : ∀ b ∈ s, isDigit b) (hne : s ≠ [])
    (hrest : ∀ b tail, rest = b :: tail → isDigit b = false) :
    strtol (s ++ rest) = min (numeral s : ℤ) (2 ^ 63 - 1) := by
  have hread := readDigits_append hs hrest 0
  rw [Nat.zero_mul, Nat.zero_add] at hread
  cases s with
  | nil => exact absurd rfl hne
  | cons b s =>
    have hb := hs b List.mem_cons_self
    simp only [isDigit, Bool.and_eq_true, decide_eq_true_eq, UInt8.le_iff_toNat_le] at hb
    change 48 ≤ b.toNat ∧ b.toNat ≤ 57 at hb
    -- no space and no sign
    have hspace : ¬ isSpace b = true := by
      simp only [isSpace, Bool.or_eq_true, Bool.and_eq_true, decide_eq_true_eq]
      rintro (rfl | ⟨-, hle⟩)
      · exact absurd hb (by decide)
      · have hle : b.toNat ≤ 13 := UInt8.le_iff_toNat_le.mp hle
        omega
    rw [strtol, List.cons_append, List.dropWhile_cons_of_neg hspace]
    split
    · rename_i h
      obtain ⟨rfl, -⟩ := List.cons.inj h
      exact absurd hb (by decide)
    · rename_i h
      obtain ⟨rfl, -⟩ := List.cons.inj h
      exact absurd hb (by decide)
    · rw [← List.cons_append, hread]

end Equic.Foundation
