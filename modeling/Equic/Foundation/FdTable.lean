import Mathlib.Data.List.Basic
import Mathlib.Data.Nat.Notation

/-!
# Descriptor tables

The open descriptors of a process. `open` takes the lowest descriptor that is not in use, and
`close` of a descriptor that is not in use does nothing. What the operations do to a lookup
is all that their users need.
-/

namespace Equic.Foundation

/-- For each descriptor what it stands for, if it is in use. -/
abbrev FdTable (α : Type*) := List (Option α)

namespace FdTable

variable {α : Type*} (t : FdTable α)

/-- What a descriptor stands for. -/
def lookup (fd : ℕ) : Option α := t[fd]?.join

/-- The lowest descriptor that is not in use. -/
def lowest : ℕ := t.findIdx Option.isNone

/-- The table after `open`, which returns `lowest`. -/
def openFd (a : α) : FdTable α :=
  if t.lowest < t.length then t.set t.lowest (some a) else t ++ [some a]

/-- The table after `close`. -/
def closeFd (fd : ℕ) : FdTable α := t.set fd none

theorem lookup_lowest : t.lookup t.lowest = none := by
  unfold lookup lowest
  by_cases h : t.findIdx Option.isNone < t.length
  · have hnone := List.findIdx_getElem (w := h)
    rw [List.getElem?_eq_getElem h, Option.join_some]
    exact Option.isNone_iff_eq_none.mp hnone
  · rw [List.getElem?_eq_none (Nat.le_of_not_lt h)]
    rfl

/-- No descriptor below it is free. -/
theorem lookup_isSome_of_lt_lowest {fd : ℕ} (h : fd < t.lowest) : (t.lookup fd).isSome := by
  have hlen : fd < t.length := Nat.lt_of_lt_of_le h List.findIdx_le_length
  have hused := List.not_of_lt_findIdx h
  rw [lookup, List.getElem?_eq_getElem hlen, Option.join_some]
  simpa using hused

theorem lookup_openFd (a : α) (fd : ℕ) :
    (t.openFd a).lookup fd = if fd = t.lowest then some a else t.lookup fd := by
  unfold openFd
  by_cases hlt : t.lowest < t.length
  · rw [if_pos hlt]
    unfold lookup
    split
    · rename_i heq
      rw [heq, List.getElem?_set_self hlt, Option.join_some]
    · rename_i hne
      rw [List.getElem?_set_ne (Ne.symm hne)]
  · have hend : t.lowest = t.length := Nat.le_antisymm List.findIdx_le_length (Nat.le_of_not_lt hlt)
    rw [if_neg hlt, hend]
    unfold lookup
    split
    · rename_i heq
      rw [heq, List.getElem?_append_right (Nat.le_refl _)]
      simp
    · rename_i hne
      by_cases hfd : fd < t.length
      · rw [List.getElem?_append_left hfd]
      · rw [List.getElem?_eq_none (Nat.le_of_not_lt hfd), List.getElem?_eq_none]
        simp only [List.length_append, List.length_singleton]
        omega

theorem lookup_closeFd (fd fd' : ℕ) :
    (t.closeFd fd).lookup fd' = if fd' = fd then none else t.lookup fd' := by
  unfold closeFd lookup
  split
  · rename_i heq
    subst heq
    by_cases hlt : fd' < t.length
    · rw [List.getElem?_set_self hlt]
      rfl
    · rw [List.getElem?_eq_none (by simpa using hlt)]
      rfl
  · rename_i hne
    rw [List.getElem?_set_ne (Ne.symm hne)]

end FdTable

end Equic.Foundation
