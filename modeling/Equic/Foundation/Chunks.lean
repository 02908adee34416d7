import Mathlib.Algebra.Order.Ring.Nat
import Mathlib.Algebra.BigOperators.Group.List.Basic

/-!
# Chunks

`chunks ns l` cuts pieces of the given lengths off a list, one behind the other. Put
together again the pieces are the beginning of the list, whatever the lengths are.
-/

namespace Equic.Foundation

variable {α : Type*}

/-- Pieces of the lengths `ns`, as long as the list lasts. -/
def chunks : List ℕ → List α → List (List α)
  | [], _ => []
  | n :: ns, l => l.take n :: chunks ns (l.drop n)

/-- **The pieces are the beginning of the list.** -/
theorem flatten_chunks (ns : List ℕ) (l : List α) : (chunks ns l).flatten = l.take ns.sum := by
  induction ns generalizing l with
  | nil => rfl
  | cons n ns ih => rw [chunks, List.flatten_cons, ih, List.sum_cons, List.take_add]

end Equic.Foundation
