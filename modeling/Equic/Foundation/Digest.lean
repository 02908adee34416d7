import Mathlib.Data.List.Basic
import Mathlib.Data.Nat.Notation

/-!
# Message digests

A digest is computed by feeding a message to a context piece by piece. `Digest` states what
a user of such an interface relies on: how the message is cut into pieces does not matter,
and the result has a fixed length. `absorb` feeds the pieces of a message in order, and
`absorb_eq` says that the context is then that of their concatenation.
-/

namespace Equic.Foundation

/-- A digest with an `init`, `update` and `final` interface. -/
structure Digest where
  Ctx : Type
  init : Ctx
  update : Ctx → List UInt8 → Ctx
  final : Ctx → List UInt8
  size : ℕ
  update_nil : ∀ c, update c [] = c
  update_append : ∀ c a b, update (update c a) b = update c (a ++ b)
  length_final : ∀ c, (final c).length = size

namespace Digest

variable (d : Digest)

/-- The digest of a whole message. -/
def hash (message : List UInt8) : List UInt8 := d.final (d.update d.init message)

/-- Feed the pieces of a message in order. -/
def absorb (c : d.Ctx) (pieces : List (List UInt8)) : d.Ctx := pieces.foldl d.update c

/-- **Chunking does not matter.** -/
theorem absorb_eq (c : d.Ctx) (pieces : List (List UInt8)) :
    d.absorb c pieces = d.update c pieces.flatten := by
  induction pieces generalizing c with
  | nil => exact (d.update_nil c).symm
  | cons piece pieces ih =>
    rw [List.flatten_cons, ← d.update_append]
    exact ih (d.update c piece)

@[simp] theorem length_hash (message : List UInt8) : (d.hash message).length = d.size :=
  d.length_final _

end Digest

end Equic.Foundation
