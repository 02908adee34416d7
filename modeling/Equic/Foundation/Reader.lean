import Mathlib.Data.List.Basic
import Mathlib.Data.Nat.Notation

/-!
# Readers

A reader hands out a text piece by piece: it reports how much is left, and a read of up to
`n` bytes returns the next bytes. `Reader` states what a user of such an interface relies
on, among it that no read fails. `ofBytes` reads from memory, `feed` makes several reads in
a row, and `capped` is a reader that stops after a number of bytes, built on another one.
-/

namespace Equic.Foundation

/-- A reader with a `size` and a `read` interface. -/
structure Reader where
  Ctx : Type
  size : Ctx → ℕ
  read : Ctx → ℕ → Ctx × List UInt8
  /-- What is left. -/
  rest : Ctx → List UInt8
  size_eq : ∀ c, size c = (rest c).length
  read_append_rest : ∀ c n, (read c n).2 ++ rest (read c n).1 = rest c
  length_read_le : ∀ c n, (read c n).2.length ≤ n

namespace Reader

/-- A reader over a text in memory. -/
def ofBytes : Reader where
  Ctx := List UInt8
  size c := c.length
  read c n := (c.drop n, c.take n)
  rest c := c
  size_eq _ := rfl
  read_append_rest c n := List.take_append_drop n c
  length_read_le c n := List.length_take_le n c

variable (r : Reader)

/-- Reads into buffers of the sizes `counts`, one after the other. -/
def feed (c : r.Ctx) : List ℕ → r.Ctx × List UInt8
  | [] => (c, [])
  | count :: counts =>
    let (c, bytes) := r.read c count
    let (c, more) := feed c counts
    (c, bytes ++ more)

/-- **Nothing is lost and nothing comes twice.** -/
theorem feed_append_rest (c : r.Ctx) (counts : List ℕ) :
    (r.feed c counts).2 ++ r.rest (r.feed c counts).1 = r.rest c := by
  induction counts generalizing c with
  | nil => rfl
  | cons count counts ih =>
    calc (r.feed c (count :: counts)).2 ++ r.rest (r.feed c (count :: counts)).1
      _ = (r.read c count).2 ++ ((r.feed (r.read c count).1 counts).2 ++
            r.rest (r.feed (r.read c count).1 counts).1) := List.append_assoc _ _ _
      _ = (r.read c count).2 ++ r.rest (r.read c count).1 := by rw [ih]
      _ = r.rest c := r.read_append_rest c count

/-- The first bytes of what is left, a read later. -/
theorem take_rest {c : r.Ctx} {n limit : ℕ} (hn : n ≤ limit) :
    (r.read c n).2 ++ (r.rest (r.read c n).1).take (limit - (r.read c n).2.length) =
      (r.rest c).take limit := by
  have hle := Nat.le_trans (r.length_read_le c n) hn
  conv_rhs => rw [← r.read_append_rest c n, List.take_append, List.take_of_length_le hle]

/-- A reader that hands out at most `limit` bytes of another one; next to the context it keeps
    how many there have been. -/
def capped (limit : ℕ) : Reader where
  Ctx := { c : r.Ctx × ℕ // c.2 ≤ limit }
  size c := min (limit - c.1.2) (r.size c.1.1)
  read c count :=
    let n := min count (limit - c.1.2)
    (⟨((r.read c.1.1 n).1, c.1.2 + (r.read c.1.1 n).2.length), Nat.add_le_of_le_sub' c.2
      (Nat.le_trans (r.length_read_le c.1.1 n) (Nat.min_le_right _ _))⟩, (r.read c.1.1 n).2)
  rest c := (r.rest c.1.1).take (limit - c.1.2)
  size_eq c := by rw [r.size_eq, List.length_take]
  read_append_rest c count := by
    dsimp only
    rw [← Nat.sub_sub]
    exact r.take_rest (Nat.min_le_right _ _)
  length_read_le c count := Nat.le_trans (r.length_read_le _ _) (Nat.min_le_left _ _)

/-- A capped reader that has handed out nothing. -/
def cappedStart (limit : ℕ) (c : r.Ctx) : (r.capped limit).Ctx := ⟨(c, 0), Nat.zero_le _⟩

/-- What a capped reader hands out is read from the other one. -/
theorem feed_capped (limit : ℕ) (c : (r.capped limit).Ctx) (counts : List ℕ) :
    ((r.capped limit).feed c counts).2 ++ r.rest ((r.capped limit).feed c counts).1.1.1 =
      r.rest c.1.1 := by
  induction counts generalizing c with
  | nil => rfl
  | cons count counts ih =>
    have htail := ih ((r.capped limit).read c count).1
    have hhead := r.read_append_rest c.1.1 (min count (limit - c.1.2))
    rw [← hhead]
    refine (List.append_assoc _ _ _).trans ?_
    exact congrArg ((r.read c.1.1 (min count (limit - c.1.2))).2 ++ ·) htail

end Reader

end Equic.Foundation
