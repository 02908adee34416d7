import Equic.Foundation.BoundedMap
import Equic.Foundation.CInt
import Equic.Foundation.Ledger
import Equic.Net.Sockaddr

/-!
# The `counters` map

The BPF hash map that controls the connection counter by source IP, and the update call
that user space makes on it. `level` reads the map as a total function, a missing entry
counting as 0, which is how both the accounting and the XDP verdict see it.
-/

namespace Equic.Kern

open Equic.Foundation Equic.Net

/-! ## §1 Map and update call -/

/-- `QUIC_QUOTA_LIMIT`: maximum simultaneous connections allowed from a given source IPv4
    address. -/
def quicQuotaLimit : ℤ := 5

/-- `counters.max_entries`. -/
def maxEntries : ℕ := 1024

/-- `counters`: a hash map from source IPv4 address to the counter of its connections. -/
abbrev Counters := BoundedMap InAddr CInt maxEntries

/-- `bpf_map_update_elem`: `none` is the return value -1. The flag and the capacity can
    make it fail, and the kernel may refuse it for a reason of its own (`fault`). -/
def bpfMapUpdateElem (fault : Bool) (counters : Counters) (key : InAddr) (value : CInt)
    (flags : UpdateFlag) : Option Counters :=
  if fault then none else counters.update key value flags

@[simp] theorem bpfMapUpdateElem_fault (counters : Counters) (key : InAddr) (value : CInt)
    (flags : UpdateFlag) : bpfMapUpdateElem true counters key value flags = none := rfl

@[simp] theorem bpfMapUpdateElem_noFault (counters : Counters) (key : InAddr) (value : CInt)
    (flags : UpdateFlag) :
    bpfMapUpdateElem false counters key value flags = counters.update key value flags := rfl

/-! ## §2 Counter levels -/

/-- The counter of an address, a missing entry counting as 0. -/
def level (counters : Counters) (a : InAddr) : ℤ := ((counters.lookup a).getD 0#32).toInt

theorem level_of_lookup {counters : Counters} {a : InAddr} {v : CInt}
    (h : counters.lookup a = some v) : level counters a = v.toInt := by
  simp [level, h]

theorem level_of_notMem {counters : Counters} {a : InAddr} (h : a ∉ counters) :
    level counters a = 0 := by
  simp [level, BoundedMap.lookup_eq_none.mpr h]

theorem mem_of_level_ne_zero {counters : Counters} {a : InAddr} (h : level counters a ≠ 0) :
    a ∈ counters := by
  by_contra hmem
  exact h (level_of_notMem hmem)

/-- An update moves the counter of its own key to the stored value and no other. -/
theorem level_update_eq_shift_iff {counters counters' : Counters} {key : InAddr} {value : CInt}
    {flags : UpdateFlag} (h : counters.update key value flags = some counters') (d : ℤ) :
    level counters' = shift (level counters) (some key) d ↔
      value.toInt = level counters key + d := by
  have hself : level counters' key = value.toInt :=
    level_of_lookup (BoundedMap.lookup_update_self h)
  constructor
  · intro heq
    rw [← hself, heq]
    simp [shift]
  · intro hvalue
    funext a
    -- the other keys read back what they held
    by_cases ha : a = key
    · subst ha
      simp [shift, hself, hvalue]
    · have hkeep : level counters' a = level counters a := by
        simp [level, BoundedMap.lookup_update_of_ne h ha]
      simp [shift, hkeep, Ne.symm ha]

end Equic.Kern
