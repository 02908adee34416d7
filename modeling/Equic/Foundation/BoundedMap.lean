import Mathlib.Data.List.AList
import Mathlib.Data.Finset.Card

/-!
# Maps of bounded capacity

A finite map with room for `cap` entries, updated under a flag: `exist` overwrites an
entry that must be there, `noExist` creates one that must not be. An update that cannot
be made returns `none`, and entries are never removed.

The capacity bound is a field of `BoundedMap`, so no operation has to re-establish it for
its callers. §3 turns the bound into a statement about keys: a map whose keys come from a
set of at most `cap` keys has room for every key of that set.
-/

namespace Equic.Foundation

/-! ## §1 The map and its update -/

/-- A finite map with at most `cap` entries. -/
structure BoundedMap (κ ν : Type*) (cap : ℕ) where
  entries : AList (fun _ : κ => ν)
  size_le : entries.keys.length ≤ cap

/-- What an update expects of the key. -/
inductive UpdateFlag where
  /-- Create the entry: the key must be missing. -/
  | noExist
  /-- Overwrite the entry: the key must be present. -/
  | exist
  deriving DecidableEq, Repr

namespace BoundedMap

variable {κ ν : Type*} {cap : ℕ}

/-- The map without entries. -/
def empty : BoundedMap κ ν cap := ⟨∅, Nat.zero_le _⟩

/-- Number of entries. -/
def size (m : BoundedMap κ ν cap) : ℕ := m.entries.keys.length

instance : Membership κ (BoundedMap κ ν cap) := ⟨fun m k => k ∈ m.entries⟩

theorem mem_def {m : BoundedMap κ ν cap} {k : κ} : k ∈ m ↔ k ∈ m.entries := Iff.rfl

@[simp] theorem notMem_empty (k : κ) : k ∉ (empty : BoundedMap κ ν cap) :=
  AList.notMem_empty k

variable [DecidableEq κ]

instance (k : κ) (m : BoundedMap κ ν cap) : Decidable (k ∈ m) :=
  inferInstanceAs (Decidable (k ∈ m.entries))

/-- The value stored for `k`. -/
def lookup (m : BoundedMap κ ν cap) (k : κ) : Option ν := m.entries.lookup k

private theorem insert_size_of_mem {m : BoundedMap κ ν cap} {k : κ} (v : ν) (hk : k ∈ m) :
    (m.entries.insert k v).keys.length = m.size := by
  have hpos : 0 < m.entries.keys.length := List.length_pos_of_mem hk
  rw [AList.keys_insert, List.length_cons, List.length_erase_of_mem hk, size]
  omega

private theorem insert_size_of_notMem {m : BoundedMap κ ν cap} {k : κ} (v : ν) (hk : k ∉ m) :
    (m.entries.insert k v).keys.length = m.size + 1 := by
  rw [AList.keys_insert, List.length_cons, List.erase_of_not_mem hk, size]

/-- Store `v` for `k` under a flag; `none` if the flag or the capacity forbids it. -/
def update (m : BoundedMap κ ν cap) (k : κ) (v : ν) : UpdateFlag → Option (BoundedMap κ ν cap)
  | .exist =>
    if hk : k ∈ m then
      some ⟨m.entries.insert k v, by rw [insert_size_of_mem v hk]; exact m.size_le⟩
    else none
  | .noExist =>
    if hk : k ∈ m then none
    else if hcap : m.size < cap then
      some ⟨m.entries.insert k v, by rw [insert_size_of_notMem v hk]; exact hcap⟩
    else none

/-! ## §2 Reading back an update -/

variable {m m' : BoundedMap κ ν cap} {k : κ} {v : ν}

theorem lookup_eq_none : m.lookup k = none ↔ k ∉ m := AList.lookup_eq_none

theorem mem_of_lookup (h : m.lookup k = some v) : k ∈ m :=
  AList.lookup_isSome.mp (by rw [← lookup, h]; rfl)

/-- Exactly when an update goes through, and what it stores. -/
theorem update_eq_some {flag : UpdateFlag} :
    m.update k v flag = some m' ↔
      m'.entries = m.entries.insert k v ∧
        match flag with
        | .exist => k ∈ m
        | .noExist => k ∉ m ∧ m.size < cap := by
  obtain ⟨entries', hsize'⟩ := m'
  cases flag with
  | exist =>
    by_cases hk : k ∈ m
    · simp [update, hk, eq_comm]
    · simp [update, hk]
  | noExist =>
    by_cases hk : k ∈ m
    · simp [update, hk]
    · by_cases hcap : m.size < cap
      · simp [update, hk, hcap, eq_comm]
      · simp [update, hk, hcap]

theorem update_exist_of_mem (v : ν) (hk : k ∈ m) : ∃ m', m.update k v .exist = some m' := by
  simp [update, hk]

theorem update_noExist_of_notMem (v : ν) (hk : k ∉ m) (hcap : m.size < cap) :
    ∃ m', m.update k v .noExist = some m' := by
  simp [update, hk, hcap]

theorem update_noExist_of_full (v : ν) (hk : k ∉ m) (hcap : m.size = cap) :
    m.update k v .noExist = none := by
  simp [update, hk, hcap]

section Updated

variable {flag : UpdateFlag} (h : m.update k v flag = some m')

include h

theorem lookup_update_self : m'.lookup k = some v := by
  rw [lookup, (update_eq_some.mp h).1, AList.lookup_insert]

theorem lookup_update_of_ne {k' : κ} (hne : k' ≠ k) : m'.lookup k' = m.lookup k' := by
  rw [lookup, (update_eq_some.mp h).1, AList.lookup_insert_ne hne, lookup]

theorem mem_update {k' : κ} : k' ∈ m' ↔ k' = k ∨ k' ∈ m := by
  rw [mem_def, (update_eq_some.mp h).1, AList.mem_insert]
  rfl

end Updated

/-! ## §3 Capacity and keys -/

/-- The keys as a finite set. -/
def keySet (m : BoundedMap κ ν cap) : Finset κ := m.entries.keys.toFinset

@[simp] theorem mem_keySet {m : BoundedMap κ ν cap} {k : κ} : k ∈ m.keySet ↔ k ∈ m := by
  simp [keySet, mem_def, AList.mem_keys]

theorem card_keySet (m : BoundedMap κ ν cap) : m.keySet.card = m.size :=
  List.toFinset_card_of_nodup m.entries.keys_nodup

/-- A map whose keys lie in a set of at most `cap` keys has room for a key of that set. -/
theorem size_lt_of_keys_subset {A : Finset κ} (hA : A.card ≤ cap) (hsub : ∀ k ∈ m, k ∈ A)
    (hkA : k ∈ A) (hk : k ∉ m) : m.size < cap := by
  -- the keys are a proper subset of `A`, since they miss `k`
  have hss : m.keySet ⊂ A := by
    refine Finset.ssubset_iff_subset_ne.mpr ⟨fun k' hk' => hsub k' (mem_keySet.mp hk'), ?_⟩
    rintro rfl
    exact hk (mem_keySet.mp hkA)
  have := Finset.card_lt_card hss
  rw [card_keySet] at this
  omega

end BoundedMap

end Equic.Foundation
