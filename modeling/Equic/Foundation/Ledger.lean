import Mathlib.Data.List.AList
import Mathlib.Tactic.Ring

/-!
# Ledgers: counters against the records they count

A *table* holds the live records of some resource under their handles. A *level* is a
counter for every key. The ledger is balanced when the counter of every key equals the
number of live records that hold a slot of that key.

The two exactness lemmas, `balanced_insert_iff` and `balanced_erase_iff`, say what a
counter update must do when a record is added to or taken from the table: shift the
counter of the record's own key by one, and no other counter. With `shift_eq_shift_iff`
the question whether a release keeps the ledger balanced becomes the question whether it
releases the slot that the record holds.
-/

namespace Equic.Foundation

/-! ## §1 Tables of live records -/

/-- Live records under their handles, each handle at most once. -/
abbrev Table (η ρ : Type*) := AList (fun _ : η => ρ)

namespace Table

variable {η ρ : Type*}

/-- Number of live records with `p`. -/
def count (p : ρ → Bool) (t : Table η ρ) : ℕ :=
  t.entries.countP fun e => p e.2

theorem count_le_length (p : ρ → Bool) (t : Table η ρ) : count p t ≤ t.entries.length :=
  List.countP_le_length

variable [DecidableEq η]

/-- Taking the record `r` out of the table uncounts `r` and nothing else. -/
theorem count_eq_count_erase_add {p : ρ → Bool} {t : Table η ρ} {h : η} {r : ρ}
    (hr : t.lookup h = some r) :
    count p t = count p (t.erase h) + if p r then 1 else 0 := by
  have hmem : h ∈ t.keys := AList.lookup_isSome.mp (by rw [hr]; rfl)
  -- the entries split around the record of `h`, and `erase` leaves both ends
  obtain ⟨r', l₁, l₂, hl₁, hsplit, herase⟩ := List.exists_of_kerase hmem
  have hr' : r' = r := by
    have hin : (⟨h, r'⟩ : Sigma fun _ : η => ρ) ∈ t.entries := by rw [hsplit]; simp
    have : r' ∈ t.lookup h := AList.mem_lookup_iff.mpr hin
    simpa [hr] using this.symm
  subst hr'
  have hentries : (t.erase h).entries = l₁ ++ l₂ := herase
  simp only [count, hentries, hsplit, List.countP_append, List.countP_cons]
  ring

/-- Writing `r` under `h` counts `r` in place of what `h` held before. -/
theorem count_insert (p : ρ → Bool) (t : Table η ρ) (h : η) (r : ρ) :
    count p (t.insert h r) = count p (t.erase h) + if p r then 1 else 0 := by
  simp only [count, AList.entries_insert, List.countP_cons]
  rfl

theorem erase_of_notMem {t : Table η ρ} {h : η} (hh : h ∉ t) : t.erase h = t :=
  AList.ext (List.kerase_of_notMem_keys hh)

theorem count_insert_of_notMem {p : ρ → Bool} {t : Table η ρ} {h : η} (r : ρ) (hh : h ∉ t) :
    count p (t.insert h r) = count p t + if p r then 1 else 0 := by
  rw [count_insert, erase_of_notMem hh]

/-- Replacing a record by one that `p` treats alike changes no count. -/
theorem count_insert_of_lookup {p : ρ → Bool} {t : Table η ρ} {h : η} {r r' : ρ}
    (hr : t.lookup h = some r) (hp : p r' = p r) : count p (t.insert h r') = count p t := by
  rw [count_insert, count_eq_count_erase_add hr, hp]

theorem count_pos {p : ρ → Bool} {t : Table η ρ} {h : η} {r : ρ}
    (hr : t.lookup h = some r) (hp : p r = true) : 0 < count p t := by
  rw [count_eq_count_erase_add hr, hp]
  simp

/-- Two predicates that agree on the live records count alike. -/
theorem count_congr {p q : ρ → Bool} {t : Table η ρ}
    (h : ∀ c r, t.lookup c = some r → p r = q r) : count p t = count q t := by
  apply List.countP_congr
  intro e he
  rw [h e.1 e.2 (AList.mem_lookup_iff.mpr he)]

/-- What a table holds after a write is what was written or what it held before. -/
theorem lookup_insert_cases {t : Table η ρ} {h h' : η} {r r' : ρ}
    (hr' : (t.insert h r).lookup h' = some r') : h' = h ∧ r' = r ∨ t.lookup h' = some r' := by
  by_cases hh : h' = h
  · subst hh
    rw [AList.lookup_insert] at hr'
    exact .inl ⟨rfl, (Option.some.inj hr').symm⟩
  · rw [AList.lookup_insert_ne hh] at hr'
    exact .inr hr'

/-- What a table still holds after taking a record out it held before. -/
theorem lookup_of_erase {t : Table η ρ} {h h' : η} {r' : ρ}
    (hr' : (t.erase h).lookup h' = some r') : t.lookup h' = some r' := by
  by_cases hh : h' = h
  · subst hh
    rw [AList.lookup_erase] at hr'
    cases hr'
  · rwa [AList.lookup_erase_ne hh] at hr'

theorem exists_of_count_pos {p : ρ → Bool} {t : Table η ρ} (h : 0 < count p t) :
    ∃ c r, t.lookup c = some r ∧ p r = true := by
  obtain ⟨e, he, hp⟩ := List.countP_pos_iff.mp h
  exact ⟨e.1, e.2, AList.mem_lookup_iff.mpr he, hp⟩

end Table

/-! ## §2 Levels -/

section Ledger

variable {η ρ κ : Type*} [DecidableEq κ]

/-- The counter of one key moved by `d`, if there is a key to move. -/
def shift (level : κ → ℤ) (slot : Option κ) (d : ℤ) : κ → ℤ :=
  fun k => level k + if slot = some k then d else 0

@[simp] theorem shift_none (level : κ → ℤ) (d : ℤ) : shift level none d = level := by
  funext k
  simp [shift]

/-- Two non-trivial shifts of one level agree only if they move the same counter. -/
theorem shift_eq_shift_iff {level : κ → ℤ} {o o' : Option κ} {d : ℤ} (hd : d ≠ 0) :
    shift level o d = shift level o' d ↔ o = o' := by
  constructor
  · intro h
    -- the shifts differ from `level` at the same keys
    have hk : ∀ k, o = some k ↔ o' = some k := by
      intro k
      have := congrFun h k
      by_cases ho : o = some k <;> by_cases ho' : o' = some k <;> simp_all [shift]
    cases o with
    | none =>
      cases o' with
      | none => rfl
      | some k => exact absurd ((hk k).mpr rfl) (by simp)
    | some k => exact ((hk k).mp rfl).symm
  · rintro rfl
    rfl

/-! ## §3 Balanced ledgers -/

variable (key : ρ → Option κ)

/-- Number of live records that hold a slot of key `k`. -/
def holders (t : Table η ρ) (k : κ) : ℕ :=
  Table.count (fun r => decide (key r = some k)) t

/-- Every counter equals the number of live holders of its key. -/
def Balanced (level : κ → ℤ) (t : Table η ρ) : Prop :=
  ∀ k, level k = holders key t k

variable {key}

theorem holders_le_length (t : Table η ρ) (k : κ) : holders key t k ≤ t.entries.length :=
  Table.count_le_length _ t

@[simp] theorem holders_empty (k : κ) : holders key (∅ : Table η ρ) k = 0 := rfl

variable [DecidableEq η] {level level' : κ → ℤ} {t : Table η ρ} {h : η} {r : ρ}

theorem holders_insert (hh : h ∉ t) (k : κ) :
    holders key (t.insert h r) k = holders key t k + if key r = some k then 1 else 0 := by
  simp [holders, Table.count_insert_of_notMem r hh]

theorem holders_eq_erase_add (hr : t.lookup h = some r) (k : κ) :
    holders key t k = holders key (t.erase h) k + if key r = some k then 1 else 0 := by
  simp [holders, Table.count_eq_count_erase_add hr]

theorem holders_replace {r' : ρ} (hr : t.lookup h = some r) (hk : key r' = key r) (k : κ) :
    holders key (t.insert h r') k = holders key t k :=
  Table.count_insert_of_lookup hr (by rw [hk])

theorem holders_pos {k : κ} (hr : t.lookup h = some r) (hk : key r = some k) :
    0 < holders key t k :=
  Table.count_pos hr (by simp [hk])

theorem exists_of_holders_pos {k : κ} (hpos : 0 < holders key t k) :
    ∃ c r, t.lookup c = some r ∧ key r = some k := by
  obtain ⟨c, r, hr, hkey⟩ := Table.exists_of_count_pos hpos
  exact ⟨c, r, hr, of_decide_eq_true hkey⟩

/-- Adding a record to a balanced ledger keeps it balanced exactly if the counter of the
    record's key goes up by one and the others stay. -/
theorem balanced_insert_iff (hb : Balanced key level t) (hh : h ∉ t) :
    Balanced key level' (t.insert h r) ↔ level' = shift level (key r) 1 := by
  constructor
  · intro hb'
    funext k
    rw [hb' k, holders_insert hh, shift, hb k]
    push_cast
    rfl
  · rintro rfl k
    rw [holders_insert hh, shift, hb k]
    push_cast
    rfl

/-- Taking a record out of a balanced ledger keeps it balanced exactly if the counter of
    the record's key goes down by one and the others stay. -/
theorem balanced_erase_iff (hb : Balanced key level t) (hr : t.lookup h = some r) :
    Balanced key level' (t.erase h) ↔ level' = shift level (key r) (-1) := by
  -- the shifted level counts the table without the record
  have hsplit : ∀ k, shift level (key r) (-1) k = holders key (t.erase h) k := by
    intro k
    rw [shift, hb k, holders_eq_erase_add hr]
    split <;> push_cast <;> ring
  constructor
  · intro hb'
    funext k
    rw [hb' k, hsplit]
  · rintro rfl
    exact hsplit

/-- Changing a record in a way that leaves its key alone keeps the ledger as it is. -/
theorem balanced_replace_iff {r' : ρ} (hr : t.lookup h = some r) (hk : key r' = key r) :
    Balanced key level (t.insert h r') ↔ Balanced key level t := by
  simp only [Balanced, holders_replace hr hk]

/-- In a balanced ledger the counter of a live holder's key is positive. -/
theorem Balanced.level_pos {k : κ} (hb : Balanced key level t) (hr : t.lookup h = some r)
    (hk : key r = some k) : 0 < level k := by
  rw [hb k]
  exact_mod_cast holders_pos hr hk

end Ledger

end Equic.Foundation
