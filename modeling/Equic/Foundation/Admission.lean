import Equic.Foundation.Ledger
import Mathlib.Tactic.Linarith

/-!
# Admission with a limit per key

The policy that a connection quota is for. Attempts come under a key; an attempt is
admitted while fewer than `limit` admitted attempts of its key are open. A refused attempt
stays around like an admitted one until it is closed.

Besides the policy the state keeps track, for each key, of whether a counter that every
close lowers has lost touch with the admitted attempts: `tainted k` says that a refused
attempt of `k` was closed while admitted ones were open, and that some have been open
since. `Counts` is the relation of such a counter to the policy.
-/

namespace Equic.Foundation

/-! ## §1 The policy -/

/-- An attempt that is not closed yet. -/
structure Attempt (κ : Type*) where
  key : κ
  admitted : Bool
  deriving DecidableEq

structure Admission (η κ : Type*) where
  attempts : Table η (Attempt κ)
  tainted : κ → Bool

inductive AdmissionEvent (η κ : Type*) where
  | attempt (h : η) (k : κ)
  | close (h : η)

/-- The key in which an attempt takes a place, if it was admitted. -/
def Attempt.slot {κ : Type*} (r : Attempt κ) : Option κ := if r.admitted then some r.key else none

namespace Admission

variable {η κ : Type*} [DecidableEq η] [DecidableEq κ]

/-- Number of open admitted attempts of a key. -/
def openFor (s : Admission η κ) (k : κ) : ℕ := holders Attempt.slot s.attempts k

def initial : Admission η κ := ⟨∅, fun _ => false⟩

def step (limit : ℕ) (s : Admission η κ) : AdmissionEvent η κ → Option (Admission η κ)
  | .attempt h k =>
    if h ∈ s.attempts then none
    else some { s with attempts := s.attempts.insert h ⟨k, decide (s.openFor k < limit)⟩ }
  | .close h =>
    match s.attempts.lookup h with
    | none => none
    | some r =>
      let attempts := s.attempts.erase h
      -- a key without open admitted attempts starts afresh
      let taint := decide (0 < holders Attempt.slot attempts r.key) &&
        (s.tainted r.key || !r.admitted)
      some { attempts := attempts, tainted := Function.update s.tainted r.key taint }

variable {limit : ℕ} {s s' : Admission η κ} {h : η} {k : κ} {r : Attempt κ}

/-- An attempt needs a free handle, and is admitted while its key has a place left. -/
theorem attempt_of_step (hstep : step limit s (.attempt h k) = some s') :
    h ∉ s.attempts ∧
      s' = { s with attempts := s.attempts.insert h ⟨k, decide (s.openFor k < limit)⟩ } := by
  by_cases hh : h ∈ s.attempts
  · rw [step, if_pos hh] at hstep
    cases hstep
  · rw [step, if_neg hh] at hstep
    exact ⟨hh, (Option.some.inj hstep).symm⟩

/-- Only an attempt that is still there closes. -/
theorem close_of_step (hstep : step limit s (.close h) = some s') :
    ∃ r, s.attempts.lookup h = some r ∧
      s' = {
        attempts := s.attempts.erase h
        tainted := Function.update s.tainted r.key
          (decide (0 < holders Attempt.slot (s.attempts.erase h) r.key) &&
            (s.tainted r.key || !r.admitted)) } := by
  cases hr : s.attempts.lookup h with
  | none =>
    simp only [step, hr] at hstep
    cases hstep
  | some r =>
    simp only [step, hr, Option.some.injEq] at hstep
    exact ⟨r, rfl, hstep.symm⟩

/-- An attempt takes a place exactly if its key has one left. -/
theorem openFor_attempt (hstep : step limit s (.attempt h k) = some s') (j : κ) :
    s'.openFor j = s.openFor j + if k = j ∧ s.openFor k < limit then 1 else 0 := by
  obtain ⟨hh, rfl⟩ := attempt_of_step hstep
  show holders Attempt.slot (s.attempts.insert h _) j = _
  rw [holders_insert hh]
  -- an admitted attempt holds a slot of its key, a refused one none
  by_cases hlt : s.openFor k < limit
  · simp only [hlt, Attempt.slot, decide_true, if_true, Option.some.injEq, and_true]
    rfl
  · simp only [hlt, Attempt.slot, decide_false, Bool.false_eq_true, if_false, reduceCtorEq,
      and_false]
    rfl

/-- A close gives back the place that the attempt took. -/
theorem openFor_close (hr : s.attempts.lookup h = some r)
    (hstep : step limit s (.close h) = some s') (j : κ) :
    s.openFor j = s'.openFor j + if r.slot = some j then 1 else 0 := by
  obtain ⟨r', hr', rfl⟩ := close_of_step hstep
  exact holders_eq_erase_add hr j

/-- A close decides about the taint of its own key and of no other. -/
theorem tainted_close (hr : s.attempts.lookup h = some r)
    (hstep : step limit s (.close h) = some s') (j : κ) :
    s'.tainted j =
      if j = r.key then decide (0 < s'.openFor j) && (s.tainted j || !r.admitted)
      else s.tainted j := by
  obtain ⟨r', hr', rfl⟩ := close_of_step hstep
  obtain rfl : r = r' := Option.some.inj (hr.symm.trans hr')
  by_cases hj : j = r.key
  · subst hj
    rw [if_pos rfl]
    exact Function.update_self ..
  · rw [if_neg hj]
    exact Function.update_of_ne hj ..

/-- **The policy keeps its limit.** -/
theorem openFor_le_step {e : AdmissionEvent η κ} (hs : ∀ k, s.openFor k ≤ limit)
    (hstep : step limit s e = some s') (j : κ) : s'.openFor j ≤ limit := by
  cases e with
  | attempt h k =>
    rw [openFor_attempt hstep]
    have hj := hs j
    split
    · -- a place is taken only where one is left
      rename_i hnew
      obtain ⟨rfl, hlt⟩ := hnew
      omega
    · omega
  | close h =>
    obtain ⟨r, hr, -⟩ := close_of_step hstep
    have hsplit := openFor_close hr hstep j
    have hj := hs j
    omega

/-! ## §2 A counter that every close lowers -/

/-- How a counter of `k` that admissions raise, and all closes lower unless it is 0, stands
    to the open admitted attempts: it never exceeds their number, and it is exact unless
    the key is tainted. -/
structure Counts (s : Admission η κ) (k : κ) (q : ℤ) : Prop where
  nonneg : 0 ≤ q
  le_open : q ≤ s.openFor k
  exact_iff : q = s.openFor k ↔ s.tainted k = false

omit [DecidableEq η] in
theorem counts_initial (k : κ) : Counts (initial : Admission η κ) k 0 where
  nonneg := le_rfl
  le_open := le_rfl
  exact_iff := iff_of_true rfl rfl

/-- Admissions raise the counter. -/
theorem Counts.attempt {j : κ} {q : ℤ} (hq : Counts s j q)
    (hstep : step limit s (.attempt h k) = some s') :
    Counts s' j (q + if k = j ∧ s.openFor k < limit then 1 else 0) := by
  have hopen := openFor_attempt hstep j
  -- only closes taint
  have htaint : s'.tainted j = s.tainted j := by
    obtain ⟨-, rfl⟩ := attempt_of_step hstep
    rfl
  have hnonneg := hq.nonneg
  have hle := hq.le_open
  refine ⟨?_, ?_, ?_⟩
  · split <;> omega
  · rw [hopen]
    push_cast
    exact add_le_add_left hle _
  · rw [hopen, htaint, ← hq.exact_iff]
    push_cast
    exact add_left_inj _

/-- Closes lower the counter, the closes of refused attempts included. -/
theorem Counts.close {j : κ} {q : ℤ} (hq : Counts s j q) (hr : s.attempts.lookup h = some r)
    (hstep : step limit s (.close h) = some s') :
    Counts s' j (q - if r.key = j ∧ 0 < q then 1 else 0) := by
  have hopen := openFor_close hr hstep j
  have htaint := tainted_close hr hstep j
  have hnonneg := hq.nonneg
  have hle := hq.le_open
  have hexact := hq.exact_iff
  by_cases hkey : r.key = j
  · subst hkey
    rw [if_pos rfl] at htaint
    simp only [true_and]
    cases hadmitted : r.admitted with
    | true =>
      -- both go down by one, unless the counter is 0 already
      have hslot : r.slot = some r.key := by simp [Attempt.slot, hadmitted]
      rw [if_pos hslot] at hopen
      simp only [hadmitted, Bool.not_true, Bool.or_false] at htaint
      refine ⟨?_, ?_, ?_⟩
      · split <;> omega
      · split <;> omega
      · rw [htaint, Bool.and_eq_false_iff, decide_eq_false_iff_not, ← hexact]
        split <;> omega
    | false =>
      -- the counter goes down alone, unless it is 0 already
      have hslot : r.slot = none := by simp [Attempt.slot, hadmitted]
      rw [hslot, if_neg (by simp)] at hopen
      simp only [hadmitted, Bool.not_false, Bool.or_true, Bool.and_true] at htaint
      refine ⟨?_, ?_, ?_⟩
      · split <;> omega
      · split <;> omega
      · rw [htaint, decide_eq_false_iff_not]
        split <;> omega
  · have hslot : r.slot ≠ some j := by
      simp only [Attempt.slot, ne_eq, Option.ite_none_right_eq_some, Option.some.injEq, not_and]
      exact fun _ => hkey
    rw [if_neg hslot] at hopen
    rw [if_neg (Ne.symm hkey)] at htaint
    rw [if_neg (fun hboth => hkey hboth.1), sub_zero]
    exact ⟨hnonneg, by omega, by rw [htaint, ← hexact]; omega⟩

end Admission

end Equic.Foundation
