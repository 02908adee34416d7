import Equic.Foundation.Runs
import Mathlib.Logic.Function.Basic

/-!
# Critical sections

Threads that touch shared memory only while they hold one mutex. A step of a thread inside its
critical section does not look at the mutex; that the sections exclude each other is an
invariant (`Exclusive`). `settle` is the memory once the section that is under way has been
finished, and `settle_threadStep` says that only taking the mutex changes it: every
interleaving of the single steps amounts to running whole sections, in the order in which the
mutex was taken.
-/

namespace Equic.Foundation

variable {τ ℓ σ : Type*}

/-! ## §1 Threads -/

/-- A critical section: its steps, each on the memory of the thread and the shared memory. -/
abbrev Body (ℓ σ : Type*) := List (ℓ × σ → ℓ × σ)

/-- The whole section at once. -/
def runBody (body : Body ℓ σ) (m : ℓ × σ) : ℓ × σ := body.foldl (fun m op => op m) m

/-- Threads, the memory that they share and the mutex for it. -/
structure Threads (τ ℓ σ : Type*) where
  shared : σ
  /-- The thread that holds the mutex. -/
  holder : Option τ
  /-- The memory of a thread inside its critical section, and what is left of the section. -/
  inside : τ → Option (ℓ × Body ℓ σ)

/-- What a thread can do. -/
inductive ThreadEvent (τ ℓ σ : Type*) where
  /-- The mutex is taken, for a section with this memory. -/
  | lock (t : τ) (memory : ℓ) (body : Body ℓ σ)
  /-- The next step of the section. -/
  | op (t : τ)
  /-- The mutex is given back. -/
  | unlock (t : τ)

variable [DecidableEq τ]

/-- One event. Only `lock` looks at the mutex. -/
def threadStep (x : Threads τ ℓ σ) : ThreadEvent τ ℓ σ → Option (Threads τ ℓ σ)
  | .lock t memory body =>
    if (x.inside t).isNone && x.holder.isNone then
      some { x with holder := some t, inside := Function.update x.inside t (some (memory, body)) }
    else none
  | .op t =>
    match x.inside t with
    | some (memory, op :: rest) => some { x with
        shared := (op (memory, x.shared)).2
        inside := Function.update x.inside t (some ((op (memory, x.shared)).1, rest)) }
    | _ => none
  | .unlock t =>
    match x.inside t with
    | some (_, []) => some { x with holder := none, inside := Function.update x.inside t none }
    | _ => none

/-! ## §2 Mutual exclusion -/

/-- Whoever is inside its critical section holds the mutex. -/
def Exclusive (x : Threads τ ℓ σ) : Prop :=
  ∀ t, (x.inside t).isSome → x.holder = some t

/-- Everything a step can be. -/
theorem threadStep_cases {x y : Threads τ ℓ σ} {e : ThreadEvent τ ℓ σ}
    (h : threadStep x e = some y) :
    (∃ t memory body, e = .lock t memory body ∧ x.inside t = none ∧ x.holder = none ∧
      y = { x with
        holder := some t, inside := Function.update x.inside t (some (memory, body)) }) ∨
    (∃ t memory op rest, e = .op t ∧ x.inside t = some (memory, op :: rest) ∧ y = { x with
        shared := (op (memory, x.shared)).2
        inside := Function.update x.inside t (some ((op (memory, x.shared)).1, rest)) }) ∨
    (∃ t memory, e = .unlock t ∧ x.inside t = some (memory, []) ∧
      y = { x with holder := none, inside := Function.update x.inside t none }) := by
  cases e with
  | lock t memory body =>
    simp only [threadStep, Option.ite_none_right_eq_some, Bool.and_eq_true,
      Option.isNone_iff_eq_none, Option.some.injEq] at h
    obtain ⟨⟨hinside, hholder⟩, rfl⟩ := h
    exact .inl ⟨t, memory, body, rfl, hinside, hholder, rfl⟩
  | op t =>
    simp only [threadStep] at h
    split at h
    · rename_i memory op rest hinside
      obtain rfl := Option.some.inj h
      exact .inr (.inl ⟨t, memory, op, rest, rfl, hinside, rfl⟩)
    · cases h
  | unlock t =>
    simp only [threadStep] at h
    split at h
    · rename_i memory hinside
      obtain rfl := Option.some.inj h
      exact .inr (.inr ⟨t, memory, rfl, hinside, rfl⟩)
    · cases h

/-- Critical sections exclude each other. -/
theorem Exclusive.step {x y : Threads τ ℓ σ} {e : ThreadEvent τ ℓ σ} (hx : Exclusive x)
    (h : threadStep x e = some y) : Exclusive y := by
  obtain ⟨t, memory, body, -, -, hholder, rfl⟩ | ⟨t, memory, op, rest, -, hinside, rfl⟩ |
    ⟨t, memory, -, hinside, rfl⟩ := threadStep_cases h
  · intro t' ht'
    dsimp only at ht' ⊢
    by_cases heq : t' = t
    · rw [heq]
    · -- nobody was inside when the mutex was free
      rw [Function.update_of_ne heq] at ht'
      have hheld := hx t' ht'
      rw [hholder] at hheld
      cases hheld
  · intro t' ht'
    dsimp only at ht' ⊢
    by_cases heq : t' = t
    · rw [heq]
      apply hx
      rw [hinside]
      rfl
    · rw [Function.update_of_ne heq] at ht'
      exact hx t' ht'
  · intro t' ht'
    dsimp only at ht' ⊢
    by_cases heq : t' = t
    · rw [heq, Function.update_self] at ht'
      cases ht'
    · -- only the thread that leaves was inside
      rw [Function.update_of_ne heq] at ht'
      have hheld := hx t' ht'
      have hholder : x.holder = some t := by
        apply hx
        rw [hinside]
        rfl
      rw [hholder] at hheld
      exact absurd (Option.some.inj hheld).symm heq

/-! ## §3 Sections as a whole -/

/-- The shared memory once the section under way is finished. -/
def settle (x : Threads τ ℓ σ) : σ :=
  match x.holder.bind x.inside with
  | some (memory, rest) => (runBody rest (memory, x.shared)).2
  | none => x.shared

omit [DecidableEq τ] in
theorem settle_of_inside {x : Threads τ ℓ σ} (hx : Exclusive x) {t : τ} {memory : ℓ}
    {rest : Body ℓ σ} (h : x.inside t = some (memory, rest)) :
    settle x = (runBody rest (memory, x.shared)).2 := by
  have hholder : x.holder = some t := by
    apply hx
    rw [h]
    rfl
  rw [settle, hholder, Option.bind_some, h]

/-- **Interleavings are serial**: taking the mutex runs the whole section, and no other step
    changes what the memory settles to. -/
theorem settle_threadStep {x y : Threads τ ℓ σ} {e : ThreadEvent τ ℓ σ} (hx : Exclusive x)
    (h : threadStep x e = some y) :
    settle y = match e with
      | .lock _ memory body => (runBody body (memory, settle x)).2
      | _ => settle x := by
  have hy := hx.step h
  obtain ⟨t, memory, body, rfl, -, hholder, rfl⟩ | ⟨t, memory, op, rest, rfl, hinside, rfl⟩ |
    ⟨t, memory, rfl, hinside, rfl⟩ := threadStep_cases h
  · have hsettle : settle x = x.shared := by rw [settle, hholder, Option.bind_none]
    rw [settle_of_inside hy (Function.update_self ..), hsettle]
  · rw [settle_of_inside hy (Function.update_self ..), settle_of_inside hx hinside]
    rfl
  · rw [settle_of_inside hx hinside]
    rfl

end Equic.Foundation
