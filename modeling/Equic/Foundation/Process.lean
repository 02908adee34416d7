import Equic.Foundation.Runs
import Mathlib.Logic.Function.Basic

/-!
# A process with threads under signals

A program is a tree of what it does that others can see (`Proc`): calls, whose replies it
may look at, loads and stores of global variables, and `signal` calls. Each of these is a
step of its own, so that another thread or a signal can come between any two of them.

A handled signal is delivered to one thread, which drops what it was doing for the handler
and blocks the signal for itself: the handlers considered here end in `exit` and never
return. Other threads go on, and may take the same signal. A signal without a handler, like
the `exit` of any thread, ends all threads. The rest of the world may move at any time.

Which replies are possible, and what they do to the world, is up to a `Platform`. Runs are
those of `Platform.step` in the sense of `Equic.Foundation.Runs`; their events, the labels,
say which thread did what and which call got which reply, so a list of labels is a complete
record of a run. What one thread did (`pastOf`) determines what it is about to do.
-/

namespace Equic.Foundation

/-! ## §1 Programs -/

/-- A program with calls `γ`, replies `ρ`, stores `α`, signals `S` and globals `G`. -/
inductive Proc (γ ρ α S G : Type*) where
  | call (c : γ) (k : ρ → Proc γ ρ α S G)
  | load (k : G → Proc γ ρ α S G)
  | store (a : α) (k : Proc γ ρ α S G)
  | install (sig : S) (k : Proc γ ρ α S G)
  | exit (code : ℤ)
  /-- Never again does anything that others can see. -/
  | idle

/-- What one thread does, or what a signal does to it. -/
inductive Act (γ ρ α S G : Type*) where
  | call (c : γ) (r : ρ)
  | load (g : G)
  | store (a : α)
  | install (sig : S)
  | exit (code : ℤ)
  /-- It takes a signal that has a handler. -/
  | signal (sig : S)

/-- One step of a process with threads `Θ` or of its environment. -/
inductive Label (Θ γ ρ α S G ε : Type*) where
  | thread (t : Θ) (act : Act γ ρ α S G)
  /-- A signal without a handler. -/
  | kill (sig : S)
  | env (e : ε)

variable {Θ γ ρ α S G ε ω : Type*}

/-- What a program goes on with after an act; `none` if the act is not its next one. -/
def Proc.after [DecidableEq γ] [DecidableEq α] [DecidableEq S] (handler : S → Proc γ ρ α S G)
    (p : Proc γ ρ α S G) : Act γ ρ α S G → Option (Proc γ ρ α S G)
  -- the handler never returns, so what was running is dropped
  | .signal sig => some (handler sig)
  | .call c r =>
    match p with
    | .call c' k => if c' = c then some (k r) else none
    | _ => none
  | .load g =>
    match p with
    | .load k => some (k g)
    | _ => none
  | .store a =>
    match p with
    | .store a' k => if a' = a then some k else none
    | _ => none
  | .install sig =>
    match p with
    | .install sig' k => if sig' = sig then some k else none
    | _ => none
  | .exit code =>
    match p with
    | .exit code' => if code' = code then some (.exit code) else none
    | _ => none

/-- The acts, one constructor for each kind of program that can do them. -/
inductive Proc.Next (handler : S → Proc γ ρ α S G) :
    Proc γ ρ α S G → Act γ ρ α S G → Proc γ ρ α S G → Prop where
  | call (c : γ) (k : ρ → Proc γ ρ α S G) (r : ρ) : Next handler (.call c k) (.call c r) (k r)
  | load (k : G → Proc γ ρ α S G) (g : G) : Next handler (.load k) (.load g) (k g)
  | store (a : α) (k : Proc γ ρ α S G) : Next handler (.store a k) (.store a) k
  | install (sig : S) (k : Proc γ ρ α S G) : Next handler (.install sig k) (.install sig) k
  | exit (code : ℤ) : Next handler (.exit code) (.exit code) (.exit code)
  | signal (p : Proc γ ρ α S G) (sig : S) : Next handler p (.signal sig) (handler sig)

theorem Proc.next_of_after [DecidableEq γ] [DecidableEq α] [DecidableEq S]
    {handler : S → Proc γ ρ α S G} {p p' : Proc γ ρ α S G} {act : Act γ ρ α S G}
    (h : p.after handler act = some p') : Proc.Next handler p act p' := by
  cases act with
  | signal sig =>
    obtain rfl := Option.some.inj h
    exact .signal p sig
  | call c r =>
    cases p with
    | call c' k =>
      obtain ⟨rfl, hk⟩ := Option.ite_none_right_eq_some.mp h
      obtain rfl := Option.some.inj hk
      exact .call c' k r
    | _ => cases h
  | load g =>
    cases p with
    | load k =>
      obtain rfl := Option.some.inj h
      exact .load k g
    | _ => cases h
  | store a =>
    cases p with
    | store a' k =>
      obtain ⟨rfl, hk⟩ := Option.ite_none_right_eq_some.mp h
      obtain rfl := Option.some.inj hk
      exact .store a' k
    | _ => cases h
  | install sig =>
    cases p with
    | install sig' k =>
      obtain ⟨rfl, hk⟩ := Option.ite_none_right_eq_some.mp h
      obtain rfl := Option.some.inj hk
      exact .install sig' k
    | _ => cases h
  | exit code =>
    cases p with
    | exit code' =>
      obtain ⟨rfl, hk⟩ := Option.ite_none_right_eq_some.mp h
      obtain rfl := Option.some.inj hk
      exact .exit code'
    | _ => cases h

/-! ## §2 Processes -/

/-- How a process ended. -/
inductive Ending (S : Type*) where
  | exited (code : ℤ)
  | killed (sig : S)

structure Thread (γ ρ α S G : Type*) where
  program : Proc γ ρ α S G
  blocked : List S

/-- What the threads of a process share. -/
structure Shared (S G ω : Type*) where
  world : ω
  globals : G
  /-- The signals that have a handler. -/
  installed : List S
  ended : Option (Ending S)

structure Process (Θ γ ρ α S G ω : Type*) extends Shared S G ω where
  /-- `none` for a thread that does not exist. -/
  threads : Θ → Option (Thread γ ρ α S G)

/-- What a thread is about to do. -/
def Process.programOf (s : Process Θ γ ρ α S G ω) (t : Θ) : Option (Proc γ ρ α S G) :=
  (s.threads t).map Thread.program

section Resume

variable [DecidableEq Θ] {s : Process Θ γ ρ α S G ω} {sh : Shared S G ω} {t t' : Θ}
  {th : Thread γ ρ α S G}

/-- One thread has moved on. -/
def Process.resume (s : Process Θ γ ρ α S G ω) (sh : Shared S G ω) (t : Θ)
    (th : Thread γ ρ α S G) : Process Θ γ ρ α S G ω :=
  ⟨sh, Function.update s.threads t (some th)⟩

@[simp] theorem Process.toShared_resume : (s.resume sh t th).toShared = sh := rfl

@[simp] theorem Process.programOf_resume_self :
    (s.resume sh t th).programOf t = some th.program := by
  simp [Process.programOf, Process.resume]

theorem Process.programOf_resume_of_ne (ht : t' ≠ t) :
    (s.resume sh t th).programOf t' = s.programOf t' := by
  simp [Process.programOf, Process.resume, ht]

end Resume

/-- What programs run on: a world `ω` that calls and the environment change, global
    variables `G` that stores change, and the handlers. -/
structure Platform (γ ρ α S G ε ω : Type*) where
  /-- The world after the call got this reply; `none` if it cannot get it. -/
  call : ω → γ → ρ → Option ω
  env : ω → ε → ω
  store : G → α → G
  handler : S → Proc γ ρ α S G

namespace Platform

variable [DecidableEq S] [DecidableEq G]

/-- What an act of a thread with these blocked signals does to the shared part. -/
def effect (P : Platform γ ρ α S G ε ω) (sh : Shared S G ω) (blocked : List S) :
    Act γ ρ α S G → Option (Shared S G ω)
  | .call c r => (P.call sh.world c r).map fun w => { sh with world := w }
  | .load g => if g = sh.globals then some sh else none
  | .store a => some { sh with globals := P.store sh.globals a }
  | .install sig => some { sh with installed := sig :: sh.installed }
  | .exit code => some { sh with ended := some (.exited code) }
  -- a blocked signal stays pending
  | .signal sig => if sig ∈ sh.installed ∧ sig ∉ blocked then some sh else none

/-- The signals that a thread blocks after an act. -/
def blockedAfter (blocked : List S) : Act γ ρ α S G → List S
  | .signal sig => sig :: blocked
  | _ => blocked

/-! What an act leaves alone. -/

section Frame

variable {P : Platform γ ρ α S G ε ω} {sh sh' : Shared S G ω} {blocked : List S}
  {act : Act γ ρ α S G}

theorem effect_world (h : P.effect sh blocked act = some sh') (hact : ∀ c r, act ≠ .call c r) :
    sh'.world = sh.world := by
  cases act with
  | call c r => exact absurd rfl (hact c r)
  | load g =>
    obtain ⟨-, h⟩ := Option.ite_none_right_eq_some.mp h
    rw [← Option.some.inj h]
  | signal sig =>
    obtain ⟨-, h⟩ := Option.ite_none_right_eq_some.mp h
    rw [← Option.some.inj h]
  | _ => rw [← Option.some.inj h]

theorem effect_globals (h : P.effect sh blocked act = some sh') (hact : ∀ a, act ≠ .store a) :
    sh'.globals = sh.globals := by
  cases act with
  | store a => exact absurd rfl (hact a)
  | call c r =>
    obtain ⟨w, -, rfl⟩ := Option.map_eq_some_iff.mp h
    rfl
  | load g =>
    obtain ⟨-, h⟩ := Option.ite_none_right_eq_some.mp h
    rw [← Option.some.inj h]
  | signal sig =>
    obtain ⟨-, h⟩ := Option.ite_none_right_eq_some.mp h
    rw [← Option.some.inj h]
  | _ => rw [← Option.some.inj h]

theorem effect_installed (h : P.effect sh blocked act = some sh')
    (hact : ∀ sig, act ≠ .install sig) : sh'.installed = sh.installed := by
  cases act with
  | install sig => exact absurd rfl (hact sig)
  | call c r =>
    obtain ⟨w, -, rfl⟩ := Option.map_eq_some_iff.mp h
    rfl
  | load g =>
    obtain ⟨-, h⟩ := Option.ite_none_right_eq_some.mp h
    rw [← Option.some.inj h]
  | signal sig =>
    obtain ⟨-, h⟩ := Option.ite_none_right_eq_some.mp h
    rw [← Option.some.inj h]
  | _ => rw [← Option.some.inj h]

end Frame

variable [DecidableEq Θ] [DecidableEq γ] [DecidableEq α]

def step (P : Platform γ ρ α S G ε ω) (s : Process Θ γ ρ α S G ω) :
    Label Θ γ ρ α S G ε → Option (Process Θ γ ρ α S G ω)
  | .env e => some { s with world := P.env s.world e }
  | .kill sig =>
    if s.ended.isNone ∧ sig ∉ s.installed then some { s with ended := some (.killed sig) }
    else none
  | .thread t act =>
    match s.ended, s.threads t with
    | none, some th =>
      (th.program.after P.handler act).bind fun p =>
        (P.effect s.toShared th.blocked act).map fun sh =>
          s.resume sh t ⟨p, blockedAfter th.blocked act⟩
    | _, _ => none

/-- The steps, one constructor for each kind of label. -/
inductive Move (P : Platform γ ρ α S G ε ω) (s : Process Θ γ ρ α S G ω) :
    Label Θ γ ρ α S G ε → Process Θ γ ρ α S G ω → Prop where
  | env (e : ε) : Move P s (.env e) { s with world := P.env s.world e }
  | kill (sig : S) (hset : sig ∉ s.installed) :
      Move P s (.kill sig) { s with ended := some (.killed sig) }
  | thread (t : Θ) (act : Act γ ρ α S G) (p p' : Proc γ ρ α S G) (blocked : List S)
      (sh : Shared S G ω) (hth : s.threads t = some ⟨p, blocked⟩)
      (hnext : Proc.Next P.handler p act p')
      (heffect : P.effect s.toShared blocked act = some sh) :
      Move P s (.thread t act)
        (s.resume sh t ⟨p', blockedAfter blocked act⟩)

/-- Every step is one of the moves. -/
theorem move_of_step {P : Platform γ ρ α S G ε ω} {s s' : Process Θ γ ρ α S G ω}
    {l : Label Θ γ ρ α S G ε} (h : P.step s l = some s') : P.Move s l s' := by
  cases l with
  | env e =>
    obtain rfl := Option.some.inj h
    exact .env e
  | kill sig =>
    obtain ⟨⟨-, hset⟩, hs'⟩ := Option.ite_none_right_eq_some.mp h
    obtain rfl := Option.some.inj hs'
    exact .kill sig hset
  | thread t act =>
    simp only [step] at h
    split at h
    · rename_i th hended hth
      obtain ⟨p, hafter, hmap⟩ := Option.bind_eq_some_iff.mp h
      obtain ⟨sh, heffect, rfl⟩ := Option.map_eq_some_iff.mp hmap
      exact .thread t act th.program p th.blocked sh hth (Proc.next_of_after hafter) heffect
    · cases h

end Platform

/-! ## §3 What one thread did -/

variable [DecidableEq Θ]

/-- The acts of one thread, the last one first. -/
def pastOf (t : Θ) (labels : List (Label Θ γ ρ α S G ε)) : List (Act γ ρ α S G) :=
  (labels.filterMap fun
    | .thread t' act => if t' = t then some act else none
    | _ => none).reverse

@[simp] theorem pastOf_nil (t : Θ) : pastOf t ([] : List (Label Θ γ ρ α S G ε)) = [] := rfl

@[simp] theorem pastOf_snoc_self (t : Θ) (labels : List (Label Θ γ ρ α S G ε))
    (act : Act γ ρ α S G) : pastOf t (labels ++ [.thread t act]) = act :: pastOf t labels := by
  simp [pastOf]

theorem pastOf_snoc_of_ne {t t' : Θ} (ht : t' ≠ t) (labels : List (Label Θ γ ρ α S G ε))
    (act : Act γ ρ α S G) : pastOf t (labels ++ [.thread t' act]) = pastOf t labels := by
  simp [pastOf, ht]

@[simp] theorem pastOf_snoc_kill (t : Θ) (labels : List (Label Θ γ ρ α S G ε)) (sig : S) :
    pastOf t (labels ++ [.kill sig]) = pastOf t labels := by
  simp [pastOf]

@[simp] theorem pastOf_snoc_env (t : Θ) (labels : List (Label Θ γ ρ α S G ε)) (e : ε) :
    pastOf t (labels ++ [.env e]) = pastOf t labels := by
  simp [pastOf]

/-- **Thread rule**: a property of what each thread did and is about to do holds after every
    run, if it holds at the start and every possible act of the thread itself keeps it. -/
theorem threads_invariant [DecidableEq γ] [DecidableEq α] [DecidableEq S] [DecidableEq G]
    {P : Platform γ ρ α S G ε ω} {R : Θ → List (Act γ ρ α S G) → Proc γ ρ α S G → Prop}
    {s : Process Θ γ ρ α S G ω} (hstart : ∀ t p, s.programOf t = some p → R t [] p)
    (hnext : ∀ t past p act p' sh sh' blocked, R t past p → Proc.Next P.handler p act p' →
      P.effect sh blocked act = some sh' → R t (act :: past) p')
    {labels : List (Label Θ γ ρ α S G ε)} {s' : Process Θ γ ρ α S G ω}
    (h : exec P.step s labels = some s') {t : Θ} {p : Proc γ ρ α S G}
    (hp : s'.programOf t = some p) : R t (pastOf t labels) p := by
  refine exec_induction
    (P := fun labels s' => ∀ t p, s'.programOf t = some p → R t (pastOf t labels) p)
    hstart ?_ h t p hp
  intro labels m l m' _ hm hstep t p hp
  cases Platform.move_of_step hstep with
  | env e =>
    rw [pastOf_snoc_env]
    exact hm t p hp
  | kill sig hset =>
    rw [pastOf_snoc_kill]
    exact hm t p hp
  | thread t' act q q' blocked sh hth hnext' heffect =>
    by_cases ht : t' = t
    · subst ht
      rw [pastOf_snoc_self]
      obtain rfl : q' = p := by simpa using hp
      exact hnext _ _ _ _ _ _ _ _ (hm t' q (by rw [Process.programOf, hth]; rfl)) hnext' heffect
    · -- the other threads are where they were
      rw [pastOf_snoc_of_ne ht]
      rw [Process.programOf_resume_of_ne (Ne.symm ht)] at hp
      exact hm t p hp

end Equic.Foundation
