import Mathlib.Data.List.Induction
import Mathlib.Data.List.Infix

/-!
# Runs of a partial transition function

A machine is a function `step : σ → ε → Option σ`: event `e` is possible in state
`s` iff `step s e` is `some`. This file collects what the rest of the development
needs about *whole* runs of such a machine:

- `exec` runs a list of events;
- `StatesAlong P` says `P` holds in every state a run visits;
- `StepsAlong C` says every step a run takes meets `C`.

The rules reduce a statement about runs to a statement about one step. The main one,
`statesAlong_iff_stepsAlong`, characterizes exactly when a property survives a run:
if one step preserves `P` precisely when it meets `C`, then `P` holds along a run
iff all its steps meet `C`.
-/

namespace Equic.Foundation

variable {σ ε : Type*} (step : σ → ε → Option σ)

/-! ## §1 Running a list of events -/

/-- Run a list of events from `s`; `none` as soon as one of them is not possible. -/
def exec : σ → List ε → Option σ
  | s, [] => some s
  | s, e :: es => (step s e).bind fun s' => exec s' es

@[simp] theorem exec_nil (s : σ) : exec step s [] = some s := rfl

theorem exec_cons (s : σ) (e : ε) (es : List ε) :
    exec step s (e :: es) = (step s e).bind fun s' => exec step s' es := rfl

theorem exec_append (s : σ) (es fs : List ε) :
    exec step s (es ++ fs) = (exec step s es).bind fun s' => exec step s' fs := by
  induction es generalizing s with
  | nil => rfl
  | cons e es ih =>
    simp only [List.cons_append, exec_cons]
    cases step s e with
    | none => rfl
    | some s' => exact ih s'

/-- A run splits at every point of its event list. -/
theorem exec_append_eq_some {s t : σ} {es fs : List ε} :
    exec step s (es ++ fs) = some t ↔
      ∃ m, exec step s es = some m ∧ exec step m fs = some t := by
  rw [exec_append, Option.bind_eq_some_iff]

/-- The last step of a run. -/
theorem exec_snoc_eq_some {s t : σ} {es : List ε} {e : ε} :
    exec step s (es ++ [e]) = some t ↔
      ∃ m, exec step s es = some m ∧ step m e = some t := by
  rw [exec_append_eq_some]
  simp [exec_cons]

/-- Induction over a run with its history: `P es s` relates the events so far to the
    state they lead to. -/
theorem exec_induction {step : σ → ε → Option σ} {s : σ} {P : List ε → σ → Prop} (hnil : P [] s)
    (hsnoc : ∀ es m e t, exec step s es = some m → P es m → step m e = some t → P (es ++ [e]) t)
    {es : List ε} {t : σ} (h : exec step s es = some t) : P es t := by
  -- from the end of the list, since `P` speaks about the history
  induction es using List.reverseRecOn generalizing t with
  | nil =>
    obtain rfl : s = t := by simpa using h
    exact hnil
  | append_singleton es e ih =>
    obtain ⟨m, hm, hstep⟩ := (exec_snoc_eq_some step).mp h
    exact hsnoc es m e t hm (ih hm) hstep

/-- Where an event can stand in a history that has just grown by one. -/
theorem snoc_eq_append_cons {es pre post : List ε} {e x : ε} :
    es ++ [e] = pre ++ x :: post ↔
      (pre = es ∧ x = e ∧ post = []) ∨ ∃ post', es = pre ++ x :: post' ∧ post = post' ++ [e] := by
  constructor
  · intro heq
    rcases List.eq_nil_or_concat post with rfl | ⟨post', e', rfl⟩
    · obtain ⟨rfl, he⟩ := List.append_inj' heq rfl
      exact .inl ⟨rfl, (List.singleton_inj.mp he).symm, rfl⟩
    · have heq' : es ++ [e] = (pre ++ x :: post') ++ [e'] := by simpa using heq
      obtain ⟨rfl, he⟩ := List.append_inj' heq' rfl
      rw [List.singleton_inj.mp he]
      exact .inr ⟨post', rfl, by simp⟩
  · rintro (⟨rfl, rfl, rfl⟩ | ⟨post', rfl, rfl⟩)
    · rfl
    · simp

/-! ## §2 Properties along a run -/

/-- `P` holds in every state that `es` visits from `s`, the state `s` included.
    A run ends at the first event that is not possible. -/
def StatesAlong (P : σ → Prop) : σ → List ε → Prop
  | s, [] => P s
  | s, e :: es => P s ∧ ∀ s', step s e = some s' → StatesAlong P s' es

/-- Every step that `es` takes from `s` meets `C`, a condition on the event and on the
    state before it. -/
def StepsAlong (C : σ → ε → Prop) : σ → List ε → Prop
  | _, [] => True
  | s, e :: es => ∀ s', step s e = some s' → C s e ∧ StepsAlong C s' es

variable {step}

theorem StatesAlong.head {P : σ → Prop} {s : σ} {es : List ε}
    (h : StatesAlong step P s es) : P s := by
  cases es with
  | nil => exact h
  | cons e es => exact h.1

/-- The states visited are exactly those reached by the prefixes of the event list. -/
theorem statesAlong_iff_exec {P : σ → Prop} {s : σ} {es : List ε} :
    StatesAlong step P s es ↔
      ∀ pre t, pre <+: es → exec step s pre = some t → P t := by
  induction es generalizing s with
  | nil =>
    constructor
    · rintro hs pre t hpre hexec
      obtain rfl := List.prefix_nil.mp hpre
      obtain rfl : s = t := by simpa using hexec
      exact hs
    · exact fun h => h [] s List.prefix_rfl rfl
  | cons e es ih =>
    constructor
    · rintro ⟨hs, htail⟩ pre t hpre hexec
      -- a prefix is empty or begins with the first event
      cases pre with
      | nil =>
        obtain rfl : s = t := by simpa using hexec
        exact hs
      | cons e' pre =>
        obtain ⟨rfl, hpre'⟩ := List.cons_prefix_cons.mp hpre
        obtain ⟨s', hstep, hexec⟩ := Option.bind_eq_some_iff.mp hexec
        exact ih.mp (htail s' hstep) pre t hpre' hexec
    · intro h
      refine ⟨h [] s List.nil_prefix rfl, fun s' hstep => ih.mpr fun pre t hpre hexec => ?_⟩
      refine h (e :: pre) t (List.cons_prefix_cons.mpr ⟨rfl, hpre⟩) ?_
      rw [exec_cons, hstep]
      exact hexec

/-- The state at the end of a run is one of the states it visits. -/
theorem StatesAlong.last {P : σ → Prop} {s t : σ} {es : List ε}
    (h : StatesAlong step P s es) (hexec : exec step s es = some t) : P t :=
  statesAlong_iff_exec.mp h es t List.prefix_rfl hexec

/-- The same for a run that is evaluated rather than given with its last state. -/
theorem StatesAlong.get_exec {P : σ → Prop} {s : σ} {es : List ε}
    (h : StatesAlong step P s es) (hexec : (exec step s es).isSome) :
    P ((exec step s es).get hexec) :=
  h.last (Option.some_get hexec).symm

theorem StatesAlong.mono {P Q : σ → Prop} {s : σ} {es : List ε}
    (h : StatesAlong step P s es) (hPQ : ∀ s, P s → Q s) : StatesAlong step Q s es := by
  induction es generalizing s with
  | nil => exact hPQ s h
  | cons e es ih => exact ⟨hPQ s h.1, fun s' hstep => ih (h.2 s' hstep)⟩

theorem StepsAlong.mono {C C' : σ → ε → Prop} {s : σ} {es : List ε}
    (h : StepsAlong step C s es) (hC : ∀ s e, C s e → C' s e) : StepsAlong step C' s es := by
  induction es generalizing s with
  | nil => trivial
  | cons e es ih => exact fun s' hstep => ⟨hC s e (h s' hstep).1, ih (h s' hstep).2⟩

/-- The steps taken are those that follow the prefixes of the event list. -/
theorem stepsAlong_iff_exec {C : σ → ε → Prop} {s : σ} {es : List ε} :
    StepsAlong step C s es ↔
      ∀ pre e post m m', es = pre ++ e :: post → exec step s pre = some m →
        step m e = some m' → C m e := by
  induction es generalizing s with
  | nil =>
    apply iff_of_true trivial
    intro pre e post m m' hsplit
    simp at hsplit
  | cons e es ih =>
    constructor
    · intro h pre e' post m m' hsplit hexec hstep
      -- the step is the first one or one of the tail
      cases pre with
      | nil =>
        obtain ⟨rfl, -⟩ := List.cons_eq_cons.mp hsplit
        obtain rfl : s = m := by simpa using hexec
        exact (h m' hstep).1
      | cons e'' pre =>
        obtain ⟨rfl, hsplit'⟩ := List.cons_eq_cons.mp hsplit
        obtain ⟨s', hs', hexec'⟩ := Option.bind_eq_some_iff.mp hexec
        exact ih.mp (h s' hs').2 pre e' post m m' hsplit' hexec' hstep
    · intro h s' hs'
      refine ⟨h [] e es s s' rfl rfl hs', ih.mpr ?_⟩
      intro pre e' post m m' hsplit hexec hstep
      refine h (e :: pre) e' post m m' (by rw [hsplit]; rfl) ?_ hstep
      rw [exec_cons, hs']
      exact hexec

theorem StepsAlong.of_append {C : σ → ε → Prop} {s : σ} {es fs : List ε}
    (h : StepsAlong step C s (es ++ fs)) : StepsAlong step C s es := by
  induction es generalizing s with
  | nil => trivial
  | cons e es ih => exact fun s' hstep => ⟨(h s' hstep).1, ih (h s' hstep).2⟩

/-- The last step of a run is one of its steps. -/
theorem StepsAlong.last {C : σ → ε → Prop} {s m : σ} {es : List ε} {e : ε}
    (h : StepsAlong step C s (es ++ [e])) (hexec : exec step s es = some m)
    (hstep : (step m e).isSome) : C m e := by
  obtain ⟨m', hm'⟩ := Option.isSome_iff_exists.mp hstep
  exact stepsAlong_iff_exec.mp h es e [] m m' rfl hexec hm'

/-- The same for a run that is evaluated rather than given with its states. -/
theorem StepsAlong.get_exec {C : σ → ε → Prop} {s : σ} {es : List ε} {e : ε}
    (h : StepsAlong step C s (es ++ [e])) (hexec : (exec step s es).isSome)
    (hstep : (step ((exec step s es).get hexec) e).isSome) :
    C ((exec step s es).get hexec) e :=
  h.last (Option.some_get hexec).symm hstep

/-! ## §3 From one step to a run -/

/-- **Invariant rule** relative to a property `Q` known to hold along the run: what every
    allowed step into a state with `Q` preserves holds along the run. -/
theorem StatesAlong.invariant {P Q : σ → Prop} {E : ε → Prop}
    (hstep : ∀ s e s', E e → Q s' → P s → step s e = some s' → P s')
    {s : σ} {es : List ε} (hQ : StatesAlong step Q s es) (hs : P s) (hE : ∀ e ∈ es, E e) :
    StatesAlong step P s es := by
  induction es generalizing s with
  | nil => exact hs
  | cons e es ih =>
    refine ⟨hs, fun s' h => ih (hQ.2 s' h) ?_ ?_⟩
    · exact hstep s e s' (hE e List.mem_cons_self) (hQ.2 s' h).head hs h
    · exact fun e' he' => hE e' (List.mem_cons_of_mem e he')

/-- **Invariant rule** relative to a property `Q` known to hold before each step. -/
theorem StatesAlong.invariant_of_before {P Q : σ → Prop} {E : ε → Prop}
    (hstep : ∀ s e s', E e → Q s → P s → step s e = some s' → P s')
    {s : σ} {es : List ε} (hQ : StatesAlong step Q s es) (hs : P s) (hE : ∀ e ∈ es, E e) :
    StatesAlong step P s es := by
  induction es generalizing s with
  | nil => exact hs
  | cons e es ih =>
    refine ⟨hs, fun s' h => ih (hQ.2 s' h) ?_ fun e' he' => hE e' (List.mem_cons_of_mem e he')⟩
    exact hstep s e s' (hE e List.mem_cons_self) hQ.1 hs h

theorem statesAlong_true (s : σ) (es : List ε) : StatesAlong step (fun _ => True) s es := by
  induction es generalizing s with
  | nil => trivial
  | cons e es ih => exact ⟨trivial, fun s' _ => ih s'⟩

/-- **Invariant rule**: what every allowed step preserves holds along every run of allowed
    events. -/
theorem statesAlong_of_invariant {P : σ → Prop} {E : ε → Prop}
    (hstep : ∀ s e s', E e → P s → step s e = some s' → P s')
    {s : σ} {es : List ε} (hs : P s) (hE : ∀ e ∈ es, E e) : StatesAlong step P s es :=
  (statesAlong_true s es).invariant (fun s e s' he _ hP h => hstep s e s' he hP h) hs hE

/-- What holds of every allowed step out of a state with `P` holds of every step of a run
    along which `P` holds. -/
theorem stepsAlong_of_statesAlong {P : σ → Prop} {C : σ → ε → Prop} {E : ε → Prop}
    (hC : ∀ s e s', E e → P s → step s e = some s' → C s e)
    {s : σ} {es : List ε} (hP : StatesAlong step P s es) (hE : ∀ e ∈ es, E e) :
    StepsAlong step C s es := by
  induction es generalizing s with
  | nil => trivial
  | cons e es ih =>
    intro s' h
    refine ⟨hC s e s' (hE e List.mem_cons_self) hP.1 h, ih (hP.2 s' h) ?_⟩
    exact fun e' he' => hE e' (List.mem_cons_of_mem e he')

/-- Two conditions that agree on every allowed step out of a state with `P` are met by the
    same runs along which `P` holds. -/
theorem StatesAlong.stepsAlong_congr {P : σ → Prop} {C C' : σ → ε → Prop} {E : ε → Prop}
    (hC : ∀ s e s', E e → P s → step s e = some s' → (C s e ↔ C' s e))
    {s : σ} {es : List ε} (hP : StatesAlong step P s es) (hE : ∀ e ∈ es, E e) :
    StepsAlong step C s es ↔ StepsAlong step C' s es := by
  induction es generalizing s with
  | nil => rfl
  | cons e es ih =>
    have hes : ∀ e' ∈ es, E e' := fun e' he' => hE e' (List.mem_cons_of_mem e he')
    simp only [StepsAlong]
    refine forall_congr' fun s' => imp_congr_right fun hstep => ?_
    exact and_congr (hC s e s' (hE e List.mem_cons_self) hP.1 hstep) (ih (hP.2 s' hstep) hes)

/-- **Exactness rule**: let every allowed step from a state with `I` and `P` keep `P`
    precisely when it meets `C`, and keep `I` whenever it keeps `P`. Then a run keeps `P` in
    every state precisely when all its steps meet `C`. -/
theorem statesAlong_iff_stepsAlong_of_kept {I P : σ → Prop} {C : σ → ε → Prop} {E : ε → Prop}
    (hI : ∀ s e s', E e → I s → P s → step s e = some s' → P s' → I s')
    (hPC : ∀ s e s', E e → I s → P s → step s e = some s' → (P s' ↔ C s e))
    {s : σ} {es : List ε} (hs : I s) (hP : P s) (hE : ∀ e ∈ es, E e) :
    StatesAlong step P s es ↔ StepsAlong step C s es := by
  induction es generalizing s with
  | nil => simp [StatesAlong, StepsAlong, hP]
  | cons e es ih =>
    have he : E e := hE e List.mem_cons_self
    have hes : ∀ e' ∈ es, E e' := fun e' he' => hE e' (List.mem_cons_of_mem e he')
    -- the invariant `I` is only carried over steps that keep `P`, which both sides grant
    constructor
    · rintro ⟨-, htail⟩ s' hstep
      have hP' : P s' := (htail s' hstep).head
      exact ⟨(hPC s e s' he hs hP hstep).mp hP',
        (ih (hI s e s' he hs hP hstep hP') hP' hes).mp (htail s' hstep)⟩
    · intro hsteps
      refine ⟨hP, fun s' hstep => ?_⟩
      obtain ⟨hC, htail⟩ := hsteps s' hstep
      have hP' : P s' := (hPC s e s' he hs hP hstep).mpr hC
      exact (ih (hI s e s' he hs hP hstep hP') hP' hes).mpr htail

/-- The same for an invariant that every step keeps. -/
theorem statesAlong_iff_stepsAlong {I P : σ → Prop} {C : σ → ε → Prop} {E : ε → Prop}
    (hI : ∀ s e s', E e → I s → P s → step s e = some s' → I s')
    (hPC : ∀ s e s', E e → I s → P s → step s e = some s' → (P s' ↔ C s e))
    {s : σ} {es : List ε} (hs : I s) (hP : P s) (hE : ∀ e ∈ es, E e) :
    StatesAlong step P s es ↔ StepsAlong step C s es :=
  statesAlong_iff_stepsAlong_of_kept (fun s e s' he hs hP h _ => hI s e s' he hs hP h) hPC hs hP hE

/-! ## §4 Annotated runs -/

variable (step) in
/-- The machine with a record of its past, which the machine itself does not see. -/
def annotate {γ : Type*} (record : γ → σ → ε → γ) (x : σ × γ) (e : ε) : Option (σ × γ) :=
  (step x.1 e).map fun s' => (s', record x.2 x.1 e)

/-- Exactly when an annotated machine can step, and where to. -/
theorem annotate_eq_some {γ : Type*} {record : γ → σ → ε → γ} {x : σ × γ} {e : ε} {y : σ × γ} :
    annotate step record x e = some y ↔
      step x.1 e = some y.1 ∧ y.2 = record x.2 x.1 e := by
  cases hstep : step x.1 e with
  | none => simp [annotate, hstep]
  | some s' => simp [annotate, hstep, Prod.ext_iff, eq_comm]

/-- Annotations do not change the runs. -/
theorem exec_annotate {γ : Type*} (record : γ → σ → ε → γ) (x : σ × γ) (es : List ε) :
    (exec (annotate step record) x es).map Prod.fst = exec step x.1 es := by
  induction es generalizing x with
  | nil => rfl
  | cons e es ih =>
    rw [exec_cons, exec_cons, annotate]
    cases step x.1 e with
    | none => rfl
    | some s' => exact ih (s', record x.2 x.1 e)

/-! ## §5 Two machines in step -/

/-- **Simulation rule**: two machines run the same events (the second one sees them through
    `f`) and are possible or not together. While the related states meet `C₁` and `C₂`
    together, and meeting them keeps the states related, the steps of the one run meet `C₁`
    precisely when those of the other meet `C₂`. -/
theorem stepsAlong_iff_of_simulation {σ₁ σ₂ ε₁ ε₂ : Type*} {step₁ : σ₁ → ε₁ → Option σ₁}
    {step₂ : σ₂ → ε₂ → Option σ₂} {f : ε₁ → ε₂} {R : σ₁ → σ₂ → Prop} {C₁ : σ₁ → ε₁ → Prop}
    {C₂ : σ₂ → ε₂ → Prop} {E : ε₁ → Prop}
    (hnone : ∀ s t e, E e → R s t → step₁ s e = none → step₂ t (f e) = none)
    (hsome : ∀ s t e s', E e → R s t → step₁ s e = some s' →
      ∃ t', step₂ t (f e) = some t' ∧ (C₁ s e ↔ C₂ t (f e)) ∧ (C₁ s e → R s' t'))
    {s : σ₁} {t : σ₂} {es : List ε₁} (hR : R s t) (hE : ∀ e ∈ es, E e) :
    StepsAlong step₁ C₁ s es ↔ StepsAlong step₂ C₂ t (es.map f) := by
  induction es generalizing s t with
  | nil => rfl
  | cons e es ih =>
    have he : E e := hE e List.mem_cons_self
    have hes : ∀ e' ∈ es, E e' := fun e' he' => hE e' (List.mem_cons_of_mem e he')
    cases hstep : step₁ s e with
    | none =>
      have hstep₂ := hnone s t e he hR hstep
      simp [StepsAlong, hstep, hstep₂]
    | some s' =>
      obtain ⟨t', hstep₂, hC, hR'⟩ := hsome s t e s' he hR hstep
      simp only [StepsAlong, List.map_cons, hstep, hstep₂, Option.some.injEq, forall_eq']
      -- the tails are compared only where the heads meet their conditions
      constructor
      · rintro ⟨hC₁, htail⟩
        exact ⟨hC.mp hC₁, (ih (hR' hC₁) hes).mp htail⟩
      · rintro ⟨hC₂, htail⟩
        have hC₁ := hC.mpr hC₂
        exact ⟨hC₁, (ih (hR' hC₁) hes).mpr htail⟩

end Equic.Foundation
