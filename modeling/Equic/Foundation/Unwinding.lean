import Equic.Foundation.Runs

/-!
# Non-interference by unwinding

An observer of a machine sees some events as its own and learns an answer from some of
them. It has a *view* of the state, and the machine does not leak anything to it if

- a foreign event leaves the view alone and answers nothing;
- an own event moves the view, and is answered, as a function of the view and of what the
  observer knows of the event.

These are the conditions of `Unwinding`. Under them the answers along a run are a replay
of the own events on the view (`Unwinding.outputs_eq_replay`), so two runs that start with
the same view and have the same own events give the same answers, whatever else happens in
them (`Unwinding.noninterference`).
-/

namespace Equic.Foundation

variable {σ ε κ ν ω : Type*} (step : σ → ε → Option σ)

/-! ## §1 Outputs along a run -/

/-- What the steps of a run put out, in order. -/
def outputs (out : σ → ε → Option ω) : σ → List ε → List ω
  | _, [] => []
  | s, e :: es =>
    match step s e with
    | none => []
    | some s' => (out s e).toList ++ outputs out s' es

variable {step}

theorem outputs_cons_of_none {out : σ → ε → Option ω} {s : σ} {e : ε} {es : List ε}
    (h : step s e = none) : outputs step out s (e :: es) = [] := by
  simp [outputs, h]

theorem outputs_cons_of_some {out : σ → ε → Option ω} {s s' : σ} {e : ε} {es : List ε}
    (h : step s e = some s') :
    outputs step out s (e :: es) = (out s e).toList ++ outputs step out s' es := by
  simp [outputs, h]

/-! ## §2 The unwinding conditions -/

/-- The answers to a list of own events, computed from the view alone. -/
def replay (act : ν → κ → ν) (answer : ν → κ → Option ω) : ν → List κ → List ω
  | _, [] => []
  | v, k :: ks => (answer v k).toList ++ replay act answer (act v k) ks

variable (step) in
/-- Nothing but its own events reaches the observer: `own` tells them, `view` is what it
    sees of the state, `out` what it is answered. The conditions are asked of the allowed
    events `E` in the states with `I`. -/
structure Unwinding (E : ε → Prop) (I : σ → Prop) (own : σ → ε → Option κ) (view : σ → ν)
    (act : ν → κ → ν) (out : σ → ε → Option ω) (answer : ν → κ → Option ω) : Prop where
  keeps : ∀ {s e s'}, E e → I s → step s e = some s' → I s'
  /-- Local respect: a foreign event does not move the view. -/
  foreign_view : ∀ {s e s'}, E e → I s → step s e = some s' → own s e = none → view s' = view s
  foreign_out : ∀ {s e s'}, E e → I s → step s e = some s' → own s e = none → out s e = none
  /-- Step consistency: an own event moves the view as a function of the view. -/
  own_view : ∀ {s e s' k}, E e → I s → step s e = some s' → own s e = some k →
    view s' = act (view s) k
  /-- Output consistency: the answer is a function of the view. -/
  own_out : ∀ {s e s' k}, E e → I s → step s e = some s' → own s e = some k →
    out s e = answer (view s) k

namespace Unwinding

variable {E : ε → Prop} {I : σ → Prop} {own : σ → ε → Option κ} {view : σ → ν}
  {act : ν → κ → ν} {out : σ → ε → Option ω} {answer : ν → κ → Option ω}

/-- The answers along a run are those of replaying its own events on the view. -/
theorem outputs_eq_replay (hu : Unwinding step E I own view act out answer) {s : σ} {es : List ε}
    (hs : I s) (hE : ∀ e ∈ es, E e) :
    outputs step out s es = replay act answer (view s) (outputs step own s es) := by
  induction es generalizing s with
  | nil => rfl
  | cons e es ih =>
    cases hstep : step s e with
    | none => rw [outputs_cons_of_none hstep, outputs_cons_of_none hstep, replay]
    | some s' =>
      have he : E e := hE e List.mem_cons_self
      have htail := ih (hu.keeps he hs hstep) fun e' he' => hE e' (List.mem_cons_of_mem e he')
      rw [outputs_cons_of_some hstep, outputs_cons_of_some hstep, htail]
      cases hown : own s e with
      | none =>
        rw [hu.foreign_view he hs hstep hown, hu.foreign_out he hs hstep hown]
        rfl
      | some k =>
        rw [hu.own_view he hs hstep hown, hu.own_out he hs hstep hown]
        rfl

/-- **Non-interference.** Two runs with the same view at the start and the same own events
    give the same answers. -/
theorem noninterference (hu : Unwinding step E I own view act out answer) {s₁ s₂ : σ}
    {es₁ es₂ : List ε} (hs₁ : I s₁) (hs₂ : I s₂) (hE₁ : ∀ e ∈ es₁, E e) (hE₂ : ∀ e ∈ es₂, E e)
    (hview : view s₁ = view s₂) (hown : outputs step own s₁ es₁ = outputs step own s₂ es₂) :
    outputs step out s₁ es₁ = outputs step out s₂ es₂ := by
  rw [hu.outputs_eq_replay hs₁ hE₁, hu.outputs_eq_replay hs₂ hE₂, hview, hown]

end Unwinding

end Equic.Foundation
