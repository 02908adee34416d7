import Equic.Foundation.Runs
import Mathlib.Algebra.BigOperators.Group.List.Basic
import Mathlib.Algebra.Order.Ring.Nat
import Mathlib.Logic.Relation

/-!
# Pools of components

A pool is a list of components, each of which moves by itself. A move may spawn further
components, or end the whole pool with a fault; components may also be started from outside.
The position of a component in the list is its name for ever.

Four rules reduce a statement about all runs of a pool, in any interleaving, to one about a
single move: what every move keeps of the component it is about holds of all components
(`poolOk_along`); a run is in order exactly if each move is (`poolOk_iff`); a potential that
moves only shift around is bounded by what was put in from outside (`within_along`); and every
component descends from one that was started from outside (`descends_along`).
-/

namespace Equic.Foundation

variable {α ι ε φ : Type*}

/-! ## §1 Steps -/

/-- What happens to a pool. -/
inductive PoolEvent (ι ε : Type*) where
  | start (a : ι)
  | move (i : ℕ) (e : ε)
  deriving DecidableEq, Repr

/-- An event is allowed if what it is made from is. -/
def PoolEvent.Allowed (E : ι → Prop) (F : ε → Prop) : PoolEvent ι ε → Prop
  | .start a => E a
  | .move _ e => F e

variable (init : ι → Option α) (move : α → ε → Option (Except φ (α × List α)))

/-- One event: a component starts, or the `i`-th one moves. -/
def poolStep : Except φ (List α) → PoolEvent ι ε → Option (Except φ (List α))
  | .error _, _ => none
  | .ok ss, .start a => (init a).map fun s => .ok (ss ++ [s])
  | .ok ss, .move i e =>
    ss[i]?.bind fun s => (move s e).map fun r => r.map fun r => ss.set i r.1 ++ r.2

variable {init move}

/-- Everything a step can be. -/
theorem poolStep_cases {x y : Except φ (List α)} {e : PoolEvent ι ε}
    (h : poolStep init move x e = some y) : ∃ ss, x = .ok ss ∧
      ((∃ a s, e = .start a ∧ init a = some s ∧ y = .ok (ss ++ [s])) ∨
        (∃ i e' s, e = .move i e' ∧ ss[i]? = some s ∧
          ((∃ f, move s e' = some (.error f) ∧ y = .error f) ∨
            ∃ s' new, move s e' = some (.ok (s', new)) ∧ y = .ok (ss.set i s' ++ new)))) := by
  cases x with
  | error f => cases h
  | ok ss =>
    refine ⟨ss, rfl, ?_⟩
    cases e with
    | start a =>
      obtain ⟨s, hs, rfl⟩ := Option.map_eq_some_iff.mp h
      exact .inl ⟨a, s, rfl, hs, rfl⟩
    | move i e =>
      obtain ⟨s, hs, h⟩ := Option.bind_eq_some_iff.mp h
      obtain ⟨r, hr, rfl⟩ := Option.map_eq_some_iff.mp h
      refine .inr ⟨i, e, s, rfl, hs, ?_⟩
      cases r with
      | error f => exact .inl ⟨f, hr, rfl⟩
      | ok r => exact .inr ⟨r.1, r.2, hr, rfl⟩

/-- A move of one component. -/
theorem poolStep_move {ss : List α} {i : ℕ} {s s' : α} {e : ε} {new : List α}
    (hs : ss[i]? = some s) (h : move s e = some (.ok (s', new))) :
    poolStep init move (.ok ss) (.move i e) = some (.ok (ss.set i s' ++ new)) := by
  simp only [poolStep, hs, Option.bind_some, h, Option.map_some]
  rfl

/-- A move of one component that ends the pool. -/
theorem poolStep_fault {ss : List α} {i : ℕ} {s : α} {e : ε} {f : φ} (hs : ss[i]? = some s)
    (h : move s e = some (.error f)) :
    poolStep init move (.ok ss) (.move i e) = some (.error f) := by
  simp only [poolStep, hs, Option.bind_some, h, Option.map_some]
  rfl

/-- A run that begins with a move of one component, which stays where it is. -/
theorem exec_move (init : ι → Option α) {ss : List α} {i : ℕ} {s s' : α} {e : ε}
    {new : List α} (hs : ss[i]? = some s) (h : move s e = some (.ok (s', new)))
    (es : List (PoolEvent ι ε)) :
    exec (poolStep init move) (.ok ss) (.move i e :: es) =
        exec (poolStep init move) (.ok (ss.set i s' ++ new)) es ∧
      (ss.set i s' ++ new)[i]? = some s' := by
  have hlt : i < ss.length := (List.getElem?_eq_some_iff.mp hs).1
  constructor
  · rw [exec_cons, poolStep_move hs h, Option.bind_some]
  · rw [List.getElem?_append_left (by simpa using hlt), List.getElem?_set_self hlt]

/-- Where a run that ends with a fault was just before. -/
theorem exec_fault {ss : List α} {es : List (PoolEvent ι ε)} {f : φ}
    (h : exec (poolStep init move) (.ok ss) es = some (.error f)) :
    ∃ pre i e ss' s, pre <+: es ∧ .move i e ∈ es ∧
      exec (poolStep init move) (.ok ss) pre = some (.ok ss') ∧ ss'[i]? = some s ∧
        move s e = some (.error f) := by
  rcases List.eq_nil_or_concat es with rfl | ⟨pre, e, rfl⟩
  · cases h
  obtain ⟨m, hm, hstep⟩ := (exec_snoc_eq_some _).mp (by simpa using h)
  obtain ⟨ss', rfl, ⟨_, _, -, -, hy⟩ | ⟨i, e', s, rfl, hs, ⟨f', hf, hy⟩ | ⟨_, _, -, hy⟩⟩⟩ :=
    poolStep_cases hstep
  · cases hy
  · obtain rfl := Except.error.inj hy
    exact ⟨pre, i, e', ss', s, by simp, by simp, hm, hs, hf⟩
  · cases hy

/-! ## §2 What holds of every component -/

/-- All components have `P`, or the pool has ended with a fault that has `Q`. -/
def PoolOk (P : α → Prop) (Q : φ → Prop) : Except φ (List α) → Prop
  | .ok ss => ∀ s ∈ ss, P s
  | .error f => Q f

theorem PoolOk.mono {P P' : α → Prop} {Q Q' : φ → Prop} (hP : ∀ s, P s → P' s)
    (hQ : ∀ f, Q f → Q' f) {x : Except φ (List α)} (h : PoolOk P Q x) : PoolOk P' Q' x := by
  cases x with
  | ok ss => exact fun s hs => hP s (h s hs)
  | error f => exact hQ f h

/-- What a move that keeps `P` makes of a pool all of whose components have `P`. -/
theorem forall_mem_set_append {P : α → Prop} {ss new : List α} (hss : ∀ s ∈ ss, P s) {s' : α}
    (hs' : P s') (hnew : ∀ s ∈ new, P s) (i : ℕ) : ∀ s ∈ ss.set i s' ++ new, P s := by
  intro s hs
  obtain hset | hmem := List.mem_append.mp hs
  · obtain hold | rfl := List.mem_or_eq_of_mem_set hset
    · exact hss s hold
    · exact hs'
  · exact hnew s hmem

/-- **Rule for the components.** -/
theorem poolOk_along {P : α → Prop} {Q : φ → Prop} {E : ι → Prop} {F : ε → Prop}
    (hinit : ∀ a s, E a → init a = some s → P s)
    (hmove : ∀ s e r, F e → P s → move s e = some r → (∃ f, r = .error f ∧ Q f) ∨
      ∃ s' new, r = .ok (s', new) ∧ P s' ∧ ∀ n ∈ new, P n)
    {ss : List α} (hss : ∀ s ∈ ss, P s) {es : List (PoolEvent ι ε)}
    (hes : ∀ e ∈ es, e.Allowed E F) :
    StatesAlong (poolStep init move) (PoolOk P Q) (.ok ss) es := by
  refine statesAlong_of_invariant (E := PoolEvent.Allowed E F) ?_ hss hes
  intro x e y he hx h
  obtain ⟨ss, rfl, ⟨a, s, rfl, hs, rfl⟩ | ⟨i, e', s, rfl, hs, hr⟩⟩ := poolStep_cases h
  · intro s' hs'
    obtain hold | hnew := List.mem_append.mp hs'
    · exact hx s' hold
    · rw [List.mem_singleton.mp hnew]
      exact hinit a s he hs
  · have hP : P s := hx s (List.mem_of_getElem? hs)
    obtain ⟨f, hf, rfl⟩ | ⟨s', new, hok, rfl⟩ := hr
    · obtain ⟨f', hf', hQ⟩ | ⟨s', new, hok, -⟩ := hmove s e' _ he hP hf
      · rw [Except.error.inj hf']
        exact hQ
      · cases hok
    · obtain ⟨f', hf', -⟩ | ⟨s'', new', hok', hs', hnew⟩ := hmove s e' _ he hP hok
      · cases hf'
      · obtain ⟨rfl, rfl⟩ := Prod.mk.inj (Except.ok.inj hok')
        exact forall_mem_set_append hx hs' hnew i

/-! ## §3 Exact conditions -/

/-- The component that moves meets `C`. -/
def MoveMeets (C : α → ε → Prop) : Except φ (List α) → PoolEvent ι ε → Prop
  | .ok ss, .move i e => ∀ s, ss[i]? = some s → C s e
  | _, _ => True

/-- What a move leads to is as `PoolOk` has it. -/
def MoveOk (P : α → Prop) (Q : φ → Prop) : Except φ (α × List α) → Prop
  | .ok r => P r.1 ∧ ∀ n ∈ r.2, P n
  | .error f => Q f

/-- A pool whose other components have `P` is in order if the one that has moved is. -/
theorem poolOk_set_iff {P : α → Prop} {Q : φ → Prop} {ss : List α} (hss : ∀ s ∈ ss, P s) {i : ℕ}
    {s : α} (hs : ss[i]? = some s) (r : Except φ (α × List α)) :
    PoolOk P Q (r.map fun r => ss.set i r.1 ++ r.2) ↔ MoveOk P Q r := by
  cases r with
  | error f => exact Iff.rfl
  | ok r =>
    constructor
    · intro h
      have hlt : i < ss.length := (List.getElem?_eq_some_iff.mp hs).1
      refine ⟨h r.1 (List.mem_append_left _ ?_), fun n hn => h n (List.mem_append_right _ hn)⟩
      exact List.mem_of_getElem? (List.getElem?_set_self hlt)
    · rintro ⟨hmoved, hnew⟩
      exact forall_mem_set_append hss hmoved hnew i

/-- **Exactness rule.** Let components keep `I` while all is in order, and let a move be in
    order exactly if it meets `C`. Then a run of the pool is in order throughout exactly if
    all its moves meet `C`. -/
theorem poolOk_iff {I P : α → Prop} {Q : φ → Prop} {C : α → ε → Prop}
    (hinit : ∀ a s, init a = some s → I s ∧ P s)
    (hmove : ∀ s e r, I s → P s → move s e = some r →
      (MoveOk P Q r ↔ C s e) ∧ (MoveOk P Q r → MoveOk I (fun _ => True) r))
    {ss : List α} (hI : ∀ s ∈ ss, I s) (hP : ∀ s ∈ ss, P s) (es : List (PoolEvent ι ε)) :
    StatesAlong (poolStep init move) (PoolOk P Q) (.ok ss) es ↔
      StepsAlong (poolStep init move) (MoveMeets C) (.ok ss) es := by
  -- everything that a step from a pool in order leads to
  have hstep : ∀ x e y, PoolOk I (fun _ : φ => True) x → PoolOk P Q x →
      poolStep init move x e = some y →
        (PoolOk P Q y → PoolOk I (fun _ => True) y) ∧ (PoolOk P Q y ↔ MoveMeets C x e) := by
    intro x e y hx hPx h
    cases x with
    | error f => cases h
    | ok ss =>
      cases e with
      | start a =>
        obtain ⟨s, hs, rfl⟩ := Option.map_eq_some_iff.mp h
        have hall : ∀ T : α → Prop, (∀ t ∈ ss, T t) → T s → ∀ t ∈ ss ++ [s], T t := by
          intro T hold hnew t ht
          obtain ht | ht := List.mem_append.mp ht
          · exact hold t ht
          · exact List.mem_singleton.mp ht ▸ hnew
        exact ⟨fun _ => hall I hx (hinit a s hs).1,
          iff_of_true (hall P hPx (hinit a s hs).2) trivial⟩
      | move i e =>
        obtain ⟨s, hs, h⟩ := Option.bind_eq_some_iff.mp h
        obtain ⟨r, hr, rfl⟩ := Option.map_eq_some_iff.mp h
        have hmem := List.mem_of_getElem? hs
        obtain ⟨hexact, hkeep⟩ := hmove s e r (hx s hmem) (hPx s hmem) hr
        rw [poolOk_set_iff hPx hs, poolOk_set_iff hx hs, hexact]
        refine ⟨fun hC => hkeep (hexact.mpr hC), fun hC t ht => ?_, fun hC => hC s hs⟩
        obtain rfl := Option.some.inj (hs.symm.trans ht)
        exact hC
  exact statesAlong_iff_stepsAlong_of_kept (I := PoolOk I fun _ => True) (E := fun _ => True)
    (fun x e y _ hx hPx h => (hstep x e y hx hPx h).1)
    (fun x e y _ hx hPx h => (hstep x e y hx hPx h).2) hI hP fun _ _ => trivial

/-- The pool has not ended. -/
def Survives (x : Except φ (List α)) : Prop := ∃ ss, x = .ok ss

theorem survives_iff_poolOk (x : Except φ (List α)) :
    Survives x ↔ PoolOk (fun _ => True) (fun _ => False) x := by
  cases x with
  | error f => exact iff_of_false (by rintro ⟨ss, ⟨⟩⟩) id
  | ok ss => exact iff_of_true ⟨ss, rfl⟩ fun _ _ => trivial

/-- A run that ends without a fault has had none. -/
theorem survives_along {ss ss' : List α} {es : List (PoolEvent ι ε)}
    (h : exec (poolStep init move) (.ok ss) es = some (.ok ss')) :
    StatesAlong (poolStep init move) Survives (.ok ss) es := by
  rw [statesAlong_iff_exec]
  rintro pre t ⟨post, rfl⟩ hpre
  obtain ⟨m, hm, hpost⟩ := (exec_append_eq_some _).mp h
  obtain rfl := Option.some.inj (hm.symm.trans hpre)
  cases m with
  | ok ss => exact ⟨ss, rfl⟩
  | error f =>
    -- after a fault nothing happens any more
    cases post with
    | nil => cases hpost
    | cons e post => cases hpost

/-! ## §4 Potentials -/

/-- Replacing one summand. -/
theorem sum_map_set {ss : List α} {i : ℕ} {s : α} (hs : ss[i]? = some s) (f : α → ℕ) (s' : α) :
    ((ss.set i s').map f).sum + f s = (ss.map f).sum + f s' := by
  induction ss generalizing i with
  | nil => cases hs
  | cons t ss ih =>
    cases i with
    | zero =>
      obtain rfl : t = s := by simpa using hs
      simp only [List.set_cons_zero, List.map_cons, List.sum_cons]
      omega
    | succ i =>
      have hrest := ih (by simpa using hs)
      simp only [List.set_cons_succ, List.map_cons, List.sum_cons]
      omega

/-- The sum of `f` over the components is at most that of `g`. -/
def Within (f g : α → ℕ) : Except φ (List α) → Prop
  | .ok ss => (ss.map f).sum ≤ (ss.map g).sum
  | .error _ => True

/-- **Rule for potentials.** What a move adds to the sum of `f` it adds to that of `g` too. -/
theorem within_along {P : α → Prop} {Q : φ → Prop} {E : ι → Prop} {F : ε → Prop} {f g : α → ℕ}
    (hinit : ∀ a s, E a → init a = some s → f s ≤ g s)
    (hmove : ∀ s e s' new, F e → P s → move s e = some (.ok (s', new)) →
      f s' + (new.map f).sum + g s ≤ f s + (g s' + (new.map g).sum))
    {ss : List α} {es : List (PoolEvent ι ε)}
    (hpool : StatesAlong (poolStep init move) (PoolOk P Q) (.ok ss) es)
    (hss : Within (φ := φ) f g (.ok ss)) (hes : ∀ e ∈ es, e.Allowed E F) :
    StatesAlong (poolStep init move) (Within f g) (.ok ss) es := by
  refine hpool.invariant_of_before (E := PoolEvent.Allowed E F) ?_ hss hes
  intro x e y he hP hx h
  obtain ⟨ss, rfl, ⟨a, s, rfl, hs, rfl⟩ | ⟨i, e', s, rfl, hs, hr⟩⟩ := poolStep_cases h
  · have hsum : (ss.map f).sum ≤ (ss.map g).sum := hx
    have hnew := hinit a s he hs
    simp only [Within, List.map_append, List.sum_append, List.map_cons, List.map_nil,
      List.sum_cons, List.sum_nil]
    omega
  · obtain ⟨f', -, rfl⟩ | ⟨s', new, hok, rfl⟩ := hr
    · trivial
    · have hsum : (ss.map f).sum ≤ (ss.map g).sum := hx
      have hchange := hmove s e' s' new he (hP s (List.mem_of_getElem? hs)) hok
      have hf := sum_map_set hs f s'
      have hg := sum_map_set hs g s'
      simp only [Within, List.map_append, List.sum_append]
      omega

/-! ## §5 Descent -/

/-- Every component descends, along `R`, from one whose label is a root. -/
def Descends {β : Type*} (label : α → β) (root : β → Prop) (R : β → β → Prop) :
    Except φ (List α) → Prop
  | .ok ss => ∀ s ∈ ss, ∃ c ∈ ss, root (label c) ∧ Relation.ReflTransGen R (label c) (label s)
  | .error _ => True

/-- No label is lost. -/
theorem exists_mem_label_eq {β : Type*} {label : α → β} {ss : List α} {i : ℕ} {s s' : α}
    (hs : ss[i]? = some s) (hlabel : label s' = label s) (new : List α) {c : α} (hc : c ∈ ss) :
    ∃ c' ∈ ss.set i s' ++ new, label c' = label c := by
  obtain ⟨j, hj⟩ := List.getElem?_of_mem hc
  have hlt : j < ss.length := (List.getElem?_eq_some_iff.mp hj).1
  by_cases hij : i = j
  · subst hij
    obtain rfl : s = c := Option.some.inj (hs.symm.trans hj)
    refine ⟨s', List.mem_append_left _ (List.mem_of_getElem? (i := i) ?_), hlabel⟩
    rw [List.getElem?_set_self hlt]
  · refine ⟨c, List.mem_append_left _ (List.mem_of_getElem? (i := j) ?_), rfl⟩
    rw [List.getElem?_set_ne hij, hj]

/-- **Rule for descent.** Components that start are roots, a move keeps the label, and what it
    spawns is related to it. -/
theorem descends_along {β : Type*} {label : α → β} {root : β → Prop} {R : β → β → Prop}
    {P : α → Prop} {Q : φ → Prop} {E : ι → Prop} {F : ε → Prop}
    (hinit : ∀ a s, E a → init a = some s → root (label s))
    (hmove : ∀ s e s' new, F e → P s → move s e = some (.ok (s', new)) →
      label s' = label s ∧ ∀ n ∈ new, R (label s) (label n))
    {ss : List α} {es : List (PoolEvent ι ε)}
    (hpool : StatesAlong (poolStep init move) (PoolOk P Q) (.ok ss) es)
    (hss : Descends (φ := φ) label root R (.ok ss)) (hes : ∀ e ∈ es, e.Allowed E F) :
    StatesAlong (poolStep init move) (Descends label root R) (.ok ss) es := by
  refine hpool.invariant_of_before (E := PoolEvent.Allowed E F) ?_ hss hes
  intro x e y he hP hx h
  obtain ⟨ss, rfl, ⟨a, s, rfl, hs, rfl⟩ | ⟨i, e', s, rfl, hs, hr⟩⟩ := poolStep_cases h
  · intro t ht
    obtain hold | hnew := List.mem_append.mp ht
    · obtain ⟨c, hc, hroot, hdesc⟩ := hx t hold
      exact ⟨c, List.mem_append_left _ hc, hroot, hdesc⟩
    · obtain rfl := List.mem_singleton.mp hnew
      exact ⟨t, ht, hinit a t he hs, .refl⟩
  · obtain ⟨f', -, rfl⟩ | ⟨s', new, hok, rfl⟩ := hr
    · trivial
    · obtain ⟨hlabel, hspawn⟩ := hmove s e' s' new he (hP s (List.mem_of_getElem? hs)) hok
      -- descent within the old pool, seen in the new one
      have hold : ∀ t ∈ ss, ∃ c' ∈ ss.set i s' ++ new, root (label c') ∧
          Relation.ReflTransGen R (label c') (label t) := by
        intro t ht
        obtain ⟨c, hc, hroot, hdesc⟩ := hx t ht
        obtain ⟨c', hc', hsame⟩ := exists_mem_label_eq hs hlabel new hc
        exact ⟨c', hc', hsame ▸ hroot, hsame ▸ hdesc⟩
      have hmoved := hold s (List.mem_of_getElem? hs)
      intro t ht
      obtain hset | hnew := List.mem_append.mp ht
      · obtain hkept | rfl := List.mem_or_eq_of_mem_set hset
        · exact hold t hkept
        · rw [hlabel]
          exact hmoved
      · obtain ⟨c', hc', hroot, hdesc⟩ := hmoved
        exact ⟨c', hc', hroot, hdesc.tail (hspawn t hnew)⟩

end Equic.Foundation
