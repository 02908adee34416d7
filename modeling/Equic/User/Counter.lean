import Equic.Kern.Counters

/-!
# User-space updates of the `counters` map

`equic_inc_counter` and `equic_dec_counter` from `equic_user.c`. Both return void in C;
here they also return which of their branches ran, which is what their log lines report.

The specifications of §2 state each call as a shift of the counter levels: by one at the
client's address when the update goes through, by nothing otherwise.
-/

namespace Equic.User

open Equic.Foundation Equic.Net Equic.Kern

/-! ## §1 The two calls -/

/-- The branch that a counter call took, with the data of its log line. -/
inductive CounterAction where
  /-- `Action=CounterIncrement, MapKey, MapValue` -/
  | increment (mapKey : InAddr) (mapValue : CInt)
  /-- `Action=CounterIncrement, Error` -/
  | incrementError
  /-- `Action=CounterCreation, MapKey, MapValue` -/
  | creation (mapKey : InAddr) (mapValue : CInt)
  /-- `Action=CounterCreation, Error` -/
  | creationError
  /-- `Action=CounterDecrement, MapKey, MapValue` -/
  | decrement (mapKey : InAddr) (mapValue : CInt)
  /-- `Action=CounterDecrement, Error` -/
  | decrementError
  /-- Early return, no counters to be updated. -/
  | zeroReturn
  /-- Nothing to decrement: the key has no entry. -/
  | lookupMiss
  deriving DecidableEq, Repr

/-- The call stored a new value. -/
def CounterAction.succeeded : CounterAction → Bool
  | .increment .. | .creation .. | .decrement .. => true
  | _ => false

/-- `client_addr_in->sin_addr.s_addr` after the cast to `sockaddr_in`: the key of both calls. -/
def counterKey (client : Sockaddr) : InAddr := client.sinAddr

/-- `equic_inc_counter`: increment the counter of the client, creating it if it is missing.
    A failed update is printed and ignored. -/
def equicIncCounter (fault : Bool) (counters : Counters) (client : Sockaddr) :
    Counters × CounterAction :=
  let key := counterKey client
  match counters.lookup key with
  | some value =>
    let value := value + 1#32
    match bpfMapUpdateElem fault counters key value .exist with
    | none => (counters, .incrementError)
    | some counters' => (counters', .increment key value)
  | none =>
    let value := 1#32
    match bpfMapUpdateElem fault counters key value .noExist with
    | none => (counters, .creationError)
    | some counters' => (counters', .creation key value)

/-- `equic_dec_counter`: decrement the counter of the client unless it is zero or missing.
    A failed update is printed and ignored. -/
def equicDecCounter (fault : Bool) (counters : Counters) (client : Sockaddr) :
    Counters × CounterAction :=
  let key := counterKey client
  match counters.lookup key with
  | some value =>
    if value = 0#32 then
      (counters, .zeroReturn)
    else
      let value := value - 1#32
      match bpfMapUpdateElem fault counters key value .exist with
      | none => (counters, .decrementError)
      | some counters' => (counters', .decrement key value)
  | none => (counters, .lookupMiss)

/-! ## §2 Specifications -/

section Specs

variable (fault : Bool) (counters : Counters) (client : Sockaddr)

/-- Every outcome of `equic_inc_counter`: it stores one more, creates the entry with 1, or
    fails and leaves the map alone. -/
theorem equicIncCounter_cases :
    (∃ v counters', counters.lookup client.sinAddr = some v ∧ fault = false ∧
      counters.update client.sinAddr (v + 1#32) .exist = some counters' ∧
      equicIncCounter fault counters client = (counters', .increment client.sinAddr (v + 1#32))) ∨
    (∃ counters', counters.lookup client.sinAddr = none ∧ fault = false ∧
      counters.update client.sinAddr 1#32 .noExist = some counters' ∧
      equicIncCounter fault counters client = (counters', .creation client.sinAddr 1#32)) ∨
    ((fault = true ∨ client.sinAddr ∉ counters ∧ counters.size = maxEntries) ∧
      (equicIncCounter fault counters client = (counters, .incrementError) ∨
        equicIncCounter fault counters client = (counters, .creationError))) := by
  cases hlookup : counters.lookup client.sinAddr with
  | some v =>
    have hmem := BoundedMap.mem_of_lookup hlookup
    -- the key is there, so the flag forbids nothing
    cases fault with
    | false =>
      obtain ⟨counters', hupd⟩ := BoundedMap.update_exist_of_mem (v + 1#32) hmem
      refine .inl ⟨v, counters', rfl, rfl, hupd, ?_⟩
      simp [equicIncCounter, counterKey, hlookup, hupd]
    | true => exact .inr (.inr ⟨.inl rfl, .inl (by simp [equicIncCounter, counterKey, hlookup])⟩)
  | none =>
    have hmem := BoundedMap.lookup_eq_none.mp hlookup
    cases fault with
    | true => exact .inr (.inr ⟨.inl rfl, .inr (by simp [equicIncCounter, counterKey, hlookup])⟩)
    | false =>
      -- a new key needs room
      rcases counters.size_le.lt_or_eq with hroom | hfull
      · obtain ⟨counters', hupd⟩ := BoundedMap.update_noExist_of_notMem 1#32 hmem hroom
        refine .inr (.inl ⟨counters', rfl, rfl, hupd, ?_⟩)
        simp [equicIncCounter, counterKey, hlookup, hupd]
      · have hupd := BoundedMap.update_noExist_of_full 1#32 hmem hfull
        refine .inr (.inr ⟨.inr ⟨hmem, hfull⟩, .inr ?_⟩)
        simp [equicIncCounter, counterKey, hlookup, hupd]

/-- The increment goes through unless the kernel refuses it or the map is full. -/
theorem equicIncCounter_succeeded_iff :
    (equicIncCounter fault counters client).2.succeeded = true ↔
      fault = false ∧ (client.sinAddr ∈ counters ∨ counters.size < maxEntries) := by
  rcases equicIncCounter_cases fault counters client with
    ⟨v, counters', hlookup, rfl, hupd, heq⟩ | ⟨counters', hlookup, rfl, hupd, heq⟩ | ⟨hfail, heq⟩
  · simp [heq, CounterAction.succeeded, BoundedMap.mem_of_lookup hlookup]
  · have hroom := (BoundedMap.update_eq_some.mp hupd).2.2
    simp [heq, CounterAction.succeeded, hroom]
  · -- neither error branch succeeds
    have hno : (equicIncCounter fault counters client).2.succeeded = false := by
      rcases heq with heq | heq <;> simp [heq, CounterAction.succeeded]
    rw [hno]
    rcases hfail with rfl | ⟨hmem, hfull⟩
    · simp
    · simp [hmem, hfull]

/-- A failed increment leaves the map as it is. -/
theorem equicIncCounter_of_not_succeeded
    (h : (equicIncCounter fault counters client).2.succeeded = false) :
    (equicIncCounter fault counters client).1 = counters := by
  rcases equicIncCounter_cases fault counters client with
    ⟨v, counters', -, -, -, heq⟩ | ⟨counters', -, -, -, heq⟩ | ⟨-, heq | heq⟩
  · simp [heq, CounterAction.succeeded] at h
  · simp [heq, CounterAction.succeeded] at h
  · rw [heq]
  · rw [heq]

/-- Keys after an increment: the client's is added if the call went through. -/
theorem mem_equicIncCounter {a : InAddr} :
    a ∈ (equicIncCounter fault counters client).1 ↔
      a ∈ counters ∨
        a = client.sinAddr ∧ (equicIncCounter fault counters client).2.succeeded = true := by
  rcases equicIncCounter_cases fault counters client with
    ⟨v, counters', hlookup, -, hupd, heq⟩ | ⟨counters', -, -, hupd, heq⟩ | ⟨-, heq | heq⟩
  · simp [heq, CounterAction.succeeded, BoundedMap.mem_update hupd, or_comm]
  · simp [heq, CounterAction.succeeded, BoundedMap.mem_update hupd, or_comm]
  · simp [heq, CounterAction.succeeded]
  · simp [heq, CounterAction.succeeded]

/-- **Specification of `equic_inc_counter`.** A call that goes through raises the counter
    of the client's address by one and leaves the others, exactly if the counter has not
    reached `INT_MAX`. -/
theorem equicIncCounter_level_iff
    (h : (equicIncCounter fault counters client).2.succeeded = true) :
    level (equicIncCounter fault counters client).1 =
        shift (level counters) (some client.sinAddr) 1 ↔
      level counters client.sinAddr < CInt.max := by
  rcases equicIncCounter_cases fault counters client with
    ⟨v, counters', hlookup, -, hupd, heq⟩ | ⟨counters', hlookup, -, hupd, heq⟩ | ⟨-, heq⟩
  · rw [heq, level_update_eq_shift_iff hupd, level_of_lookup hlookup]
    exact CInt.toInt_add_one_iff v
  · -- a created entry goes from 0 to 1
    rw [heq, level_update_eq_shift_iff hupd,
      level_of_notMem (BoundedMap.lookup_eq_none.mp hlookup)]
    simp [CInt.max]
  · rcases heq with heq | heq <;> simp [heq, CounterAction.succeeded] at h

/-- The key whose counter `equic_dec_counter` lowers, if it lowers one. -/
def releasedKey : Option InAddr :=
  if fault = true ∨ level counters client.sinAddr = 0 then none else some client.sinAddr

/-- Every outcome of `equic_dec_counter`: it stores one less, or leaves the map alone. -/
theorem equicDecCounter_cases :
    (∃ v counters', counters.lookup client.sinAddr = some v ∧ v ≠ 0#32 ∧ fault = false ∧
      counters.update client.sinAddr (v - 1#32) .exist = some counters' ∧
      equicDecCounter fault counters client = (counters', .decrement client.sinAddr (v - 1#32))) ∨
    (releasedKey fault counters client = none ∧
      (equicDecCounter fault counters client).1 = counters) := by
  cases hlookup : counters.lookup client.sinAddr with
  | none =>
    have hzero := level_of_notMem (BoundedMap.lookup_eq_none.mp hlookup)
    exact .inr ⟨by simp [releasedKey, hzero], by simp [equicDecCounter, counterKey, hlookup]⟩
  | some v =>
    by_cases hv : v = 0#32
    · -- the early return
      have hzero : level counters client.sinAddr = 0 := by
        rw [level_of_lookup hlookup, hv]
        rfl
      exact .inr ⟨by simp [releasedKey, hzero], by simp [equicDecCounter, counterKey, hlookup, hv]⟩
    · cases fault with
      | true =>
        exact .inr ⟨by simp [releasedKey], by simp [equicDecCounter, counterKey, hlookup, hv]⟩
      | false =>
        obtain ⟨counters', hupd⟩ :=
          BoundedMap.update_exist_of_mem (v - 1#32) (BoundedMap.mem_of_lookup hlookup)
        refine .inl ⟨v, counters', rfl, hv, rfl, hupd, ?_⟩
        simp [equicDecCounter, counterKey, hlookup, hv, hupd]

/-- `equic_dec_counter` neither adds nor removes an entry. -/
theorem mem_equicDecCounter {a : InAddr} :
    a ∈ (equicDecCounter fault counters client).1 ↔ a ∈ counters := by
  rcases equicDecCounter_cases fault counters client with
    ⟨v, counters', hlookup, -, -, hupd, heq⟩ | ⟨-, heq⟩
  · have hmem := BoundedMap.mem_of_lookup hlookup
    rw [heq, BoundedMap.mem_update hupd]
    exact ⟨by rintro (rfl | h) <;> assumption, Or.inr⟩
  · rw [heq]

/-- **Specification of `equic_dec_counter`.** On a counter that is not negative the call
    lowers the counter of `releasedKey` by one, and no other. -/
theorem equicDecCounter_level (h : 0 ≤ level counters client.sinAddr) :
    level (equicDecCounter fault counters client).1 =
      shift (level counters) (releasedKey fault counters client) (-1) := by
  rcases equicDecCounter_cases fault counters client with
    ⟨v, counters', hlookup, hv, rfl, hupd, heq⟩ | ⟨hnone, heq⟩
  · have hlevel := level_of_lookup hlookup
    -- the value is not 0, so this is the key that is released
    have hkey : releasedKey false counters client = some client.sinAddr := by
      simp [releasedKey, hlevel, ← CInt.eq_zero_iff, hv]
    rw [heq, hkey, level_update_eq_shift_iff hupd, hlevel, CInt.toInt_sub_one (hlevel ▸ h)]
    rfl
  · rw [hnone, heq, shift_none]

/-- The early return is taken exactly when the client has an entry with value 0. -/
theorem equicDecCounter_eq_zeroReturn_iff :
    (equicDecCounter fault counters client).2 = .zeroReturn ↔
      counters.lookup client.sinAddr = some 0#32 := by
  cases hlookup : counters.lookup client.sinAddr with
  | none => simp [equicDecCounter, counterKey, hlookup]
  | some v =>
    by_cases hv : v = 0#32
    · simp [equicDecCounter, counterKey, hlookup, hv]
    · cases hupd : bpfMapUpdateElem fault counters client.sinAddr (v - 1#32) .exist <;>
        simp [equicDecCounter, counterKey, hlookup, hv, hupd]

end Specs

end Equic.User
