import Equic.Foundation.Unwinding
import Equic.Server.System

/-!
# Isolation of clients in user-space mode

Clients of one /24 network share the `Quotas` array but not its entries. For the client at
an address `a` everything is decided by the one entry of `a`: its own open and close
callbacks move that entry as a function of the entry, and no other client's callback
touches it. These are the unwinding conditions, so the decisions for `a`'s connections
depend on nothing else.
-/

namespace Equic.Accounting

open Equic.Foundation Equic.Net Equic.Server

/-! ## §1 One entry of the array -/

/-- The key of an address in `Quotas`. -/
def quotaKey (a : InAddr) : Fin 256 := quotaIndex (.inet ⟨0, a⟩)

theorem quotaIndex_inet (peer : SockaddrIn) : quotaIndex (.inet peer) = quotaKey peer.sinAddr := by
  apply Fin.ext
  simp [quotaKey]

/-- Inside the network another address has another key. -/
theorem quotaKey_ne {a b : InAddr} (hnet : b.SameNet24 a) (hne : b ≠ a) :
    quotaKey b ≠ quotaKey a := by
  intro hkey
  exact hne ((quotaIndex_eq_iff (p := .inet ⟨0, b⟩) (q := .inet ⟨0, a⟩) hnet).mp hkey)

/-- What an open callback makes of the entry of its own key. -/
def entryOpened (entry : CInt) : CInt :=
  if quotaLimit ≤ entry.toInt then entry else entry + 1#32

/-- What a close callback makes of the entry of its own key. -/
def entryClosed (entry : CInt) : CInt := if entry.toInt > 0 then entry - 1#32 else entry

section Entry

variable {s : HttpServer} (fault : Bool) (now : Timespec) (c : ConnId) (peer : SockaddrIn)
  (h : s.ctx.hasEBPF = false)

include h

/-- The open callback refuses exactly if the entry of its key has reached the limit. -/
theorem closing_eq_entry :
    (httpServerOnNewConn fault now s c (.inet peer)).closing =
      decide (quotaLimit ≤ (s.quotas (quotaKey peer.sinAddr)).toInt) := by
  rw [httpServerOnNewConn_closing fault now c (.inet peer) h, ← quotaIndex_inet]
  exact Bool.eq_iff_iff.mpr (by simp [reachedQuotaLimit_iff, quotaLevel])

/-- The open callback touches the entry of its key only. -/
theorem quotas_newConn (k : Fin 256) :
    (httpServerOnNewConn fault now s c (.inet peer)).server.quotas k =
      if k = quotaKey peer.sinAddr then entryOpened (s.quotas k) else s.quotas k := by
  rw [httpServerOnNewConn_quotas fault now c (.inet peer) h]
  by_cases hk : k = quotaKey peer.sinAddr
  · subst hk
    have hreached := reachedQuotaLimit_iff s.quotas (.inet peer)
    rw [quotaLevel, quotaIndex_inet] at hreached
    by_cases hlimit : quotaLimit ≤ (s.quotas (quotaKey peer.sinAddr)).toInt
    · simp [hreached.mpr hlimit, entryOpened, hlimit]
    · rw [if_neg fun hr => hlimit (hreached.mp hr)]
      simp [incQuota, quotaIndex_inet, entryOpened, hlimit]
  · -- `inc_quota` updates the array at the peer's index
    have hother : (incQuota s.quotas (.inet peer)).1 k = s.quotas k := by
      simp [incQuota, quotaIndex_inet, Function.update_of_ne hk]
    simp only [if_neg hk]
    split
    · rfl
    · exact hother

/-- The close callback touches the entry of its key only. -/
theorem quotas_connClosed (k : Fin 256) :
    (httpServerOnConnClosed fault now s (.inet peer)).1.quotas k =
      if k = quotaKey peer.sinAddr then entryClosed (s.quotas k) else s.quotas k := by
  rw [httpServerOnConnClosed_quotas fault now (.inet peer) h]
  by_cases hk : k = quotaKey peer.sinAddr
  · subst hk
    by_cases hpos : (s.quotas (quotaKey peer.sinAddr)).toInt > 0 <;>
      simp [decQuota, quotaIndex_inet, entryClosed, hpos]
  · simp only [decQuota, quotaIndex_inet, if_neg hk]
    split
    · exact Function.update_of_ne hk _ _
    · rfl

end Entry

/-! ## §2 What a client sees -/

/-- An event of the client's own connections, without the time it happens at. -/
inductive OwnEvent where
  | opened (c : ConnId) (peer : SockaddrIn)
  | closed (c : ConnId)
  deriving DecidableEq, Repr

/-- The event as the client at `a` sees it, if it is one of its own connections'. -/
def ownEvent (a : InAddr) (s : System) : Event → Option OwnEvent
  | .newConn c peer _ _ => if peer.sinAddr = a then some (.opened c peer) else none
  | .migrate .. => none
  | .connClosed c _ _ =>
    (s.live.lookup c).bind fun r => if r.peer.sinAddr = a then some (.closed c) else none

/-- The decision that an open callback takes on a connection of the client at `a`. -/
inductive Decision where
  | accept
  | refuse
  deriving DecidableEq, Repr

def decisionFor (a : InAddr) (s : System) : Event → Option (ConnId × Decision)
  | .newConn c peer fault now =>
    if peer.sinAddr = a then
      let closing := (httpServerOnNewConn fault now s.server c (.inet peer)).closing
      some (c, if closing then .refuse else .accept)
    else none
  | _ => none

/-- The events of a client's own connections along a run. -/
def ownEvents (a : InAddr) (s : System) (es : List Event) : List OwnEvent :=
  outputs step (ownEvent a) s es

/-- The decisions on a client's own connections along a run. -/
def decisions (a : InAddr) (s : System) (es : List Event) : List (ConnId × Decision) :=
  outputs step (decisionFor a) s es

/-- User-space mode, with all open connections from the network of `a`. -/
structure ServesNet24 (a : InAddr) (s : System) : Prop where
  userSpace : s.server.ctx.hasEBPF = false
  sameNet : ∀ c r, s.live.lookup c = some r → r.peer.sinAddr.SameNet24 a

theorem servesNet24_initial (a : InAddr) (maxConn : UInt32) (cooldown : Bool) :
    ServesNet24 a (System.initial ⟨false, maxConn, cooldown⟩) where
  userSpace := rfl
  sameNet c r hr := by cases hr

/-- An open or close callback of a client from the network of `a`. -/
def Event.InNet24 (a : InAddr) : Event → Prop
  | .newConn _ peer _ _ => peer.sinAddr.SameNet24 a
  | .migrate .. => False
  | .connClosed .. => True

instance (a : InAddr) : DecidablePred (Event.InNet24 a)
  | .newConn _ peer _ _ => inferInstanceAs (Decidable (peer.sinAddr.SameNet24 a))
  | .migrate .. => inferInstanceAs (Decidable False)
  | .connClosed .. => inferInstanceAs (Decidable True)

/-! ## §3 Non-interference -/

/-- The entry of its key under an own event. -/
def entryAct (entry : CInt) : OwnEvent → CInt
  | .opened .. => entryOpened entry
  | .closed _ => entryClosed entry

/-- The decision that the entry of its key makes on an own event. -/
def entryAnswer (entry : CInt) : OwnEvent → Option (ConnId × Decision)
  | .opened c _ => some (c, if quotaLimit ≤ entry.toInt then .refuse else .accept)
  | .closed _ => none

theorem servesNet24_step {a : InAddr} {s s' : System} {e : Event} (he : Event.InNet24 a e)
    (hs : ServesNet24 a s) (h : step s e = some s') : ServesNet24 a s' := by
  refine ⟨(step_hasEBPF h).trans hs.userSpace, fun c' r' hr' => ?_⟩
  obtain ⟨c, peer, fault, now, rfl, -, rfl⟩ | ⟨c, peer, r, rfl, -, rfl⟩ |
    ⟨c, fault, now, r, rfl, hr, rfl⟩ := step_cases h
  · obtain ⟨-, rfl⟩ | hold := Table.lookup_insert_cases hr'
    · exact he
    · exact hs.sameNet c' r' hold
  · exact he.elim
  · exact hs.sameNet c' r' (Table.lookup_of_erase hr')

/-- To the client at `a` the server is the entry of its key. -/
theorem unwinding_entry (a : InAddr) :
    Unwinding step (Event.InNet24 a) (ServesNet24 a) (ownEvent a)
      (fun s => s.server.quotas (quotaKey a)) entryAct (decisionFor a) entryAnswer where
  keeps he hs h := servesNet24_step he hs h
  foreign_view := by
    intro s e s' he hs h hown
    obtain ⟨c, peer, fault, now, rfl, -, rfl⟩ | ⟨c, peer, r, rfl, -, rfl⟩ |
      ⟨c, fault, now, r, rfl, hr, rfl⟩ := step_cases h
    · have hne : peer.sinAddr ≠ a := by simpa [ownEvent] using hown
      show (httpServerOnNewConn fault now s.server c (.inet peer)).server.quotas _ = _
      rw [quotas_newConn fault now c peer hs.userSpace, if_neg (quotaKey_ne he hne).symm]
    · rfl
    · have hne : r.peer.sinAddr ≠ a := by simpa [ownEvent, hr] using hown
      have hkey := (quotaKey_ne (hs.sameNet c r hr) hne).symm
      show (httpServerOnConnClosed fault now s.server (.inet r.peer)).1.quotas _ = _
      rw [quotas_connClosed fault now r.peer hs.userSpace, if_neg hkey]
  foreign_out := by
    intro s e s' _ _ _ hown
    cases e with
    | newConn c peer fault now =>
      have hne : peer.sinAddr ≠ a := by simpa [ownEvent] using hown
      exact if_neg hne
    | migrate c peer => rfl
    | connClosed c fault now => rfl
  own_view := by
    intro s e s' k _ hs h hown
    obtain ⟨c, peer, fault, now, rfl, -, rfl⟩ | ⟨c, peer, r, rfl, -, rfl⟩ |
      ⟨c, fault, now, r, rfl, hr, rfl⟩ := step_cases h
    · obtain ⟨rfl, rfl⟩ : peer.sinAddr = a ∧ .opened c peer = k := by simpa [ownEvent] using hown
      show (httpServerOnNewConn fault now s.server c (.inet peer)).server.quotas _ = _
      rw [quotas_newConn fault now c peer hs.userSpace, if_pos rfl]
      rfl
    · cases hown
    · obtain ⟨rfl, rfl⟩ : r.peer.sinAddr = a ∧ .closed c = k := by simpa [ownEvent, hr] using hown
      show (httpServerOnConnClosed fault now s.server (.inet r.peer)).1.quotas _ = _
      rw [quotas_connClosed fault now r.peer hs.userSpace, if_pos rfl]
      rfl
  own_out := by
    intro s e s' k _ hs _ hown
    cases e with
    | newConn c peer fault now =>
      obtain ⟨rfl, rfl⟩ : peer.sinAddr = a ∧ .opened c peer = k := by simpa [ownEvent] using hown
      simp [decisionFor, entryAnswer, closing_eq_entry fault now c peer hs.userSpace]
    | migrate c peer => cases hown
    | connClosed c fault now =>
      -- a close is answered by nothing
      obtain ⟨r, -, hk⟩ := Option.bind_eq_some_iff.mp hown
      obtain ⟨-, rfl⟩ : r.peer.sinAddr = a ∧ .closed c = k := by simpa using hk
      rfl

/-- **Clients of one network do not influence each other.** In two user-space runs of open
    and close callbacks by clients of one /24 network, from the same `Quotas` array, in
    which the client at `a` has the same events in the same order, each of its connections
    gets the same decision, whatever the other clients do in between. -/
theorem userSpace_noninterference (a : InAddr) {s₁ s₂ : System} {es₁ es₂ : List Event}
    (hs₁ : ServesNet24 a s₁) (hs₂ : ServesNet24 a s₂)
    (hes₁ : ∀ e ∈ es₁, Event.InNet24 a e) (hes₂ : ∀ e ∈ es₂, Event.InNet24 a e)
    (hquotas : s₁.server.quotas = s₂.server.quotas)
    (hown : ownEvents a s₁ es₁ = ownEvents a s₂ es₂) :
    decisions a s₁ es₁ = decisions a s₂ es₂ :=
  (unwinding_entry a).noninterference hs₁ hs₂ hes₁ hes₂ (by rw [hquotas]) hown

/-- A client opens two connections and closes the first. -/
def quietRun : List Event :=
  let peer : SockaddrIn := ⟨4433, ⟨192, 168, 0, 7⟩⟩
  [.newConn 1 peer false ⟨0, 0⟩, .newConn 2 peer false ⟨1, 0⟩, .connClosed 1 false ⟨2, 0⟩]

/-- The same, next to a neighbour who runs into the limit and closes again. -/
def busyRun : List Event :=
  let peer : SockaddrIn := ⟨4433, ⟨192, 168, 0, 7⟩⟩
  let other : SockaddrIn := ⟨4433, ⟨192, 168, 0, 8⟩⟩
  [.newConn 11 other false ⟨0, 0⟩, .newConn 12 other false ⟨0, 0⟩, .newConn 13 other false ⟨0, 0⟩,
    .newConn 1 peer false ⟨5, 0⟩, .newConn 14 other false ⟨5, 0⟩, .newConn 15 other false ⟨5, 0⟩,
    .newConn 16 other false ⟨6, 0⟩, .connClosed 16 false ⟨6, 0⟩, .newConn 2 peer false ⟨7, 0⟩,
    .connClosed 11 false ⟨8, 0⟩, .connClosed 1 false ⟨9, 0⟩]

theorem userSpace_noninterference_busyRun :
    decisions ⟨192, 168, 0, 7⟩ (System.initial ⟨false, 0, false⟩) quietRun =
      decisions ⟨192, 168, 0, 7⟩ (System.initial ⟨false, 0, false⟩) busyRun :=
  userSpace_noninterference ⟨192, 168, 0, 7⟩ (servesNet24_initial _ 0 false)
    (servesNet24_initial _ 0 false) (by decide) (by decide) rfl (by decide +kernel)

end Equic.Accounting
