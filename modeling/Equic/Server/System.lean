import Equic.Foundation.Runs
import Equic.Server.Callbacks

/-!
# The server under lsquic

The transition system that the accounting results are about: lsquic opens connections,
moves their peer addresses and closes them, and calls the callbacks of the server while
doing so. A connection refused by `lsquic_conn_close` stays in the table like any other
until its close callback comes.

The table of open connections also records what the results speak about: the address a
connection was opened from, and whether its open callback took a slot.
-/

namespace Equic.Server

open Equic.Foundation Equic.Net Equic.Kern Equic.User

/-! ## §1 States and events -/

/-- An open connection: one whose close callback has not come yet. -/
structure Conn where
  /-- The peer address that `http_server_on_new_conn` saw. -/
  openedFrom : SockaddrIn
  /-- The peer address that lsquic reports now. -/
  peer : SockaddrIn
  /-- The open callback took a slot: a map update that went through, or `inc_quota`. -/
  counted : Bool
  deriving DecidableEq, Repr

/-- The server process and the connections that lsquic holds for it. -/
structure System where
  server : HttpServer
  live : Table ConnId Conn

/-- What lsquic does. A handle may be used again after its connection is closed. -/
inductive Event where
  /-- `on_new_conn` for a connection from `peer`. -/
  | newConn (c : ConnId) (peer : SockaddrIn) (fault : Bool) (now : Timespec)
  /-- The peer address of a connection changes (path migration, NAT rebinding). -/
  | migrate (c : ConnId) (peer : SockaddrIn)
  /-- `on_conn_closed`. -/
  | connClosed (c : ConnId) (fault : Bool) (now : Timespec)
  deriving DecidableEq, Repr

/-- The open callback of a connection from `peer` takes a slot. -/
def takesSlot (fault : Bool) (s : HttpServer) (peer : SockaddrIn) : Bool :=
  if s.ctx.hasEBPF then (equicIncCounter fault s.counters (.inet peer)).2.succeeded
  else !(reachedQuotaLimit s.quotas (.inet peer)).1

/-- One event. Opening needs a free handle, the others a handle in use. -/
def step (s : System) : Event → Option System
  | .newConn c peer fault now =>
    if c ∈ s.live then none
    else some {
      server := (httpServerOnNewConn fault now s.server c (.inet peer)).server
      live := s.live.insert c ⟨peer, peer, takesSlot fault s.server peer⟩ }
  | .migrate c peer =>
    match s.live.lookup c with
    | none => none
    | some r => some { s with live := s.live.insert c { r with peer := peer } }
  | .connClosed c fault now =>
    match s.live.lookup c with
    | none => none
    | some r => some {
        server := (httpServerOnConnClosed fault now s.server (.inet r.peer)).1
        live := s.live.erase c }

/-- The command line and the program flags, as far as the callbacks depend on them. -/
structure Config where
  hasEBPF : Bool
  maxConn : UInt32
  cooldown : Bool

/-- The server before its first connection, with an empty map and an all-zero array. -/
def System.initial (cfg : Config) : System where
  server :=
    { ctx :=
        { connH := none, maxConn := cfg.maxConn, nConn := 0, nCurrentConns := 0
          hasEBPF := cfg.hasEBPF, beginT := ⟨0, 0⟩, endT := ⟨0, 0⟩ }
      counters := BoundedMap.empty
      quotas := fun _ => 0#32
      requestsPerSecond := 0#32
      cooldown := cfg.cooldown
      stopped := false }
  live := ∅

/-! ## §2 Every step, spelled out -/

/-- A connection opens on a free handle. -/
theorem newConn_of_step {s s' : System} {c : ConnId} {peer : SockaddrIn} {fault : Bool}
    {now : Timespec} (h : step s (.newConn c peer fault now) = some s') :
    c ∉ s.live ∧ s' = {
      server := (httpServerOnNewConn fault now s.server c (.inet peer)).server
      live := s.live.insert c ⟨peer, peer, takesSlot fault s.server peer⟩ } := by
  by_cases hc : c ∈ s.live
  · simp [step, hc] at h
  · exact ⟨hc, by simpa [step, hc] using h.symm⟩

/-- Only an open connection closes, and its callback sees the peer address of the moment. -/
theorem connClosed_of_step {s s' : System} {c : ConnId} {fault : Bool} {now : Timespec}
    (h : step s (.connClosed c fault now) = some s') :
    ∃ r, s.live.lookup c = some r ∧ s' = {
      server := (httpServerOnConnClosed fault now s.server (.inet r.peer)).1
      live := s.live.erase c } := by
  cases hr : s.live.lookup c with
  | none => simp [step, hr] at h
  | some r => exact ⟨r, rfl, by simpa [step, hr] using h.symm⟩

/-- A free handle can always be opened. -/
theorem exists_step_newConn {s : System} {c : ConnId} (peer : SockaddrIn) (fault : Bool)
    (now : Timespec) (hc : c ∉ s.live) :
    ∃ s', step s (.newConn c peer fault now) = some s' ∧
      s'.live = s.live.insert c ⟨peer, peer, takesSlot fault s.server peer⟩ :=
  ⟨_, by rw [step, if_neg hc], rfl⟩

/-- An open connection can always be closed. -/
theorem exists_step_connClosed {s : System} {c : ConnId} {r : Conn} (fault : Bool)
    (now : Timespec) (hr : s.live.lookup c = some r) :
    ∃ s', step s (.connClosed c fault now) = some s' ∧ s'.live = s.live.erase c :=
  ⟨_, by simp only [step, hr]; rfl, rfl⟩

/-- Everything a step can be. -/
theorem step_cases {s s' : System} {e : Event} (h : step s e = some s') :
    (∃ c peer fault now, e = .newConn c peer fault now ∧ c ∉ s.live ∧
      s' = {
        server := (httpServerOnNewConn fault now s.server c (.inet peer)).server
        live := s.live.insert c ⟨peer, peer, takesSlot fault s.server peer⟩ }) ∨
    (∃ c peer r, e = .migrate c peer ∧ s.live.lookup c = some r ∧
      s' = { s with live := s.live.insert c { r with peer := peer } }) ∨
    (∃ c fault now r, e = .connClosed c fault now ∧ s.live.lookup c = some r ∧
      s' = {
        server := (httpServerOnConnClosed fault now s.server (.inet r.peer)).1
        live := s.live.erase c }) := by
  cases e with
  | newConn c peer fault now => exact .inl ⟨c, peer, fault, now, rfl, newConn_of_step h⟩
  | migrate c peer =>
    cases hr : s.live.lookup c with
    | none => simp [step, hr] at h
    | some r => exact .inr (.inl ⟨c, peer, r, rfl, hr, by simpa [step, hr] using h.symm⟩)
  | connClosed c fault now =>
    obtain ⟨r, hr, hs'⟩ := connClosed_of_step h
    exact .inr (.inr ⟨c, fault, now, r, rfl, hr, hs'⟩)

/-- The mode of the server never changes. -/
theorem step_hasEBPF {s s' : System} {e : Event} (h : step s e = some s') :
    s'.server.ctx.hasEBPF = s.server.ctx.hasEBPF := by
  obtain ⟨c, peer, fault, now, -, -, rfl⟩ | ⟨c, peer, r, -, -, rfl⟩ |
    ⟨c, fault, now, r, -, -, rfl⟩ := step_cases h
  · simp
  · rfl
  · simp

/-! ## §3 Restricted runs -/

/-- The event leaves the peer address of every open connection alone. -/
def Event.KeepsPeer : Event → Prop
  | .migrate .. => False
  | _ => True

/-- The kernel refuses no update of its own accord. -/
def Event.NoFault : Event → Prop
  | .newConn _ _ fault _ => fault = false
  | .migrate .. => True
  | .connClosed _ fault _ => fault = false

instance : DecidablePred Event.KeepsPeer
  | .newConn .. => inferInstanceAs (Decidable True)
  | .migrate .. => inferInstanceAs (Decidable False)
  | .connClosed .. => inferInstanceAs (Decidable True)

instance : DecidablePred Event.NoFault
  | .newConn _ _ fault _ => inferInstanceAs (Decidable (fault = false))
  | .migrate .. => inferInstanceAs (Decidable True)
  | .connClosed _ fault _ => inferInstanceAs (Decidable (fault = false))

/-- The address an event opens a connection from. -/
def Event.opener : Event → Option InAddr
  | .newConn _ peer _ _ => some peer.sinAddr
  | _ => none

/-- The distinct addresses that connections were opened from. -/
def peersSeen (es : List Event) : Finset InAddr := (es.filterMap Event.opener).toFinset

theorem mem_peersSeen {es : List Event} {a : InAddr} :
    a ∈ peersSeen es ↔ ∃ e ∈ es, e.opener = some a := by
  simp [peersSeen]

/-- Every open connection still has the peer address it was opened from. -/
def PeersKept (s : System) : Prop :=
  ∀ c r, s.live.lookup c = some r → r.peer = r.openedFrom

theorem peersKept_initial (cfg : Config) : PeersKept (System.initial cfg) := by
  intro c r hr
  cases hr

/-- Without address changes every connection keeps its peer address. -/
theorem peersKept_step {s s' : System} {e : Event} (he : e.KeepsPeer) (hs : PeersKept s)
    (h : step s e = some s') : PeersKept s' := by
  obtain ⟨c, peer, fault, now, rfl, -, rfl⟩ | ⟨c, peer, r, rfl, -, rfl⟩ |
    ⟨c, fault, now, r, rfl, hr, rfl⟩ := step_cases h
  · intro c' r' hr'
    obtain ⟨-, rfl⟩ | hold := Table.lookup_insert_cases hr'
    · -- lsquic reports the address of the open
      rfl
    · exact hs c' r' hold
  · exact he.elim
  · intro c' r' hr'
    exact hs c' r' (Table.lookup_of_erase hr')

end Equic.Server
