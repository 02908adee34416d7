import Equic.Foundation.Runs
import Equic.Foundation.Ledger
import Equic.User.Counter

/-!
# Connection contexts of the echo server

`echo_server_on_new_conn` and `echo_server_on_conn_closed`. Each connection has a context
on the heap, linked into the list `conn_ctxs` of its server. The heap is a table of the
records that exist, and reading a record that is not there is an error, so that the order
in which a callback frees a record and uses it is visible in the model.
-/

namespace Equic.Echo

open Equic.Foundation Equic.Net Equic.Kern Equic.User

/-! ## §1 The heap and the list of contexts -/

/-- A server, `struct echo_server_ctx *`. -/
abbrev ServerId := ℕ

/-- A connection handle, `lsquic_conn_t *`. -/
abbrev ConnId := ℕ

/-- A connection context, `lsquic_conn_ctx_t *`. -/
abbrev CtxId := ℕ

/-- `struct lsquic_conn_ctx`; its list entry is kept in the list itself. -/
structure ConnCtx where
  conn : ConnId
  serverCtx : ServerId
  deriving DecidableEq, Repr

/-- `struct echo_server_ctx`, with the map behind `server_ctx->equic`. -/
structure EchoServer where
  connCtxs : List CtxId
  nConn : CInt
  counters : Counters
  /-- Calls of `prog_stop`. -/
  stops : ℕ

/-- The contexts that exist. -/
abbrev Contexts := Table CtxId ConnCtx

/-- A record that was used and does not exist. -/
inductive MemError where
  | missing (h : CtxId)
  deriving DecidableEq, Repr

/-- A read or write through a pointer to a context. -/
def Contexts.use (contexts : Contexts) (h : CtxId) : Except MemError ConnCtx :=
  match contexts.lookup h with
  | some ctx => .ok ctx
  | none => .error (.missing h)

/-- A use of each of several contexts. -/
def Contexts.useAll (contexts : Contexts) : List CtxId → Except MemError Unit
  | [] => .ok ()
  | h :: hs => do
    let _ ← contexts.use h
    contexts.useAll hs

/-- `TAILQ_INSERT_TAIL`: it writes the entry of the element that was the last. -/
def tailqInsertTail (contexts : Contexts) (head : List CtxId) (h : CtxId) :
    Except MemError (List CtxId) := do
  let _ ← contexts.useAll head.getLast?.toList
  return head ++ [h]

/-- The elements before and after `h`. -/
def neighbours (head : List CtxId) (h : CtxId) : List CtxId :=
  (head.takeWhile (· ≠ h)).getLast?.toList ++ (head.dropWhile (· ≠ h)).tail.head?.toList

/-- `TAILQ_REMOVE`: it writes the entries of the neighbours. -/
def tailqRemove (contexts : Contexts) (head : List CtxId) (h : CtxId) :
    Except MemError (List CtxId) := do
  let _ ← contexts.useAll (neighbours head h)
  return head.erase h

@[simp] theorem use_of_lookup {contexts : Contexts} {h : CtxId} {ctx : ConnCtx}
    (hctx : contexts.lookup h = some ctx) : contexts.use h = .ok ctx := by
  simp [Contexts.use, hctx]

/-- A freed record cannot be used. -/
theorem use_erase (contexts : Contexts) (h : CtxId) :
    Contexts.use (contexts.erase h) h = .error (.missing h) := by
  unfold Contexts.use
  rw [AList.lookup_erase]

theorem useAll_of_mem {contexts : Contexts} {hs : List CtxId} (h : ∀ x ∈ hs, x ∈ contexts) :
    contexts.useAll hs = .ok () := by
  induction hs with
  | nil => rfl
  | cons x hs ih =>
    obtain ⟨ctx, hctx⟩ := Option.isSome_iff_exists.mp
      (AList.lookup_isSome.mpr (h x List.mem_cons_self))
    have hrest := ih fun y hy => h y (List.mem_cons_of_mem x hy)
    simp only [Contexts.useAll, use_of_lookup hctx, hrest]
    rfl

theorem mem_of_mem_neighbours {head : List CtxId} {h x : CtxId} (hx : x ∈ neighbours head h) :
    x ∈ head := by
  simp only [neighbours, List.mem_append, Option.mem_toList] at hx
  rcases hx with hx | hx
  · exact (List.takeWhile_sublist _).subset (List.mem_of_getLast? hx)
  · exact (List.dropWhile_sublist _).subset (List.mem_of_mem_tail (List.mem_of_head? hx))

/-- The list operations stay inside the heap if the list does. -/
theorem tailqInsertTail_eq {contexts : Contexts} {head : List CtxId} (h : CtxId)
    (hhead : ∀ x ∈ head, x ∈ contexts) :
    tailqInsertTail contexts head h = .ok (head ++ [h]) := by
  have huse : contexts.useAll head.getLast?.toList = .ok () := by
    apply useAll_of_mem
    intro x hx
    exact hhead x (List.mem_of_getLast? (by simpa using hx))
  rw [tailqInsertTail, huse]
  rfl

theorem tailqRemove_eq {contexts : Contexts} {head : List CtxId} (h : CtxId)
    (hhead : ∀ x ∈ head, x ∈ contexts) :
    tailqRemove contexts head h = .ok (head.erase h) := by
  have huse : contexts.useAll (neighbours head h) = .ok () :=
    useAll_of_mem fun x hx => hhead x (mem_of_mem_neighbours hx)
  rw [tailqRemove, huse]
  rfl

/-! ## §2 The callbacks -/

/-- The servers of the process and the heap they share. -/
structure EchoState where
  servers : ServerId → EchoServer
  contexts : Contexts

/-- `echo_server_on_new_conn`; `connH` is what `calloc` returns. -/
def echoServerOnNewConn (fault : Bool) (s : EchoState) (serverCtx : ServerId) (conn : ConnId)
    (connH : CtxId) (peer : Sockaddr) : Except MemError EchoState := do
  let contexts := s.contexts.insert connH ⟨conn, serverCtx⟩
  let server := s.servers serverCtx
  let connCtxs ← tailqInsertTail contexts server.connCtxs connH
  let (counters, _) := equicIncCounter fault server.counters peer
  let server := { server with connCtxs := connCtxs, counters := counters }
  return { servers := Function.update s.servers serverCtx server, contexts := contexts }

/-- The connection count of `echo_server_on_conn_closed`: a server started with a number
    of connections stops after the last of them. -/
def countDown (server : EchoServer) : EchoServer :=
  if server.nConn ≠ 0#32 then
    let nConn := server.nConn - 1#32
    { server with nConn := nConn, stops := if nConn = 0#32 then server.stops + 1 else server.stops }
  else server

/-- `echo_server_on_conn_closed` up to and including `free(conn_h)`. -/
def unlinkAndFree (s : EchoState) (connH : CtxId) : Except MemError EchoState := do
  let ctx ← s.contexts.use connH
  let server := countDown (s.servers ctx.serverCtx)
  let connCtxs ← tailqRemove s.contexts server.connCtxs connH
  let server := { server with connCtxs := connCtxs }
  return {
    servers := Function.update s.servers ctx.serverCtx server
    contexts := s.contexts.erase connH }

/-- `equic_dec_counter(server_ctx->equic, peer)`. -/
def decCounterOf (fault : Bool) (s : EchoState) (serverCtx : ServerId) (peer : Sockaddr) :
    EchoState :=
  let server := s.servers serverCtx
  let (counters, _) := equicDecCounter fault server.counters peer
  { s with servers := Function.update s.servers serverCtx { server with counters := counters } }

/-- `echo_server_on_conn_closed`; `connH` is what `lsquic_conn_get_ctx` returns. -/
def echoServerOnConnClosed (fault : Bool) (s : EchoState) (connH : CtxId) (peer : Sockaddr) :
    Except MemError EchoState := do
  let s ← unlinkAndFree s connH
  -- `conn_h->server_ctx`, read once more for the map
  let ctx ← s.contexts.use connH
  return decCounterOf fault s ctx.serverCtx peer

/-! ## §3 Runs -/

/-- An open connection, as lsquic holds it. -/
structure EchoConn where
  /-- The context that `echo_server_on_new_conn` returned. -/
  connH : CtxId
  /-- The server whose callback that was. -/
  openedOn : ServerId
  deriving DecidableEq, Repr

structure EchoSystem where
  state : EchoState
  conns : Table ConnId EchoConn

/-- What lsquic does. The allocator may return any address that is not in use. -/
inductive EchoEvent where
  | newConn (c : ConnId) (server : ServerId) (connH : CtxId) (peer : Sockaddr) (fault : Bool)
  | connClosed (c : ConnId) (peer : Sockaddr) (fault : Bool)
  deriving DecidableEq, Repr

/-- One event. A use of a missing record ends the run in an error. -/
def step : Except MemError EchoSystem → EchoEvent → Option (Except MemError EchoSystem)
  | .error _, _ => none
  | .ok s, .newConn c server connH peer fault =>
    if c ∈ s.conns ∨ connH ∈ s.state.contexts then none
    else some do
      let state ← echoServerOnNewConn fault s.state server c connH peer
      return { state := state, conns := s.conns.insert c ⟨connH, server⟩ }
  | .ok s, .connClosed c peer fault =>
    match s.conns.lookup c with
    | none => none
    | some r => some do
      let state ← echoServerOnConnClosed fault s.state r.connH peer
      return { state := state, conns := s.conns.erase c }

/-- Servers without connections, each with its `-n` option. -/
def EchoSystem.initial (nConn : ServerId → CInt) : EchoSystem where
  state :=
    { servers := fun server => ⟨[], nConn server, BoundedMap.empty, 0⟩
      contexts := ∅ }
  conns := ∅

/-- The lists contain only contexts that exist, and so do the connections, each under the
    server that it was opened on. -/
structure ContextsLinked (s : EchoSystem) : Prop where
  listed : ∀ server, ∀ h ∈ (s.state.servers server).connCtxs, h ∈ s.state.contexts
  held : ∀ c r, s.conns.lookup c = some r →
    ∃ ctx, s.state.contexts.lookup r.connH = some ctx ∧ ctx.serverCtx = r.openedOn

theorem contextsLinked_initial (nConn : ServerId → CInt) :
    ContextsLinked (EchoSystem.initial nConn) where
  listed server h hh := by cases hh
  held c r hr := by cases hr

/-- In a linked state a new connection uses no missing record. -/
theorem step_newConn {s : EchoSystem} (hs : ContextsLinked s) {c : ConnId} {server : ServerId}
    {connH : CtxId} {peer : Sockaddr} {fault : Bool} {x : Except MemError EchoSystem}
    (h : step (.ok s) (.newConn c server connH peer fault) = some x) :
    ∃ s', x = .ok s' ∧ ContextsLinked s' := by
  by_cases hfree : c ∈ s.conns ∨ connH ∈ s.state.contexts
  · simp [step, hfree] at h
  · rw [not_or] at hfree
    have hgrown : ∀ server', ∀ y ∈ (s.state.servers server').connCtxs,
        y ∈ s.state.contexts.insert connH ⟨c, server⟩ := fun server' y hy =>
      (AList.mem_insert _).mpr (.inr (hs.listed server' y hy))
    simp only [step, hfree, or_self, if_false, echoServerOnNewConn,
      tailqInsertTail_eq connH (hgrown server), Option.some.injEq] at h
    refine ⟨_, h.symm, ⟨fun server' y hy => ?_, fun c' r' hr' => ?_⟩⟩
    · by_cases hserver : server' = server
      · subst hserver
        change y ∈ (Function.update s.state.servers server' _ server').connCtxs at hy
        rw [Function.update_self, List.mem_append, List.mem_singleton] at hy
        rcases hy with hy | rfl
        · exact hgrown server' y hy
        · exact (AList.mem_insert _).mpr (.inl rfl)
      · change y ∈ (Function.update s.state.servers server _ server').connCtxs at hy
        rw [Function.update_of_ne hserver] at hy
        exact hgrown server' y hy
    · obtain ⟨rfl, rfl⟩ | hold := Table.lookup_insert_cases hr'
      · exact ⟨⟨c', server⟩, AList.lookup_insert _, rfl⟩
      · obtain ⟨ctx, hctx, hserver⟩ := hs.held c' r' hold
        have hne : r'.connH ≠ connH := by
          rintro rfl
          exact hfree.2 (AList.lookup_isSome.mp (by rw [hctx]; rfl))
        exact ⟨ctx, (AList.lookup_insert_ne hne).trans hctx, hserver⟩

/-- In a linked state everything up to the `free` finds its records. -/
theorem unlinkAndFree_ok {s : EchoSystem} (hs : ContextsLinked s) {c : ConnId} {r : EchoConn}
    (hr : s.conns.lookup c = some r) :
    ∃ state, unlinkAndFree s.state r.connH = .ok state ∧
      state.contexts = s.state.contexts.erase r.connH := by
  obtain ⟨ctx, hctx, -⟩ := hs.held c r hr
  have hlist : ∀ y ∈ (countDown (s.state.servers ctx.serverCtx)).connCtxs,
      y ∈ s.state.contexts := by
    intro y hy
    apply hs.listed ctx.serverCtx
    unfold countDown at hy
    split at hy
    · exact hy
    · exact hy
  unfold unlinkAndFree
  rw [use_of_lookup hctx]
  dsimp only [bind, Except.bind]
  rw [tailqRemove_eq r.connH hlist]
  exact ⟨_, rfl, rfl⟩

/-- The close callback always ends in the use of the context it has just freed. -/
theorem step_connClosed {s : EchoSystem} (hs : ContextsLinked s) {c : ConnId} {r : EchoConn}
    (hr : s.conns.lookup c = some r) (peer : Sockaddr) (fault : Bool) :
    step (.ok s) (.connClosed c peer fault) = some (.error (.missing r.connH)) := by
  obtain ⟨state, hfree, hcontexts⟩ := unlinkAndFree_ok hs hr
  have huse : state.contexts.use r.connH = .error (.missing r.connH) := by
    rw [hcontexts]
    exact use_erase _ _
  simp only [step, hr, echoServerOnConnClosed, hfree]
  show some (Except.bind (Except.bind (state.contexts.use r.connH) _) _) = _
  rw [huse]
  rfl

/-! ## §4 When the contexts are used only while they exist -/

/-- No record was missing so far. -/
def NothingMissing (x : Except MemError EchoSystem) : Prop := ∃ s, x = .ok s

/-- A close callback decrements once, on the map of the server that the connection was
    opened on, and touches no other map. -/
def DecrementsOnce (x : Except MemError EchoSystem) (e : EchoEvent) : Prop :=
  ∀ s c peer fault r, x = .ok s → e = .connClosed c peer fault → s.conns.lookup c = some r →
    ∃ s', step x e = some (.ok s') ∧ ∀ server, (s'.state.servers server).counters =
      if server = r.openedOn then
        (equicDecCounter fault (s.state.servers server).counters peer).1
      else (s.state.servers server).counters

/-- The event is not a close. -/
def NotClose (_ : Except MemError EchoSystem) : EchoEvent → Prop
  | .newConn .. => True
  | .connClosed .. => False

/-- A step out of a linked state links the new context in, or frees a context and then
    uses it. -/
theorem step_cases {s : EchoSystem} (hs : ContextsLinked s) {e : EchoEvent}
    {x : Except MemError EchoSystem} (h : step (.ok s) e = some x) :
    (NotClose (.ok s) e ∧ ∃ s', x = .ok s' ∧ ContextsLinked s') ∨
      (¬ NotClose (.ok s) e ∧ ∃ connH, x = .error (.missing connH)) := by
  cases e with
  | newConn c server connH peer fault => exact .inl ⟨trivial, step_newConn hs h⟩
  | connClosed c peer fault =>
    cases hr : s.conns.lookup c with
    | none => simp [step, hr] at h
    | some r =>
      rw [step_connClosed hs hr, Option.some.injEq] at h
      exact .inr ⟨id, r.connH, h.symm⟩

/-- **Use of the connection contexts.** A run uses no record that does not exist, and every
    close in it decrements once on the map of its own server, if and only if the run closes
    no connection. -/
theorem nothingMissing_iff (nConn : ServerId → CInt) (es : List EchoEvent) :
    StatesAlong step NothingMissing (.ok (EchoSystem.initial nConn)) es ∧
        StepsAlong step DecrementsOnce (.ok (EchoSystem.initial nConn)) es ↔
      StepsAlong step NotClose (.ok (EchoSystem.initial nConn)) es := by
  have hexact : StatesAlong step NothingMissing (.ok (EchoSystem.initial nConn)) es ↔
      StepsAlong step NotClose (.ok (EchoSystem.initial nConn)) es := by
    -- while nothing is missing the state stays linked
    refine statesAlong_iff_stepsAlong (I := fun x => ∀ s, x = .ok s → ContextsLinked s)
      (E := fun _ => True) ?_ ?_ ?_ ⟨_, rfl⟩ fun _ _ => trivial
    · rintro x e y - hI ⟨s, rfl⟩ h t rfl
      obtain ⟨-, s', ht, hlinked⟩ | ⟨-, connH, ht⟩ := step_cases (hI s rfl) h
      · cases ht
        exact hlinked
      · cases ht
    · rintro x e y - hI ⟨s, rfl⟩ h
      obtain ⟨hopen, s', hy, -⟩ | ⟨hclose, connH, hy⟩ := step_cases (hI s rfl) h
      · exact iff_of_true ⟨s', hy⟩ hopen
      · refine iff_of_false ?_ hclose
        rintro ⟨s', hs'⟩
        rw [hy] at hs'
        cases hs'
    · rintro s hs
      cases hs
      exact contextsLinked_initial nConn
  constructor
  · exact fun h => hexact.mp h.1
  · intro hsteps
    refine ⟨hexact.mpr hsteps, hsteps.mono fun x e he => ?_⟩
    rintro s c peer fault r - rfl
    exact he.elim

/-- One connection, opened and closed. -/
def openCloseRun : List EchoEvent :=
  [.newConn 1 0 7 (.inet ⟨4433, ⟨10, 0, 0, 1⟩⟩) false,
    .connClosed 1 (.inet ⟨4433, ⟨10, 0, 0, 1⟩⟩) false]

/-- The close callback uses the context after it has freed it. -/
theorem openCloseRun_not_nothingMissing :
    ¬ (StatesAlong step NothingMissing (.ok (EchoSystem.initial fun _ => 0#32)) openCloseRun ∧
      StepsAlong step DecrementsOnce (.ok (EchoSystem.initial fun _ => 0#32)) openCloseRun) := by
  rintro ⟨hstates, -⟩
  obtain ⟨s, hs⟩ := hstates.get_exec (by rfl)
  cases hs

end Equic.Echo
