import Equic.Foundation.Pool
import Equic.Interop.Stages

/-!
# All streams of the server

The interop server holds any number of streams, of all its connections. Clients open streams
with a request, and a stream with a generated response may push further streams, which
`http_server_interop_on_read` serves like the others. lsquic calls the callbacks of the
streams in any order.

`streams_deliver` says that no interleaving does harm: every stream is sent the answer that
its own first `on_read` has selected, whatever the others do and however reads and writes are
cut.
-/

namespace Equic.Interop

open Equic.Foundation

/-! ## §1 The machine -/

/-- A stream with the body that its request has. -/
structure Stream (lib : Md5Lib) where
  ex : Exchange lib
  body : List UInt8
  /-- `lsquic_stream_is_pushed` -/
  isPushed : Bool

/-- What a client opens a stream with: headers, unless lsquic cannot deliver the header set,
    and a body. -/
structure Request where
  headers : Option (List XHeader)
  body : List UInt8
  deriving DecidableEq, Repr

/-- What lsquic calls for a stream. -/
inductive StreamCall where
  | onRead (r : ReadResult)
  | onWrite (w : WriteResult)
  | onClose
  deriving DecidableEq, Repr

/-- The stream of a client. -/
def Stream.client (lib : Md5Lib) (hset : Option Req) (body : List UInt8) : Stream lib :=
  ⟨.start lib hset body, body, false⟩

/-- A pushed stream, the request of which has no body. -/
def Stream.pushed (lib : Md5Lib) (req : Req) : Stream lib := ⟨.start lib (some req) [], [], true⟩

/-- A client opens a stream. lsquic drops it if the header set is refused. -/
def newStream (lib : Md5Lib) (junk : ℕ → UInt8) (r : Request) : Option (Stream lib) :=
  match r.headers with
  | none => some (.client lib none r.body)
  | some xs =>
    match assemble junk xs with
    | .ok req => some (.client lib (some req) r.body)
    | .error _ => none

/-- The callbacks of one stream. lsquic calls `on_read` while the read side is open and
    `on_write` while the stream wants it and is not shut down. -/
def streamMove {lib : Md5Lib} (text : List UInt8) (fuel : ℕ) (s : Stream lib) :
    StreamCall → Option (Except Fault (Stream lib × List (Stream lib)))
  | .onRead r =>
    if s.ex.isClosed || s.ex.st.isShut then none
    else (s.ex.onRead r).map fun y => y.map fun x => ({ s with ex := x }, [])
  | .onWrite w =>
    if !s.ex.isClosed && s.ex.st.wantWrite && !s.ex.isShutWrite && s.ex.mayWrite w then
      some ((s.ex.onWrite text fuel w).map fun y => ({ s with ex := y.1 }, y.2.map (.pushed lib)))
    else none
  | .onClose =>
    if s.ex.isClosed then none
    else some (.ok ({ s with ex := { s.ex with isClosed := true } }, []))

/-- What happens to the server. -/
abbrev StreamEvent := PoolEvent Request StreamCall

/-- One event: a client opens a stream, or a callback is called. -/
abbrev streamStep (lib : Md5Lib) (text : List UInt8) (fuel : ℕ) (junk : ℕ → UInt8) :
    Except Fault (List (Stream lib)) → StreamEvent → Option (Except Fault (List (Stream lib))) :=
  poolStep (newStream lib junk) (streamMove text fuel)

/-- A read or a write of the call fails. -/
def StreamCall.Fails : StreamCall → Prop
  | .onRead r => r.fails = true
  | .onWrite w => w.fails = true
  | .onClose => False

/-- The buffers of the call have less than 2^32 bytes each. -/
def StreamCall.BuffersOk : StreamCall → Prop
  | .onWrite w => ∀ call ∈ w.calls, ∀ count ∈ call.counts, count < 2 ^ 32
  | _ => True

/-! ## §2 The invariant of a stream -/

/-- A stream on the way to its answer; the request of a client has headers. -/
structure Stream.Ok {lib : Md5Lib} (text : List UInt8) (s : Stream lib) : Prop where
  stage : s.ex.Stage text s.body
  hset : HsetOk s.ex.hset
  qif : s.isPushed = false → ∀ req, s.ex.hset = some req → req.qifStr ≠ []

section

variable {lib : Md5Lib} {text : List UInt8} {fuel : ℕ}

theorem quiet_start (hset : Option Req) (body : List UInt8) :
    (Exchange.start lib hset body).Quiet := ⟨rfl, rfl, rfl, rfl, rfl⟩

theorem serialize_ne_nil {xs : List XHeader} (h : xs ≠ []) : serialize xs ≠ [] := by
  cases xs with
  | nil => exact absurd rfl h
  | cons x xs => simp [serialize]

/-- An accepted header set has something to send back. -/
theorem qifStr_ne_nil {junk : ℕ → UInt8} {xs : List XHeader} {req : Req}
    (h : assemble junk xs = .ok req) : req.qifStr ≠ [] := by
  rw [(assembled_of_ok h).qif]
  apply serialize_ne_nil
  rintro rfl
  -- without headers there is no path, and the set is refused
  have hpath := ((exists_assemble_iff junk []).mp ⟨req, h⟩).1
  exact absurd hpath (by decide)

theorem newStream_ok {junk : ℕ → UInt8} {r : Request} {s : Stream lib}
    (h : newStream lib junk r = some s) : s.Ok text ∧ s.isPushed = false := by
  unfold newStream at h
  split at h
  · -- lsquic could not deliver the header set; there is none to be right about
    obtain rfl := Option.some.inj h
    refine ⟨⟨.unread rfl rfl (quiet_start _ _), ?_, fun _ req hreq => ?_⟩, rfl⟩
    · rintro req ⟨⟩
    · cases hreq
  · split at h
    · -- the header set is what `assemble` makes of the headers
      rename_i req hok
      obtain rfl := Option.some.inj h
      refine ⟨⟨.unread rfl rfl (quiet_start _ _), ?_, fun _ req' hreq => ?_⟩, rfl⟩
      · rintro req' hreq
        obtain rfl := Option.some.inj hreq
        exact (assembled_of_ok hok).qifSz
      · obtain rfl := Option.some.inj hreq
        exact qifStr_ne_nil hok
    · cases h

/-- A pushed stream has a request like that of a client, with an empty serialization. -/
theorem pushed_ok (path authority : List UInt8) :
    (Stream.pushed lib (newReq path authority)).Ok text where
  stage := .unread rfl rfl (quiet_start _ _)
  hset := by
    rintro req hreq
    obtain rfl := Option.some.inj hreq
    rfl
  qif := by rintro ⟨⟩

/-- The requests that a write pushes. -/
theorem eq_newReq_of_onWrite {x x' : Exchange lib} {w : WriteResult} {reqs : List Req}
    (h : x.onWrite text fuel w = .ok (x', reqs)) :
    ∀ req ∈ reqs, ∃ path authority, req = newReq path authority := by
  unfold Exchange.onWrite at h
  split at h
  · -- only a generated response pushes, and only when its headers go out
    unfold Exchange.onWriteIdle at h
    split at h
    · split at h
      · cases h
      · split at h
        · cases h
        · obtain ⟨-, rfl⟩ := Prod.mk.inj (Except.ok.inj h)
          intro req hreq
          obtain ⟨p, -, rfl⟩ := List.mem_map.mp hreq
          exact ⟨_, _, rfl⟩
    · cases h
  · cases h
  · -- a prepared reply pushes nothing
    cases hreply : x.onWriteReply w with
    | error f =>
      rw [hreply] at h
      cases h
    | ok x₁ =>
      rw [hreply] at h
      obtain ⟨-, rfl⟩ := Prod.mk.inj (Except.ok.inj h)
      intro req hreq
      cases hreq

theorem Exchange.Stage.close {x : Exchange lib} {body : List UInt8} (h : x.Stage text body) :
    Exchange.Stage text body { x with isClosed := true } := by
  -- `on_close` changes nothing that a stage speaks about
  cases h with
  | unread hst hunread hquiet =>
    exact .unread hst hunread ⟨hquiet.headersSent, hquiet.announced, hquiet.asked, hquiet.handed,
      hquiet.isShutWrite⟩
  | md5 taken hst hhandler hu hctx hunread hquiet =>
    exact .md5 taken hst hhandler hu hctx hunread ⟨hquiet.headersSent, hquiet.announced,
      hquiet.asked, hquiet.handed, hquiet.isShutWrite⟩
  | verHead req hst hreq hhandler hu hquiet =>
    exact .verHead req hst hreq hhandler hu ⟨hquiet.headersSent, hquiet.announced, hquiet.asked,
      hquiet.handed, hquiet.isShutWrite⟩
  | replying off h =>
    exact .replying off ⟨h.headersRead, h.respStatus, h.isShut, h.handler, h.notIdle, h.notUnset,
      h.resp, h.off_le, h.handed, h.announced, h.ordered, h.shut, h.complete⟩
  | idling R gfc h =>
    refine .idling R gfc ⟨h.headersRead, h.respStatus, h.isShut, h.req, h.hset, h.handler,
      h.interopU, h.content, h.le, ?_, h.announced, h.shut, h.complete⟩
    exact ⟨h.responding.produced, h.responding.position, h.responding.announced,
      h.responding.asked_zero⟩

/-- **One callback**: the stream goes on towards its answer, and the streams that it pushes
    begin; or the process ends because the library has failed, or by the assertion on a pushed
    stream for the verify-headers service. -/
theorem Stream.Ok.move (htext : 0 < text.length) (hfuel : 2 ^ 32 ≤ fuel) {s : Stream lib}
    (hs : s.Ok text) {e : StreamCall} (he : e.BuffersOk)
    {r : Except Fault (Stream lib × List (Stream lib))} (h : streamMove text fuel s e = some r) :
    (r = .error (.exit 1) ∧ e.Fails) ∨
      (r = .error .assertion ∧ s.isPushed = true ∧
        (answered s.ex.hset).interopHandler = .verHead) ∨
      ∃ s' new, r = .ok (s', new) ∧ s'.Ok text ∧ (∀ n ∈ new, n.Ok text) ∧
        s'.ex.hset = s.ex.hset ∧ s'.isPushed = s.isPushed ∧ s'.body = s.body := by
  cases e with
  | onRead r' =>
    simp only [streamMove] at h
    split at h
    · cases h
    · rename_i hopen
      rw [Bool.or_eq_true, not_or, Bool.not_eq_true, Bool.not_eq_true] at hopen
      obtain ⟨y, hy, rfl⟩ := Option.map_eq_some_iff.mp h
      -- the next stage is that of the same header set, so the stream stays the same otherwise
      obtain ⟨rfl, hfails⟩ | ⟨x', rfl, hstage, hset, -⟩ := hs.stage.onRead hs.hset hopen.2 hy
      · exact .inl ⟨rfl, hfails⟩
      · refine .inr (.inr ⟨_, [], rfl, ⟨hstage, ?_, ?_⟩, by simp, hset, rfl, rfl⟩)
        · rw [hset]
          exact hs.hset
        · intro hpushed
          dsimp only
          rw [hset]
          exact hs.qif hpushed
  | onWrite w =>
    simp only [streamMove, Option.ite_none_right_eq_some, Bool.and_eq_true, Bool.not_eq_true',
      Option.some.injEq] at h
    obtain ⟨⟨⟨⟨-, hwant⟩, hopen⟩, hmay⟩, rfl⟩ := h
    -- the fuel of the model outlasts every buffer
    have hw : SizesOk fuel w.calls := fun call hcall count hcount =>
      ⟨he call hcall count hcount, (he call hcall count hcount).le.trans hfuel⟩
    obtain ⟨herror, hhandler, req, hreq, hnil⟩ | ⟨herror, hfails⟩ | ⟨x', reqs, hok, hstage, hset⟩ :=
      hs.stage.onWrite htext hwant hopen hw hmay
    · refine .inr (.inl ⟨by rw [herror]; rfl, ?_, hhandler⟩)
      -- the request of a client has headers to send back
      by_contra hclient
      exact hs.qif (Bool.not_eq_true _ ▸ hclient) req hreq hnil
    · exact .inl ⟨by rw [herror]; rfl, hfails⟩
    · refine .inr (.inr ⟨{ s with ex := x' }, reqs.map (.pushed lib), by rw [hok]; rfl,
        ⟨hstage, ?_, ?_⟩, ?_, hset, rfl, rfl⟩)
      · rw [hset]
        exact hs.hset
      · intro hpushed
        dsimp only
        rw [hset]
        exact hs.qif hpushed
      · -- the pushed streams begin with requests of the server's own making
        intro n hn
        obtain ⟨req, hreq, rfl⟩ := List.mem_map.mp hn
        obtain ⟨path, authority, rfl⟩ := eq_newReq_of_onWrite hok req hreq
        exact pushed_ok path authority
  | onClose =>
    simp only [streamMove] at h
    split at h
    · cases h
    · obtain rfl := Option.some.inj h
      exact .inr (.inr ⟨_, [], rfl, ⟨hs.stage.close, hs.hset, hs.qif⟩, by simp, rfl, rfl, rfl⟩)

end

/-! ## §3 Every run -/

/-- Streams stay on the way to their answers, in every interleaving. -/
theorem streams_ok {lib : Md5Lib} {text : List UInt8} (htext : 0 < text.length) {fuel : ℕ}
    (hfuel : 2 ^ 32 ≤ fuel) {junk : ℕ → UInt8} {ss : List (Stream lib)} (hss : ∀ s ∈ ss, s.Ok text)
    {es : List StreamEvent} {F : Prop}
    (hes : ∀ e ∈ es, e.Allowed (fun _ => True) fun c => c.BuffersOk ∧ (c.Fails → F)) :
    StatesAlong (streamStep lib text fuel junk)
      (PoolOk (Stream.Ok text) fun f => f = .assertion ∨ f = .exit 1 ∧ F) (.ok ss) es := by
  -- the invariant of one stream is kept by each of its callbacks, whatever the others do
  refine poolOk_along (fun r s _ h => (newStream_ok h).1) ?_ hss hes
  rintro s e r ⟨hbuffers, hfails⟩ hs h
  obtain ⟨rfl, hfail⟩ | ⟨rfl, -⟩ | ⟨s', new, rfl, hs', hnew, -⟩ := hs.move htext hfuel hbuffers h
  · exact .inl ⟨_, rfl, .inr ⟨rfl, hfails hfail⟩⟩
  · exact .inl ⟨_, rfl, .inl rfl⟩
  · exact .inr ⟨s', new, rfl, hs', hnew⟩

/-- **Every stream is sent its own answer.** For every run of the server, with any number of
    client and pushed streams, any interleaving of their callbacks and any way in which reads
    and writes are cut: what lsquic has been given for a stream is of the answer that the
    stream's own first `on_read` has selected, and the process ends only because a read or
    write has failed or by an assertion. -/
theorem streams_deliver (lib : Md5Lib) (text : List UInt8) (htext : 0 < text.length) (fuel : ℕ)
    (hfuel : 2 ^ 32 ≤ fuel) (junk : ℕ → UInt8) (es : List StreamEvent)
    (hes : ∀ e ∈ es, e.Allowed (fun _ => True) StreamCall.BuffersOk) :
    StatesAlong (streamStep lib text fuel junk)
      (PoolOk (fun s => Delivers text s.body s.ex) fun f => f = .assertion ∨
        f = .exit 1 ∧ ∃ i c, .move i c ∈ es ∧ c.Fails) (.ok []) es := by
  refine (streams_ok htext hfuel (by simp) ?_).mono fun x hx =>
    hx.mono (fun s hs => hs.stage.delivers) fun f hf => hf
  -- a failure is one of a call of this run
  intro e he
  have hbuffers := hes e he
  cases e with
  | start r => trivial
  | move i c => exact ⟨hbuffers, fun hfails => ⟨i, c, he, hfails⟩⟩

/-- "0123456789ABCDEF" -/
def hexDigit (n : Fin 16) : UInt8 := (cstr "0123456789ABCDEF").getD n 48

/-- A library that is right about the empty message. -/
def md5OfNothing : Md5Lib where
  md5 :=
    { Ctx := Unit
      init := ()
      update := fun _ _ => ()
      final := fun _ => [0xd4, 0x1d, 0x8c, 0xd9, 0x8f, 0x00, 0xb2, 0x04, 0xe9, 0x80, 0x09, 0x98,
        0xec, 0xf8, 0x42, 0x7e]
      size := 16
      update_nil := fun _ => rfl
      update_append := fun _ _ _ => rfl
      length_final := fun _ => rfl }
  size_eq := rfl
  hexstr bytes := bytes.flatMap fun b =>
    [hexDigit (.ofNat 16 (b.toNat / 16)), hexDigit (.ofNat 16 b.toNat)]
  length_hexstr bytes := by simp [mul_comm]
  nul_notMem_hexstr bytes := by
    have hdigit : ∀ n : Fin 16, 0 ≠ hexDigit n := by decide +kernel
    simp [hdigit]

/-- ":method: GET" -/
def getHeader : XHeader := ⟨methodName, cstr "GET", Nat.le_of_ble_eq_true rfl⟩

/-- ":authority: localhost" -/
def hostHeader : XHeader := ⟨authorityName, cstr "localhost", Nat.le_of_ble_eq_true rfl⟩

/-- A request for the digest of an empty body; lsquic takes 100 bytes of the page, then the
    rest. -/
def md5Run : List StreamEvent :=
  [.start ⟨some [⟨methodName, cstr "POST", Nat.le_of_ble_eq_true rfl⟩,
      ⟨pathName, cstr "/cgi-bin/md5sum.cgi", Nat.le_of_ble_eq_true rfl⟩, hostHeader], []⟩,
    .move 0 (.onRead ⟨false, [], false, []⟩), .move 0 (.onRead ⟨false, [], true, []⟩),
    .move 0 (.onWrite ⟨true, [], false, 0, []⟩), .move 0 (.onWrite ⟨true, [], false, 100, []⟩),
    .move 0 (.onWrite ⟨true, [], false, 63, []⟩)]

theorem streams_deliver_md5Run :
    ∃ ss, exec (streamStep md5OfNothing (cstr "a") (2 ^ 32) fun _ => 0) (.ok []) md5Run =
      some (.ok ss) ∧ ss.length = 1 ∧ ∀ s ∈ ss, Delivers (cstr "a") s.body s.ex := by
  have hallowed : ∀ e ∈ md5Run, e.Allowed (fun _ => True) StreamCall.BuffersOk := by
    simp only [md5Run, List.forall_mem_cons]
    simp [PoolEvent.Allowed, StreamCall.BuffersOk]
  have halong := streams_deliver md5OfNothing (cstr "a") (by decide) (2 ^ 32) le_rfl
    (fun _ => 0) md5Run hallowed
  have hlength : (exec (streamStep md5OfNothing (cstr "a") (2 ^ 32) fun _ => 0)
      (.ok []) md5Run).map (fun y => y.toOption.map List.length) = some (some 1) := by
    decide +kernel
  obtain ⟨y, hy, hlength⟩ := Option.map_eq_some_iff.mp hlength
  have hlast := halong.last hy
  cases y with
  | error f => cases hlength
  | ok ss => exact ⟨ss, hy, by simpa [Except.toOption] using hlength, hlast⟩

end Equic.Interop
