import Equic.Foundation.Chunks
import Equic.Foundation.Digest
import Equic.Interop.Routing
import Equic.Interop.VerifyHeaders

/-!
# Request and response on one stream

The callbacks of the interop mode over the whole life of a stream: after the header set
`http_server_interop_on_read` reads the body for the two services that want one, and
`http_server_interop_on_write` sends the headers and then the response. An assertion that
fails ends the process, and so does `exit`; both are kept as a `Fault`.

The parts of a stream that earlier models work on are views of its state: `verHead` is what
the verify-headers service sees of it, and `idle` what a generated response sees.
-/

namespace Equic.Interop

open Equic.Foundation

/-! ## §1 What the callbacks take from their libraries -/

/-- MD5 of OpenSSL, and `lsquic_hexstr`. -/
structure Md5Lib where
  md5 : Digest
  /-- `MD5_DIGEST_LENGTH` -/
  size_eq : md5.size = 16
  hexstr : List UInt8 → List UInt8
  length_hexstr : ∀ bytes, (hexstr bytes).length = 2 * bytes.length
  nul_notMem_hexstr : ∀ bytes, 0 ∉ hexstr bytes

/-- `strlen` -/
def strlen (s : List UInt8) : ℕ := (s.takeWhile (· ≠ 0)).length

/-- What the MD5 service prints. -/
def md5Page (md5str : List UInt8) : List UInt8 :=
  cstr "<html><head><title>MD5 Checksum Result</title></head>\n" ++
    cstr "<body><h1>MD5 Checksum Result</h1>\n<p>MD5 Checksum: <tt>" ++ md5str ++
    cstr "</tt>\n</body></html>\n"

/-- `md5c.resp` after `snprintf` has printed into the 256 bytes of `resp_buf`. -/
def md5Resp (lib : Md5Lib) (md5sum : List UInt8) : Resp :=
  let respBuf := (md5Page (lib.hexstr md5sum)).take 255
  { buf := respBuf, sz := strlen respBuf, off := 0 }

/-- `new_req`; a GET of `path`. -/
def newReq (path authority : List UInt8) : Req where
  method := .get
  pseudoHeaders := 0
  path := some path
  methodStr := none
  authorityStr := some authority
  qifStr := []
  qifSz := 0

/-! ## §2 Streams -/

/-- A stream of the interop mode, with what lsquic knows about it. -/
structure Exchange (lib : Md5Lib) where
  /-- What `lsquic_stream_get_hset` returns. -/
  hset : Option Req
  st : InteropStream
  /-- What is left of the request body. -/
  unread : List UInt8
  /-- `md5c.md5ctx` -/
  md5ctx : lib.md5.Ctx
  /-- `md5c.resp` -/
  md5cResp : Resp
  /-- `vhc.req_body`, `none` for NULL. -/
  reqBody : Option (List UInt8)
  /-- `vhc.req_sz` -/
  reqSz : ℕ
  /-- What the verify-headers service has logged. -/
  report : Option Verdict
  /-- `SH_HEADERS_SENT` -/
  headersSent : Bool
  /-- Status and content-length of the headers that lsquic has taken. -/
  announced : Option (String × ℕ)
  /-- What lsquic has asked a generated response for. -/
  asked : ℕ
  /-- All bytes that lsquic has taken for the body of the response. -/
  handed : List UInt8
  /-- `lsquic_stream_shutdown(stream, 1)` was called. -/
  isShutWrite : Bool
  /-- The stream is closed, or its connection aborted. -/
  isClosed : Bool

/-- A new stream whose request has the body `body`. -/
def Exchange.start (lib : Md5Lib) (hset : Option Req) (body : List UInt8) : Exchange lib where
  hset := hset
  st := .new
  unread := body
  md5ctx := lib.md5.init
  md5cResp := ⟨[], 0, 0⟩
  reqBody := none
  reqSz := 0
  report := none
  headersSent := false
  announced := none
  asked := 0
  handed := []
  isShutWrite := false
  isClosed := false

/-- How a callback ends the process, or would go on in undefined behaviour. -/
inductive Fault where
  /-- An `assert` fails. -/
  | assertion
  /-- `exit` -/
  | exit (status : ℤ)
  /-- A member of `interop_u` is read that was not written last. -/
  | wrongMember
  /-- `strlen(NULL)` -/
  | nullString
  /-- A loop does not end. -/
  | diverges
  deriving DecidableEq, Repr

/-- What lsquic does in one `on_read`. -/
structure ReadResult where
  /-- The read returns -1. -/
  fails : Bool
  /-- What the read delivers: all at once from `lsquic_stream_read`, chunk by chunk from
      `lsquic_stream_readf`. -/
  chunks : List ℕ
  /-- The last chunk comes with `fin`. -/
  fin : Bool
  /-- What memory holds where `malloc` allocates. -/
  fresh : List UInt8
  deriving DecidableEq, Repr

/-- What lsquic does in one `on_write`. -/
structure WriteResult where
  /-- `lsquic_stream_send_headers` returns 0. -/
  sendOk : Bool
  /-- For each push path whether a push stream is created, in order. -/
  pushOk : List Bool
  /-- The write returns -1. -/
  fails : Bool
  /-- What `lsquic_stream_write` takes. -/
  nw : ℕ
  /-- How the payload of a generated response is read. -/
  calls : List IdleCall
  deriving DecidableEq, Repr

/-! ## §3 `http_server_interop_on_read` -/

namespace Exchange

variable {lib : Md5Lib}

/-- The switch to writing: the read side is shut down. -/
def reply (x : Exchange lib) : Exchange lib := { x with st := x.st.reply }

/-- `lsquic_stream_readf` with `read_md5`. -/
def readMd5 : Exchange lib → List ℕ → Exchange lib
  | x, [] => x
  | x, sz :: chunks =>
    let md5ctx := if sz ≠ 0 then lib.md5.update x.md5ctx (x.unread.take sz) else x.md5ctx
    readMd5 { x with md5ctx := md5ctx, unread := x.unread.drop sz } chunks

/-- What `lsquic_stream_readf` may deliver: it returns 0 only at the end of the body, and the
    chunk with `fin` is the last of the body. -/
def mayReadf (unread : List UInt8) (r : ReadResult) : Bool :=
  r.chunks.sum ≤ unread.length && (r.chunks.sum ≠ 0 || unread.isEmpty) &&
    (!r.fin || r.chunks.sum = unread.length)

/-- The branch for `IOH_MD5SUM`. -/
def onReadMd5sum (r : ReadResult) (isDone : Bool) (x : Exchange lib) :
    Option (Except Fault (Exchange lib)) :=
  if isDone then some (.error .assertion)
  else if r.fails then some (.error (.exit 1))
  else if mayReadf x.unread r then
    let x := x.readMd5 r.chunks
    if r.chunks.sum = 0 || r.fin then
      some (.ok (reply { x with
        st := { x.st with interopU := .md5c true }
        md5cResp := md5Resp lib (lib.md5.final x.md5ctx) }))
    else some (.ok x)
  else none

/-- What the verify-headers service sees of the stream. -/
def verHead (x : Exchange lib) : VerHead := ⟨x.reqBody, x.reqSz, x.unread, x.report⟩

def withVerHead (x : Exchange lib) (s : VerHead) : Exchange lib :=
  { x with reqBody := s.reqBody, reqSz := s.reqSz, unread := s.unread, report := s.verdict }

/-- The branch for `IOH_VER_HEAD`. -/
def onReadVerHead (r : ReadResult) (req : Req) (x : Exchange lib) :
    Option (Except Fault (Exchange lib)) :=
  if r.fails then
    if req.qifSz - x.reqSz > 0 then some (.error (.exit 1))
    -- `nw` is not 0, so the body counts as too long
    else some (.ok (reply { x with
      reqBody := some (x.reqBody.getD r.fresh)
      report := some .tooLong }))
  else (Interop.onReadVerHead req.qifStr r.fresh x.verHead r.chunks.sum).map fun s =>
    .ok (if s.verdict.isSome then (x.withVerHead s).reply else x.withVerHead s)

/-- The first `on_read`, which fetches the header set. -/
def readHeaders (x : Exchange lib) : Exchange lib :=
  let st := interopOnReadHeaders (initMapRegexes reqMaps) x.hset x.st
  { x with
    st := st
    -- `MD5_Init`
    md5ctx := if st.interopHandler = .md5sum then lib.md5.init else x.md5ctx }

/-- `http_server_interop_on_read`; `none` if the read cannot return this. -/
def onRead (r : ReadResult) (x : Exchange lib) : Option (Except Fault (Exchange lib)) :=
  if x.st.headersRead then
    match x.st.interopHandler, x.st.interopU, x.st.req with
    | .md5sum, .md5c isDone, _ => x.onReadMd5sum r isDone
    | .verHead, .vhc _, some req => x.onReadVerHead r req
    | .md5sum, _, _ | .verHead, _, _ => some (.error .wrongMember)
    | _, _, _ => some (.error .assertion)
  else some (.ok x.readHeaders)

/-! ## §4 `http_server_interop_on_write` -/

/-- `send_headers2`, of which the caller sees whether lsquic takes the headers. -/
def sendHeaders2 (sendOk : Bool) (contentLen : ℕ) (x : Exchange lib) :
    Except Fault (Exchange lib) :=
  match x.st.respStatus with
  | none => .error .nullString
  | some status => .ok (if sendOk then { x with announced := some (status, contentLen) } else x)

/-- The response that `http_server_interop_on_write` selects, outside `IOH_GEN_FILE`. -/
def resp (x : Exchange lib) : Except Fault Resp :=
  match x.st.interopHandler, x.st.interopU with
  | .error, .err resp | .indexHtml, .ihc resp | .verHead, .vhc resp => .ok resp
  | .md5sum, .md5c _ => .ok x.md5cResp
  -- before the headers are read the context is all zeros
  | .error, .unset => .ok ⟨[], 0, 0⟩
  | .error, _ | .indexHtml, _ | .verHead, _ | .md5sum, _ => .error .wrongMember
  | .genFile, _ | .echo, _ => .error .assertion

/-- `resp->off = off` -/
def setOff (off : ℕ) (x : Exchange lib) : Exchange lib :=
  match x.st.interopU with
  | .err resp => { x with st := { x.st with interopU := .err { resp with off := off } } }
  | .ihc resp => { x with st := { x.st with interopU := .ihc { resp with off := off } } }
  | .vhc resp => { x with st := { x.st with interopU := .vhc { resp with off := off } } }
  | .md5c _ => { x with md5cResp := { x.md5cResp with off := off } }
  | _ => x

/-- The lines behind the label `reply`. -/
def onWriteReply (w : WriteResult) (x : Exchange lib) : Except Fault (Exchange lib) := do
  let resp ← x.resp
  if resp.sz = 0 then .error .assertion
  else if !x.headersSent then
    -- whether lsquic takes the headers is not looked at
    let x ← x.sendHeaders2 w.sendOk resp.sz
    return { x with headersSent := true }
  else if w.fails then
    -- `lsquic_conn_abort`
    return { x with isClosed := true }
  else
    let x := { x with handed := x.handed ++ (resp.buf.drop resp.off).take w.nw }
    let off := resp.off + w.nw
    return { x.setOff off with isShutWrite := x.isShutWrite || off = resp.sz }

/-- What a generated response sees of the stream. -/
def idle (gfc : GenFileCtx) (x : Exchange lib) : IdleStream where
  gfc := gfc
  authorityStr := x.st.req.bind Req.authorityStr
  headersSent := x.headersSent
  contentLength := x.announced.map Prod.snd
  pushed := []
  asked := x.asked
  produced := x.handed
  isShut := x.isShutWrite
  isClosed := x.isClosed

def withIdle (status : String) (s : IdleStream) (x : Exchange lib) : Exchange lib :=
  { x with
    st := { x.st with interopU := .gfc s.gfc }
    headersSent := s.headersSent
    announced := s.contentLength.map fun n => (status, n)
    asked := s.asked
    handed := s.produced
    isShutWrite := s.isShut
    isClosed := s.isClosed }

/-- `idle_on_write`, with the requests for which it creates push streams. -/
def onWriteIdle (text : List UInt8) (fuel : ℕ) (w : WriteResult) (gfc : GenFileCtx)
    (x : Exchange lib) : Except Fault (Exchange lib × List Req) :=
  match x.st.respStatus, x.st.req with
  | some status, some req =>
    if x.headersSent && w.fails then .error (.exit 1)
    else
      match idleOnWrite text fuel (x.idle gfc) ⟨w.sendOk, w.calls⟩ with
      | none => .error .diverges
      | some s =>
        let pushed := (s.pushed.zip w.pushOk).filter Prod.snd
        .ok (x.withIdle status s, pushed.map fun p => newReq p.1 (req.authorityStr.getD []))
  | _, _ => .error .nullString

/-- `http_server_interop_on_write`. -/
def onWrite (text : List UInt8) (fuel : ℕ) (w : WriteResult) (x : Exchange lib) :
    Except Fault (Exchange lib × List Req) :=
  match x.st.interopHandler, x.st.interopU with
  | .genFile, .gfc gfc => x.onWriteIdle text fuel w gfc
  | .genFile, _ => .error .wrongMember
  | _, _ => (x.onWriteReply w).map fun x => (x, [])

/-- What the writes of one call may take. -/
def mayWrite (w : WriteResult) (x : Exchange lib) : Bool :=
  match x.resp with
  | .ok resp => w.nw ≤ resp.sz - resp.off
  | .error _ => true

end Exchange

end Equic.Interop
