import Equic.Filesystem.Request
import Equic.Foundation.Reader
import Mathlib.Algebra.Order.Ring.Nat

/-!
# Streams that are served from files

The callbacks of the Filesystem Mode, outside `-P`, and those of the hq mode. A stream
collects its request, opens the file with the requested name and hands it to lsquic through
a reader. With `-w` the first write is made before `http_server_on_read` returns, through a
reader that is capped.

`http_server_on_read` and `http_server_on_write` call `exit` where they fail, unless the
connection has received a GOAWAY; the callbacks of the hq mode close the stream. A delay
(`-y`) leaves an event behind that holds the stream context.
-/

namespace Equic.Filesystem

open Equic.Foundation

/-! ## §1 Files and settings -/

/-- A file system, and the readers for its files. That a file which can be opened can also be
    read is part of it: a read that fails, such as that of a directory, is left out. -/
structure FileLib where
  reader : Reader
  /-- The content of the file with this name, if it can be opened. -/
  files : List UInt8 → Option (List UInt8)
  /-- `create_lsquic_reader_ctx`; there is no file with the name NULL. -/
  create : Option (List UInt8) → Option reader.Ctx
  create_rest : ∀ name, (create name).map reader.rest = name.bind files

/-- The files of a table, read from memory. -/
def FileLib.ofTable (table : List (List UInt8 × List UInt8)) : FileLib where
  reader := .ofBytes
  files name := table.lookup name
  create name := name.bind fun name => table.lookup name
  create_rest name := by
    cases name with
    | none => rfl
    | some name => exact Option.map_id'

/-- The fields of `struct server_ctx` that the callbacks read, and `s_immediate_write`. -/
structure Settings where
  documentRoot : List UInt8
  pushPath : Option (List UInt8)
  immediateWrite : ℤ
  delayRespSec : ℕ
  deriving DecidableEq, Repr

/-- The name of a file in the document root. -/
def filename (root path : List UInt8) : List UInt8 := root ++ cstr "/" ++ path

/-- `strstr`: the text from the first occurrence of `w` on. -/
def strstr (w : List UInt8) : List UInt8 → Option (List UInt8)
  | [] => if w = [] then some [] else none
  | b :: text => if w.isPrefixOf (b :: text) then some (b :: text) else strstr w text

/-- `ends_with` -/
def endsWith (filename ext : List UInt8) : Bool :=
  match strstr ext filename with
  | none => false
  | some found => found.length = ext.length

/-- `select_content_type` -/
def selectContentType (filename : List UInt8) : String :=
  if endsWith filename (cstr ".html") then "text/html"
  else if endsWith filename (cstr ".png") then "image/png"
  else if endsWith filename (cstr ".css") then "text/css"
  else if endsWith filename (cstr ".gif") then "image/gif"
  else if endsWith filename (cstr ".txt") then "text/plain"
  else "application/octet-stream"

/-! ## §2 Streams -/

/-- A push promise: the path of its `struct hset_fm`, and the authority it is sent with. -/
structure Push where
  path : List UInt8
  authority : List UInt8
  deriving DecidableEq, Repr

/-- A stream, with what lsquic knows about it. -/
structure ServeStream (lib : FileLib) where
  /-- The promise that a pushed stream comes from. -/
  push : Option Push
  /-- What is left of the request. -/
  unread : List UInt8
  /-- What `req_fh` has collected. -/
  reqBuf : List UInt8
  /-- `req_path`, and `req_filename`, which is a copy of it. -/
  reqPath : Option (List UInt8)
  /-- `reader.lsqr_ctx` -/
  readerCtx : Option lib.reader.Ctx
  /-- `SH_HEADERS_SENT` -/
  headersSent : Bool
  /-- `SH_DELAYED` -/
  delayed : Bool
  /-- `resume_resp` is an event. -/
  resumeResp : Bool
  written : ℕ
  fileSize : ℕ
  wantWrite : Bool
  /-- The content-type of the headers that lsquic has taken. -/
  contentType : Option String
  /-- All bytes that lsquic has taken for this stream. -/
  handed : List UInt8
  isShutRead : Bool
  isShutWrite : Bool
  /-- `lsquic_stream_close` was called. -/
  isClosed : Bool
  /-- The context has been freed, in `http_server_on_close`. -/
  isFreed : Bool

/-- `http_server_on_new_stream`, for a stream with the request `request`. -/
def ServeStream.new (lib : FileLib) (push : Option Push) (request : List UInt8) :
    ServeStream lib where
  push := push
  unread := request
  reqBuf := []
  reqPath := none
  readerCtx := none
  headersSent := false
  delayed := false
  resumeResp := false
  written := 0
  fileSize := 0
  wantWrite := false
  contentType := none
  handed := []
  isShutRead := false
  isShutWrite := false
  isClosed := false
  isFreed := false

/-- How a callback ends the process, or would go on in undefined behaviour. -/
inductive ServeFault where
  /-- `exit` -/
  | exit (status : ℤ)
  /-- NULL is passed where a string or a reader is needed. -/
  | nullPointer
  /-- A context is used that has been freed. -/
  | useAfterFree
  deriving DecidableEq, Repr

/-- What lsquic does in one `lsquic_stream_writef`. -/
structure Writef where
  /-- The reads that it makes. -/
  counts : List ℕ
  /-- It returns -1. -/
  fails : Bool
  deriving DecidableEq, Repr

/-- What lsquic does in one `on_read`. -/
structure ServeRead where
  /-- What `lsquic_stream_read` returns, `none` for -1. -/
  nread : Option ℕ
  /-- `lsquic_stream_get_hset` returns the header set of a pushed stream. -/
  hsetOk : Bool
  /-- `lsquic_conn_push_stream` returns 0. -/
  pushOk : Bool
  /-- `lsquic_stream_send_headers` returns 0. -/
  sendOk : Bool
  writef : Writef
  deriving DecidableEq, Repr

/-- What the libraries do in one `on_write`. -/
structure ServeWrite where
  /-- `event_new` returns an event. -/
  eventNew : Bool
  /-- `lsquic_stream_send_headers` returns 0. -/
  sendOk : Bool
  writef : Writef
  /-- `RECEIVED_GOAWAY` of the connection. -/
  goaway : Bool
  deriving DecidableEq, Repr

namespace ServeStream

variable {lib : FileLib}

/-- What reads the file now. -/
def readerSize (s : ServeStream lib) : ℕ :=
  match s.readerCtx with
  | none => 0
  | some c => lib.reader.size c

/-- `bytes_left` -/
def bytesLeft (sPwritev : ℤ) (s : ServeStream lib) : ℕ :=
  if sPwritev ≠ 0 then (s.fileSize + 2 ^ 64 - s.written) % 2 ^ 64 else s.readerSize

/-- `send_headers`, on the failure of which both callers call `exit`. -/
def sendHeaders (sendOk : Bool) (s : ServeStream lib) : Except ServeFault (ServeStream lib) :=
  if sendOk then .ok { s with
    headersSent := true
    contentType := some (selectContentType (s.reqPath.getD [])) }
  else .error (.exit 1)

/-! ## §3 `http_server_on_read` -/

/-- The first write with `-w`; `s_immediate_write` is compared as a `size_t`. -/
def writeImmediately (immediateWrite : ℤ) (w : Writef) (c : lib.reader.Ctx)
    (s : ServeStream lib) : Except ServeFault (ServeStream lib) :=
  if lib.reader.size c > 0 then
    if w.fails then .error (.exit 1)
    else
      let limit := (immediateWrite % 2 ^ 64).toNat
      let y := (lib.reader.capped limit).feed (lib.reader.cappedStart limit c) w.counts
      .ok { s with readerCtx := some y.1.1.1, handed := s.handed ++ y.2 }
  else .ok s

/-- `process_request` -/
def processRequest (cfg : Settings) (r : ServeRead) (s : ServeStream lib) :
    Except ServeFault (ServeStream lib) :=
  match lib.create s.reqPath with
  | none => .error (.exit 1)
  | some c =>
    let s := { s with readerCtx := some c }
    if cfg.immediateWrite ≠ 0 then do
      let s ← s.sendHeaders r.sendOk
      let s ← s.writeImmediately cfg.immediateWrite r.writef c
      if s.readerSize > 0 then return { s with wantWrite := true }
      else return { s with isShutWrite := true }
    else .ok { s with wantWrite := true }

/-- `push_promise` -/
def pushPromise (r : ServeRead) (pushPath : List UInt8) (s : ServeStream lib) :
    Except ServeFault (List Push) :=
  match hostOf s.reqBuf with
  | none => .error (.exit 1)
  | some host => .ok (if r.pushOk then [⟨pushPath, host⟩] else [])

/-- What comes before `process_request` for the stream of a client. -/
def promise (cfg : Settings) (r : ServeRead) (s : ServeStream lib) :
    Except ServeFault (List Push) :=
  match cfg.pushPath with
  | none => .ok []
  | some pushPath =>
    match s.reqPath with
    | none => .error .nullPointer
    | some path => if path = pushPath then .ok [] else s.pushPromise r pushPath

/-- Reads of `sz` bytes at most collect the request; `none` if the read cannot return this. -/
def collect (sz nread : ℕ) (s : ServeStream lib) : Option (ServeStream lib) :=
  if nread ≤ sz ∧ nread ≤ s.unread.length then some { s with
    reqBuf := s.reqBuf ++ s.unread.take nread
    unread := s.unread.drop nread }
  else none

/-- `http_server_on_read_regular` -/
def onReadRegular (cfg : Settings) (r : ServeRead) (s : ServeStream lib) :
    Option (Except ServeFault (ServeStream lib × List Push)) :=
  match r.nread with
  | none => some (.ok ({ s with isClosed := true }, []))
  | some 0 =>
    if s.unread = [] then some do
      let s := { s with reqPath := (parseRequest s.reqBuf).map (filename cfg.documentRoot) }
      let pushed ← s.promise cfg r
      let s ← s.processRequest cfg r
      return ({ s with isShutRead := true }, pushed)
    else none
  | some nread => (s.collect 0x400 nread).map fun s => .ok (s, [])

/-- `http_server_on_read_pushed` -/
def onReadPushed (cfg : Settings) (r : ServeRead) (push : Push) (s : ServeStream lib) :
    Except ServeFault (ServeStream lib) :=
  if r.hsetOk then do
    let s := { s with reqPath := some (filename cfg.documentRoot push.path) }
    let s ← s.processRequest cfg r
    return { s with isShutRead := true }
  else .ok { s with isClosed := true }

/-- `http_server_on_read` -/
def onRead (cfg : Settings) (r : ServeRead) (s : ServeStream lib) :
    Option (Except ServeFault (ServeStream lib × List Push)) :=
  match s.push with
  | some push => some ((s.onReadPushed cfg r push).map fun s => (s, []))
  | none => s.onReadRegular cfg r

/-! ## §4 `http_server_on_write` -/

/-- Both sides of `bytes_left(st_h) > 0` after a write that returned `nw`. -/
def afterWrite (sPwritev nw : ℤ) (s : ServeStream lib) : ServeStream lib :=
  if s.bytesLeft sPwritev > 0 then { s with
    written := ((s.written + nw) % 2 ^ 64).toNat
    wantWrite := true }
  else { s with isShutWrite := true }

/-- The response is put off for `delay_resp_sec` seconds, once. -/
def delays (cfg : Settings) (w : ServeWrite) (s : ServeStream lib) : Bool :=
  cfg.delayRespSec ≠ 0 && !s.delayed && s.written > 10000000 && w.eventNew

/-- `lsquic_stream_writef` with the reader of the stream. -/
def writef (w : Writef) (c : lib.reader.Ctx) (s : ServeStream lib) : ServeStream lib × ℤ :=
  let y := lib.reader.feed c w.counts
  if w.fails then ({ s with readerCtx := some y.1 }, -1)
  else ({ s with readerCtx := some y.1, handed := s.handed ++ y.2 }, y.2.length)

/-- `http_server_on_write` -/
def onWrite (cfg : Settings) (w : ServeWrite) (s : ServeStream lib) :
    Except ServeFault (ServeStream lib) :=
  if s.headersSent then
    match s.readerCtx with
    | none => .error .nullPointer
    | some c =>
      if s.bytesLeft 0 > 0 then
        if s.delays cfg w then
          .ok { s with resumeResp := true, wantWrite := false, delayed := true }
        else
          let (s, nw) := s.writef w.writef c
          if nw < 0 then
            if w.goaway then .ok ({ s with isClosed := true }.afterWrite 0 nw)
            else .error (.exit 1)
          else .ok (s.afterWrite 0 nw)
      else .ok { s with isShutWrite := true }
  else s.sendHeaders w.sendOk

/-- `resume_response` -/
def resumeResponse (s : ServeStream lib) : Except ServeFault (ServeStream lib) :=
  if s.isFreed then .error .useAfterFree
  else .ok { s with wantWrite := true, resumeResp := false }

/-! ## §5 The hq mode -/

/-- `hq_server_on_read`; `none` if the read cannot return this. -/
def hqOnRead (cfg : Settings) (r : ServeRead) (s : ServeStream lib) : Option (ServeStream lib) :=
  match r.nread with
  | none => some { s with isClosed := true }
  | some 0 =>
    if s.unread = [] then
      match hqRequest s.reqBuf with
      | none => some { s with isClosed := true }
      | some path =>
        let s := { s with reqPath := some (filename cfg.documentRoot path) }
        match lib.create s.reqPath with
        | none => some { s with isClosed := true }
        | some c => some { s with readerCtx := some c, isShutRead := true, wantWrite := true }
    else none
  | some nread => s.collect 0x100 nread

/-- `hq_server_on_write` -/
def hqOnWrite (sPwritev : ℤ) (w : Writef) (s : ServeStream lib) :
    Except ServeFault (ServeStream lib) :=
  match s.readerCtx with
  | none => .error .nullPointer
  | some c =>
    let (s, nw) := s.writef w c
    if nw < 0 then .ok { s with isClosed := true }
    else .ok (s.afterWrite sPwritev nw)

end ServeStream

/-! ## §6 The content type -/

theorem strstr_eq_none_iff {w text : List UInt8} :
    strstr w text = none ↔ ∀ pre post, text ≠ pre ++ w ++ post := by
  induction text with
  | nil =>
    rw [strstr]
    split
    · rename_i hw
      exact iff_of_false (by simp) fun h => h [] [] (by simp [hw])
    · rename_i hw
      refine iff_of_true rfl fun pre post h => hw ?_
      exact (List.append_eq_nil_iff.mp (List.append_eq_nil_iff.mp h.symm).1).2
  | cons b text ih =>
    rw [strstr]
    split
    · rename_i hw
      obtain ⟨post, hpost⟩ := List.isPrefixOf_iff_prefix.mp hw
      exact iff_of_false (by simp) fun h => h [] post (by simp [hpost])
    · rename_i hw
      rw [ih]
      constructor
      · intro h pre post hcut
        cases pre with
        | nil => exact hw (List.isPrefixOf_iff_prefix.mpr ⟨post, by simpa using hcut.symm⟩)
        | cons a pre => exact h pre post (List.cons.inj hcut).2
      · intro h pre post hcut
        exact h (b :: pre) post (by rw [hcut]; simp)

/-- What `strstr` finds is the first occurrence. -/
theorem strstr_spec {w text found : List UInt8} (h : strstr w text = some found) :
    ∃ pre post, text = pre ++ found ∧ found = w ++ post ∧
      ∀ pre' post', text = pre' ++ w ++ post' → pre.length ≤ pre'.length := by
  induction text with
  | nil =>
    rw [strstr, Option.ite_none_right_eq_some] at h
    obtain ⟨rfl, h⟩ := h
    exact ⟨[], [], by rw [← Option.some.inj h]; rfl, by rw [← Option.some.inj h]; rfl,
      fun _ _ _ => Nat.zero_le _⟩
  | cons b text ih =>
    rw [strstr] at h
    split at h
    · rename_i hw
      obtain ⟨post, hpost⟩ := List.isPrefixOf_iff_prefix.mp hw
      obtain rfl := Option.some.inj h
      exact ⟨[], post, rfl, hpost.symm, fun _ _ _ => Nat.zero_le _⟩
    · rename_i hw
      obtain ⟨pre, post, hcut, hfound, hfirst⟩ := ih h
      refine ⟨b :: pre, post, by rw [hcut, List.cons_append], hfound, fun pre' post' hcut' => ?_⟩
      cases pre' with
      | nil => exact absurd (List.isPrefixOf_iff_prefix.mpr ⟨post', by simpa using hcut'.symm⟩) hw
      | cons a pre' => exact Nat.succ_le_succ (hfirst pre' post' (List.cons.inj hcut').2)

/-- The name ends with the extension and has it nowhere before. -/
def EndsFirst (filename ext : List UInt8) : Prop :=
  ∃ pre, filename = pre ++ ext ∧
    ∀ pre' post, filename = pre' ++ ext ++ post → pre.length ≤ pre'.length

/-- `ends_with` looks at the first occurrence only. -/
theorem endsWith_iff (filename ext : List UInt8) :
    endsWith filename ext = true ↔ EndsFirst filename ext := by
  unfold endsWith
  cases hfind : strstr ext filename with
  | none =>
    refine iff_of_false (by simp) ?_
    rintro ⟨pre, hpre, -⟩
    exact strstr_eq_none_iff.mp hfind pre [] (by rw [hpre, List.append_nil])
  | some found =>
    obtain ⟨pre, post, hcut, rfl, hfirst⟩ := strstr_spec hfind
    dsimp only
    rw [decide_eq_true_eq]
    constructor
    · intro hlen
      have hpost : post = [] := by simpa using hlen
      exact ⟨pre, by rw [hcut, hpost, List.append_nil], hfirst⟩
    · rintro ⟨pre', hpre', hfirst'⟩
      -- both are the first occurrence
      have hle := hfirst pre' [] (by rw [hpre', List.append_nil])
      have hge := hfirst' pre post (by rw [hcut, List.append_assoc])
      have hlen := congrArg List.length (hcut.symm.trans hpre')
      simp only [List.length_append] at hlen ⊢
      omega

/-- The extensions that `select_content_type` knows. -/
def contentTypes : List (List UInt8 × String) :=
  [(cstr ".html", "text/html"), (cstr ".png", "image/png"), (cstr ".css", "text/css"),
    (cstr ".gif", "image/gif"), (cstr ".txt", "text/plain")]

/-- A name ends with one extension only. -/
theorem EndsFirst.unique {filename ext ext' : List UInt8} {type type' : String}
    (h : EndsFirst filename ext) (h' : EndsFirst filename ext') (hmem : (ext, type) ∈ contentTypes)
    (hmem' : (ext', type') ∈ contentTypes) : ext = ext' := by
  obtain ⟨pre, rfl, -⟩ := h
  obtain ⟨pre', hpre', -⟩ := h'
  have hdistinct : ∀ x ∈ contentTypes, ∀ y ∈ contentTypes, y.1.length ≤ x.1.length →
      y.1 <:+ x.1 → x.1 = y.1 := by decide +kernel
  have hsuffix : ext <:+ pre ++ ext := List.suffix_append _ _
  have hsuffix' : ext' <:+ pre ++ ext := hpre' ▸ List.suffix_append _ _
  rcases Nat.le_total ext.length ext'.length with hle | hle
  · exact (hdistinct _ hmem' _ hmem hle (List.suffix_of_suffix_length_le hsuffix hsuffix' hle)).symm
  · exact hdistinct _ hmem _ hmem' hle (List.suffix_of_suffix_length_le hsuffix' hsuffix hle)

/-- **Content types**: a name has the type of the extension that it ends with, provided that
    this is the first occurrence; any other name has the type of a binary file. -/
theorem selectContentType_eq_iff (filename : List UInt8) (type : String) :
    selectContentType filename = type ↔
      (∃ ext, (ext, type) ∈ contentTypes ∧ EndsFirst filename ext) ∨
      (type = "application/octet-stream" ∧ ∀ ext type', (ext, type') ∈ contentTypes →
        ¬ EndsFirst filename ext) := by
  have hselect : selectContentType filename =
      ((contentTypes.find? fun x => endsWith filename x.1).map Prod.snd).getD
        "application/octet-stream" := by
    simp only [selectContentType, contentTypes, List.find?_cons]
    cases endsWith filename (cstr ".html")
    case true => rfl
    cases endsWith filename (cstr ".png")
    case true => rfl
    cases endsWith filename (cstr ".css")
    case true => rfl
    cases endsWith filename (cstr ".gif")
    case true => rfl
    cases endsWith filename (cstr ".txt") <;> rfl
  rw [hselect]
  cases hfind : contentTypes.find? fun x => endsWith filename x.1 with
  | none =>
    have hnone : ∀ ext type', (ext, type') ∈ contentTypes → ¬ EndsFirst filename ext := by
      intro ext type' hmem hends
      exact List.find?_eq_none.mp hfind _ hmem ((endsWith_iff _ _).mpr hends)
    constructor
    · exact fun h => .inr ⟨h.symm, hnone⟩
    · rintro (⟨ext, hmem, hends⟩ | ⟨rfl, -⟩)
      · exact absurd hends (hnone ext type hmem)
      · rfl
  | some found =>
    obtain ⟨ext, type'⟩ := found
    have hmem : (ext, type') ∈ contentTypes := List.mem_of_find?_eq_some hfind
    have hends : EndsFirst filename ext := by
      rw [← endsWith_iff]
      exact List.find?_some (p := fun x : List UInt8 × String => endsWith filename x.1) hfind
    constructor
    · rintro rfl
      exact .inl ⟨ext, hmem, hends⟩
    · rintro (⟨ext', hmem', hends'⟩ | ⟨-, hnone⟩)
      · have htable : ∀ x ∈ contentTypes, ∀ y ∈ contentTypes, x.1 = y.1 → x.2 = y.2 := by
          decide +kernel
        exact htable _ hmem _ hmem' (hends.unique hends' hmem hmem')
      · exact absurd hends (hnone ext type' hmem)

end Equic.Filesystem
