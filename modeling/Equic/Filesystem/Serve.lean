import Equic.Filesystem.Stream
import Equic.Foundation.Pool

/-!
# The file server

All streams of the Filesystem Mode, without `-P`: clients open streams with a request, a
request may push a file, and lsquic and the timers call the callbacks of the streams in any
order.

`Opened` ties what lsquic has been given for a stream to the file that its request names.
`files_served` says that this holds in every run. `server_stays_up_iff` says which requests
and failures end the process: an unreadable request, a missing file or a missing host are
enough.
-/

namespace Equic.Filesystem

open Equic.Foundation

/-! ## §1 The machine -/

/-- What is called for a stream. -/
inductive ServeCall where
  | onRead (r : ServeRead)
  | onWrite (w : ServeWrite)
  | resumeResponse
  | onClose
  deriving DecidableEq, Repr

/-- The stream of a client. -/
def newClient (lib : FileLib) (request : List UInt8) : Option (ServeStream lib) :=
  some (.new lib none request)

/-- The callbacks of one stream of a server without `-P`. lsquic calls `on_read` while the read
    side is open and `on_write` while the stream wants it and is not shut down; the event of a
    delay outlives the stream. -/
def serveMove {lib : FileLib} (cfg : Settings) (s : ServeStream lib) :
    ServeCall → Option (Except ServeFault (ServeStream lib × List (ServeStream lib)))
  | .onRead r =>
    if s.isFreed || s.isClosed || s.isShutRead then none
    else (s.onRead cfg r).map fun y => y.map fun y => (y.1, y.2.map fun p => .new lib (some p) [])
  | .onWrite w =>
    if !s.isFreed && !s.isClosed && s.wantWrite && !s.isShutWrite then
      some ((s.onWrite cfg w).map fun s => (s, []))
    else none
  | .resumeResponse =>
    if s.resumeResp then some (s.resumeResponse.map fun s => (s, [])) else none
  | .onClose => if s.isFreed then none else some (.ok ({ s with isFreed := true }, []))

/-- What happens to the server; a client starts with its request. -/
abbrev ServeEvent := PoolEvent (List UInt8) ServeCall

/-- One event: a client opens a stream, or something is called for one. -/
abbrev serveStep (lib : FileLib) (cfg : Settings) :
    Except ServeFault (List (ServeStream lib)) → ServeEvent →
      Option (Except ServeFault (List (ServeStream lib))) :=
  poolStep (newClient lib) (serveMove cfg)

/-! ## §2 What a stream is for -/

/-- A request has a host line. -/
def HasHost (reqBuf : List UInt8) : Prop :=
  ∃ pre head blanks name post, cString reqBuf = pre ++ head ++ blanks ++ name ++ crlf ++ post ∧
    IsHostLine head blanks name

/-- What the path of a request is, in the Filesystem Mode. -/
def HttpRequest (reqBuf path : List UInt8) : Prop := RequestPath (cString reqBuf) path

namespace ServeStream

variable {lib : FileLib}

/-- The stream is about the file `path`: by its promise, or by its request, of which
    `requests` says which path it is for. -/
def Names (requests : List UInt8 → List UInt8 → Prop) (root path : List UInt8)
    (s : ServeStream lib) : Prop :=
  match s.push with
  | some push => path = filename root push.path
  | none => s.unread = [] ∧ ∃ p, requests s.reqBuf p ∧ path = filename root p

/-- The file is not open, and nothing has been sent. -/
structure Collecting (s : ServeStream lib) : Prop where
  readerCtx : s.readerCtx = none
  headersSent : s.headersSent = false
  resumeResp : s.resumeResp = false
  wantWrite : s.wantWrite = false
  contentType : s.contentType = none
  handed : s.handed = []
  isShutWrite : s.isShutWrite = false

/-- The file is open, and what has been handed over is the part of it that has been read. -/
structure Opened (requests : List UInt8 → List UInt8 → Prop) (root path content : List UInt8)
    (c : lib.reader.Ctx) (s : ServeStream lib) : Prop where
  reqPath : s.reqPath = some path
  readerCtx : s.readerCtx = some c
  names : s.Names requests root path
  file : lib.files path = some content
  carries : s.isClosed = false → s.handed ++ lib.reader.rest c = content
  handed : s.handed <+: content
  shut : s.isShutWrite = true → s.isClosed = false → lib.reader.rest c = []

/-- The headers are those of the file, and come first. -/
structure Announced (path : List UInt8) (s : ServeStream lib) : Prop where
  contentType : s.contentType = if s.headersSent then some (selectContentType path) else none
  ordered : s.headersSent = false → s.handed = [] ∧ s.isShutWrite = false

/-- A stream is collecting its request or sending its file. -/
inductive Ok (requests : List UInt8 → List UInt8 → Prop) (root : List UInt8)
    (s : ServeStream lib) : Prop
  | collecting : s.Collecting → Ok requests root s
  | opened {path content : List UInt8} {c : lib.reader.Ctx} : s.isShutRead = true →
      s.Opened requests root path content c → s.Announced path → Ok requests root s

/-- **What a client gets**: nothing before the headers, and then, in order, the bytes of the
    file that its request names, all of them if the stream is shut down in the end. -/
structure Serves (requests : List UInt8 → List UInt8 → Prop) (root : List UInt8)
    (s : ServeStream lib) : Prop where
  silent : s.headersSent = false → s.contentType = none ∧ s.handed = [] ∧ s.isShutWrite = false
  sends : s.headersSent = true → ∃ path content, s.Names requests root path ∧
    lib.files path = some content ∧ s.contentType = some (selectContentType path) ∧
      s.handed <+: content ∧
        (s.isShutWrite = true → s.isClosed = false → s.handed = content)

theorem Ok.serves {requests : List UInt8 → List UInt8 → Prop} {root : List UInt8}
    {s : ServeStream lib} (h : s.Ok requests root) : s.Serves requests root := by
  cases h with
  | collecting h =>
    refine ⟨fun _ => ⟨h.contentType, h.handed, h.isShutWrite⟩, fun hsent => ?_⟩
    rw [h.headersSent] at hsent
    cases hsent
  | @opened path content c _ h ha =>
    -- what has been sent and what the reader still has make up the file
    refine ⟨fun hsent => ⟨?_, ha.ordered hsent⟩, fun hsent => ⟨path, content, h.names, h.file,
      ?_, h.handed, fun hshut hclosed => ?_⟩⟩
    · simpa [hsent] using ha.contentType
    · simpa [hsent] using ha.contentType
    · have hall := h.carries hclosed
      rw [h.shut hshut hclosed, List.append_nil] at hall
      exact hall

/-! ## §3 Opening the file -/

variable {requests : List UInt8 → List UInt8 → Prop} {root path content : List UInt8}
  {cfg : Settings} {c : lib.reader.Ctx} {s s' : ServeStream lib}

/-- Where a stream comes from: the promise or the whole request. -/
def origin (s : ServeStream lib) : Option Push × List UInt8 := (s.push, s.reqBuf ++ s.unread)

theorem create_cases (lib : FileLib) (path : List UInt8) :
    (lib.create (some path) = none ∧ lib.files path = none) ∨
      ∃ c, lib.create (some path) = some c ∧ lib.files path = some (lib.reader.rest c) := by
  have hspec := lib.create_rest (some path)
  cases hcreate : lib.create (some path) with
  | none =>
    rw [hcreate] at hspec
    exact .inl ⟨rfl, hspec.symm⟩
  | some c =>
    rw [hcreate] at hspec
    exact .inr ⟨c, rfl, hspec.symm⟩

/-- The first write with `-w` succeeds, if one is made. -/
def FirstWriteOk (cfg : Settings) (r : ServeRead) (content : List UInt8) : Prop :=
  cfg.immediateWrite ≠ 0 → r.sendOk = true ∧ (content ≠ [] → r.writef.fails = false)

/-- What the first write takes is read from the file. -/
theorem writeImmediately_cases (hctx : s.readerCtx = some c) (immediateWrite : ℤ) (w : Writef) :
    (s.writeImmediately immediateWrite w c = .error (.exit 1) ∧ lib.reader.rest c ≠ [] ∧
      w.fails = true) ∨
    ∃ c' bytes, s.writeImmediately immediateWrite w c =
        .ok { s with readerCtx := some c', handed := s.handed ++ bytes } ∧
      bytes ++ lib.reader.rest c' = lib.reader.rest c ∧
        (lib.reader.rest c ≠ [] → w.fails = false) := by
  unfold writeImmediately
  rw [lib.reader.size_eq]
  by_cases hrest : lib.reader.rest c = []
  · -- nothing is left to write, and the call is not made
    refine .inr ⟨c, [], ?_, rfl, fun hne => absurd hrest hne⟩
    rw [hrest, if_neg (by simp), ← hctx, List.append_nil]
  · rw [if_pos (List.length_pos_iff.mpr hrest)]
    cases hfails : w.fails with
    | true => exact .inl ⟨rfl, hrest, rfl⟩
    | false =>
      -- the cap of `-w` bounds the reads, but they come in order all the same
      refine .inr ⟨_, _, rfl, ?_, fun _ => rfl⟩
      exact lib.reader.feed_capped _ _ _

/-- **`process_request`** opens the file and begins to send it, or ends the process. -/
theorem processRequest_cases (cfg : Settings) (hs : s.Collecting) (hreq : s.reqPath = some path)
    (hnames : s.Names requests root path) (r : ServeRead) :
    (s.processRequest cfg r = .error (.exit 1) ∧
      ¬ ∃ content, lib.files path = some content ∧ FirstWriteOk cfg r content) ∨
    ∃ s' content c, s.processRequest cfg r = .ok s' ∧ FirstWriteOk cfg r content ∧
      s'.Opened requests root path content c ∧ s'.Announced path ∧ s'.origin = s.origin := by
  obtain ⟨hcreate, hfile⟩ | ⟨c, hcreate, hfile⟩ := create_cases lib path
  · -- `create_lsquic_reader_ctx` fails, and the process exits
    rw [← hreq] at hcreate
    refine .inl ⟨by simp only [processRequest, hcreate], ?_⟩
    rintro ⟨content, hcontent, -⟩
    rw [hfile] at hcontent
    cases hcontent
  rw [← hreq] at hcreate
  by_cases himmediate : cfg.immediateWrite = 0
  · -- nothing is sent yet
    refine .inr ⟨{ s with readerCtx := some c, wantWrite := true }, lib.reader.rest c, c, ?_,
      fun hne => absurd himmediate hne, ?_, ?_, rfl⟩
    · simp [processRequest, hcreate, himmediate]
    · refine ⟨hreq, rfl, hnames, hfile, fun _ => ?_, ?_, fun hshut => ?_⟩
      · dsimp only
        rw [hs.handed, List.nil_append]
      · dsimp only
        rw [hs.handed]
        exact List.nil_prefix
      · rw [hs.isShutWrite] at hshut
        cases hshut
    · refine ⟨?_, fun _ => ⟨hs.handed, hs.isShutWrite⟩⟩
      dsimp only
      rw [hs.headersSent, hs.contentType]
      rfl
  cases hsend : r.sendOk with
  | false =>
    -- lsquic does not take the headers
    refine .inl ⟨?_, ?_⟩
    · simp only [processRequest, hcreate, himmediate, ne_eq, not_false_eq_true, if_true,
        sendHeaders, hsend, Bool.false_eq_true, if_false]
      rfl
    · rintro ⟨content, -, hok⟩
      have hsent := (hok himmediate).1
      rw [hsend] at hsent
      cases hsent
  | true =>
    -- the headers are out, and the first write is made
    let s₁ : ServeStream lib := { s with
      readerCtx := some c
      headersSent := true
      contentType := some (selectContentType path) }
    have hsent : ({ s with readerCtx := some c } : ServeStream lib).sendHeaders true = .ok s₁ := by
      simp [sendHeaders, hreq, s₁]
    have hwrite : s.processRequest cfg r =
        (s₁.writeImmediately cfg.immediateWrite r.writef c).map fun s =>
          if s.readerSize > 0 then { s with wantWrite := true }
          else { s with isShutWrite := true } := by
      simp only [processRequest, hcreate, himmediate, ne_eq, not_false_eq_true, if_true, hsend,
        hsent, bind, Except.bind]
      cases s₁.writeImmediately cfg.immediateWrite r.writef c with
      | error f => rfl
      | ok s₂ => by_cases hmore : s₂.readerSize > 0 <;> simp [hmore, Except.map, pure, Except.pure]
    obtain ⟨herror, hrest, hfails⟩ | ⟨c', bytes, hok, hsplit, hfails⟩ :=
      writeImmediately_cases (s := s₁) rfl cfg.immediateWrite r.writef
    · -- the first write fails, with something to write
      refine .inl ⟨by rw [hwrite, herror]; rfl, ?_⟩
      rintro ⟨content, hcontent, hfirst⟩
      obtain rfl : lib.reader.rest c = content := Option.some.inj (hfile.symm.trans hcontent)
      rw [(hfirst himmediate).2 hrest] at hfails
      cases hfails
    · -- nothing was sent before, so the first write is the beginning of the file
      have hhanded : s.handed ++ bytes = bytes := by rw [hs.handed, List.nil_append]
      have hprefix : s.handed ++ bytes <+: lib.reader.rest c := by
        rw [hhanded, ← hsplit]
        exact List.prefix_append _ _
      have hcarries : s.handed ++ bytes ++ lib.reader.rest c' = lib.reader.rest c := by
        rw [hhanded, hsplit]
      rw [hwrite, hok]
      by_cases hmore : lib.reader.size c' > 0
      · -- the rest is left to `http_server_on_write`
        refine .inr ⟨{ s₁ with
            readerCtx := some c', handed := s.handed ++ bytes, wantWrite := true },
          lib.reader.rest c, c', ?_, fun _ => ⟨hsend, hfails⟩, ?_, ⟨rfl, ?_⟩, rfl⟩
        · simp only [Except.map, readerSize, hmore, if_true, s₁]
        · refine ⟨hreq, rfl, hnames, hfile, fun _ => hcarries, hprefix, fun hshut => ?_⟩
          rw [hs.isShutWrite] at hshut
          cases hshut
        · rintro ⟨⟩
      · -- the first write has taken the whole file, and the stream is shut down at once
        have hnil : lib.reader.rest c' = [] := by
          rw [lib.reader.size_eq] at hmore
          exact List.length_eq_zero_iff.mp (by omega)
        refine .inr ⟨{ s₁ with
            readerCtx := some c', handed := s.handed ++ bytes, isShutWrite := true },
          lib.reader.rest c, c', ?_, fun _ => ⟨hsend, hfails⟩, ?_, ⟨rfl, ?_⟩, rfl⟩
        · simp only [Except.map, readerSize, hmore, if_false, s₁]
        · exact ⟨hreq, rfl, hnames, hfile, fun _ => hcarries, hprefix, fun _ _ => hnil⟩
        · rintro ⟨⟩

/-! ## §4 Reading the request -/

/-- A read does no harm: once the request is complete it can be parsed, its file can be
    opened, its first write succeeds, and it names a host where one is needed for a push. -/
def HarmlessRead (cfg : Settings) (r : ServeRead) (s : ServeStream lib) : Prop :=
  match s.push with
  | some push => r.hsetOk = true → ∃ content,
      lib.files (filename cfg.documentRoot push.path) = some content ∧ FirstWriteOk cfg r content
  | none => r.nread = some 0 → ∃ p content, HttpRequest s.reqBuf p ∧
      lib.files (filename cfg.documentRoot p) = some content ∧ FirstWriteOk cfg r content ∧
        ∀ pushPath, cfg.pushPath = some pushPath → filename cfg.documentRoot p ≠ pushPath →
          HasHost s.reqBuf

/-- The pushes of a read: at most one, for the push path, with the host of the request. -/
def PushesOnce (cfg : Settings) (reqBuf : List UInt8) (pushed : List Push) : Prop :=
  pushed = [] ∨ ∃ pushPath host, cfg.pushPath = some pushPath ∧ hostOf reqBuf = some host ∧
    pushed = [⟨pushPath, host⟩]

/-- What `push_promise` needs. -/
theorem promise_cases (cfg : Settings) (hreq : s.reqPath = some path) (r : ServeRead) :
    ((∃ f, s.promise cfg r = .error f) ∧
      ∃ pushPath, cfg.pushPath = some pushPath ∧ path ≠ pushPath ∧ ¬ HasHost s.reqBuf) ∨
    ∃ pushed, s.promise cfg r = .ok pushed ∧ PushesOnce cfg s.reqBuf pushed ∧
      ∀ pushPath, cfg.pushPath = some pushPath → path ≠ pushPath → HasHost s.reqBuf := by
  unfold promise
  rw [hreq]
  cases hpush : cfg.pushPath with
  | none => exact .inr ⟨[], rfl, .inl rfl, by rintro _ ⟨⟩⟩
  | some pushPath =>
    by_cases hsame : path = pushPath
    · -- a request for the push path itself is answered without a push
      refine .inr ⟨[], if_pos hsame, .inl rfl, ?_⟩
      rintro _ ⟨⟩ hne
      exact absurd hsame hne
    · dsimp only
      rw [if_neg hsame, pushPromise]
      have hspec := (hostOf_spec s.reqBuf).1
      cases hhost : hostOf s.reqBuf with
      | none =>
        rw [hhost] at hspec
        exact .inl ⟨⟨_, rfl⟩, pushPath, rfl, hsame, fun h => Bool.false_ne_true (hspec.mpr h)⟩
      | some host =>
        rw [hhost] at hspec
        refine .inr ⟨_, rfl, ?_, fun _ _ _ => hspec.mp rfl⟩
        cases r.pushOk with
        | true => exact .inr ⟨pushPath, host, hpush, hhost, rfl⟩
        | false => exact .inl rfl

theorem create_none (lib : FileLib) : lib.create none = none := by
  have hspec := lib.create_rest none
  rw [Option.bind_none] at hspec
  exact Option.map_eq_none_iff.mp hspec

/-- A request that cannot be parsed ends the process. -/
theorem malformed_fails (hreq : s.reqPath = none) (r : ServeRead) :
    (∃ f, s.promise cfg r = .error f) ∨
      s.promise cfg r = .ok [] ∧ s.processRequest cfg r = .error (.exit 1) := by
  unfold promise
  cases cfg.pushPath with
  -- with `-p` the missing path is compared with the push path
  | some pushPath => exact .inl ⟨_, by rw [hreq]⟩
  | none =>
    refine .inr ⟨rfl, ?_⟩
    have hcreate : lib.create s.reqPath = none := by rw [hreq, create_none]
    simp only [processRequest, hcreate]

theorem Opened.shutRead (h : s.Opened requests root path content c) :
    Opened requests root path content c { s with isShutRead := true } :=
  ⟨h.reqPath, h.readerCtx, h.names, h.file, h.carries, h.handed, h.shut⟩

theorem Announced.shutRead (h : s.Announced path) :
    Announced path { s with isShutRead := true } := ⟨h.contentType, h.ordered⟩

/-- **The end of a request** opens its file, or ends the process. -/
theorem complete_cases (hs : s.Collecting) (hclient : s.push = none) (hunread : s.unread = [])
    {r : ServeRead} (hnread : r.nread = some 0)
    {y : Except ServeFault (ServeStream lib × List Push)} (h : s.onReadRegular cfg r = some y) :
    (∃ f, y = .error f ∧ ¬ s.HarmlessRead cfg r) ∨
    ∃ s' pushed, y = .ok (s', pushed) ∧ s.HarmlessRead cfg r ∧ s'.Ok HttpRequest cfg.documentRoot ∧
      s'.origin = s.origin ∧ PushesOnce cfg s.origin.2 pushed ∧ s'.isShutRead = true := by
  let s₁ : ServeStream lib :=
    { s with reqPath := (parseRequest s.reqBuf).map (filename cfg.documentRoot) }
  have hy : y = (s₁.promise cfg r).bind fun pushed => (s₁.processRequest cfg r).map fun s =>
      ({ s with isShutRead := true }, pushed) := by
    simp only [onReadRegular, hnread, if_pos hunread, Option.some.injEq] at h
    rw [← h]
    cases s₁.promise cfg r with
    | error f => rfl
    | ok pushed => cases s₁.processRequest cfg r <;> rfl
  have hcollecting : s₁.Collecting := ⟨hs.readerCtx, hs.headersSent, hs.resumeResp, hs.wantWrite,
    hs.contentType, hs.handed, hs.isShutWrite⟩
  have hwhole : s.origin.2 = s.reqBuf := by simp [origin, hunread]
  have hharmless : s.HarmlessRead cfg r ↔ ∃ p content, HttpRequest s.reqBuf p ∧
      lib.files (filename cfg.documentRoot p) = some content ∧ FirstWriteOk cfg r content ∧
        ∀ pushPath, cfg.pushPath = some pushPath → filename cfg.documentRoot p ≠ pushPath →
          HasHost s.reqBuf := by
    simp only [HarmlessRead, hclient, hnread, forall_const]
  -- the same three questions in the order of the code: the request line, the host, the file
  cases hparse : parseRequest s.reqBuf with
  | none =>
    have hreq : s₁.reqPath = none := by simp only [s₁, hparse, Option.map_none]
    have hharm : ¬ s.HarmlessRead cfg r := by
      rw [hharmless]
      rintro ⟨p, -, hp, -⟩
      rw [(parseRequest_eq_some_iff _ _).mpr hp] at hparse
      cases hparse
    obtain ⟨f, hf⟩ | ⟨hpromise, hprocess⟩ := malformed_fails hreq r
    · exact .inl ⟨f, by rw [hy, hf]; rfl, hharm⟩
    · exact .inl ⟨_, by rw [hy, hpromise, hprocess]; rfl, hharm⟩
  | some p =>
    have hp : HttpRequest s.reqBuf p := (parseRequest_eq_some_iff _ _).mp hparse
    have hreq : s₁.reqPath = some (filename cfg.documentRoot p) := by
      simp only [s₁, hparse, Option.map_some]
    have hnames : s₁.Names HttpRequest cfg.documentRoot (filename cfg.documentRoot p) := by
      unfold Names
      rw [show s₁.push = none from hclient]
      exact ⟨hunread, p, hp, rfl⟩
    obtain ⟨⟨f, hf⟩, pushPath, hpush, hne, hhost⟩ | ⟨pushed, hpromise, honce, hhost⟩ :=
      promise_cases cfg hreq r
    · -- a push needs a host, and the request names none
      refine .inl ⟨f, by rw [hy, hf]; rfl, ?_⟩
      rw [hharmless]
      rintro ⟨p', -, hp', -, -, hneeds⟩
      obtain rfl := hp.unique hp'
      exact hhost (hneeds pushPath hpush hne)
    · obtain ⟨herror, hfile⟩ | ⟨s', content, c, hok, hfirst, hopened, hannounced, hsame⟩ :=
        processRequest_cases cfg hcollecting hreq hnames r
      · -- a request has one path, so it is this file that cannot be served
        refine .inl ⟨_, by rw [hy, hpromise, herror]; rfl, ?_⟩
        rw [hharmless]
        rintro ⟨p', content, hp', hcontent, hfirst, -⟩
        obtain rfl := hp.unique hp'
        exact hfile ⟨content, hcontent, hfirst⟩
      · refine .inr ⟨_, pushed, by rw [hy, hpromise, hok]; rfl, ?_,
          .opened rfl hopened.shutRead hannounced.shutRead, hsame, hwhole ▸ honce, rfl⟩
        rw [hharmless]
        exact ⟨p, content, hp, hopened.file, hfirst, hhost⟩

theorem Collecting.close (hs : s.Collecting) : Collecting { s with isClosed := true } :=
  ⟨hs.readerCtx, hs.headersSent, hs.resumeResp, hs.wantWrite, hs.contentType, hs.handed,
    hs.isShutWrite⟩

/-- A pushed stream has no request to read. -/
theorem onReadPushed_cases (hs : s.Collecting) {push : Push} (hpush : s.push = some push)
    (r : ServeRead) :
    ((∃ f, s.onReadPushed cfg r push = .error f) ∧ ¬ s.HarmlessRead cfg r) ∨
    ∃ s', s.onReadPushed cfg r push = .ok s' ∧ s.HarmlessRead cfg r ∧
      s'.Ok HttpRequest cfg.documentRoot ∧ s'.origin = s.origin := by
  cases hset : r.hsetOk with
  | false =>
    -- without a header set the stream is closed, and the process goes on
    refine .inr ⟨{ s with isClosed := true }, ?_, ?_, .collecting hs.close, rfl⟩
    · simp only [onReadPushed, hset, Bool.false_eq_true, if_false]
    · simp only [HarmlessRead, hpush, hset]
      rintro ⟨⟩
  | true =>
    let s₁ : ServeStream lib := { s with reqPath := some (filename cfg.documentRoot push.path) }
    have hread : s.onReadPushed cfg r push =
        (s₁.processRequest cfg r).map fun s => { s with isShutRead := true } := by
      simp only [onReadPushed, hset, if_true]
      cases s₁.processRequest cfg r <;> rfl
    have hcollecting : s₁.Collecting := ⟨hs.readerCtx, hs.headersSent, hs.resumeResp,
      hs.wantWrite, hs.contentType, hs.handed, hs.isShutWrite⟩
    have hpush₁ : s₁.push = some push := hpush
    have hnames : s₁.Names HttpRequest cfg.documentRoot
        (filename cfg.documentRoot push.path) := by
      simp only [Names, hpush₁]
    have hharmless : s.HarmlessRead cfg r ↔ ∃ content,
        lib.files (filename cfg.documentRoot push.path) = some content ∧
          FirstWriteOk cfg r content := by
      simp only [HarmlessRead, hpush, hset, forall_const]
    obtain ⟨herror, hfile⟩ | ⟨s', content, c, hok, hfirst, hopened, hannounced, hsame⟩ :=
      processRequest_cases cfg hcollecting rfl hnames r
    · exact .inl ⟨⟨.exit 1, by rw [hread, herror]; rfl⟩, fun h => hfile (hharmless.mp h)⟩
    · exact .inr ⟨{ s' with isShutRead := true }, by rw [hread, hok]; rfl,
        hharmless.mpr ⟨content, hopened.file, hfirst⟩,
        .opened rfl hopened.shutRead hannounced.shutRead, hsame⟩

/-- **Reading**: the request is collected, or completed. -/
theorem onRead_cases (hs : s.Collecting) {r : ServeRead}
    {y : Except ServeFault (ServeStream lib × List Push)} (h : s.onRead cfg r = some y) :
    (∃ f, y = .error f ∧ ¬ s.HarmlessRead cfg r) ∨
    ∃ s' pushed, y = .ok (s', pushed) ∧ s.HarmlessRead cfg r ∧ s'.Ok HttpRequest cfg.documentRoot ∧
      s'.origin = s.origin ∧ (pushed = [] ∨
        s.push = none ∧ PushesOnce cfg s.origin.2 pushed ∧ s'.isShutRead = true) := by
  unfold onRead at h
  split at h
  · rename_i push hpush
    obtain rfl := Option.some.inj h
    obtain ⟨⟨f, hf⟩, hharm⟩ | ⟨s', hok, hharm, hs', hsame⟩ := onReadPushed_cases hs hpush r
    · exact .inl ⟨f, by rw [hf]; rfl, hharm⟩
    · exact .inr ⟨s', [], by rw [hok]; rfl, hharm, hs', hsame, .inl rfl⟩
  · rename_i hpush
    match hnread : r.nread with
    | none =>
      -- a failing read closes the stream
      simp only [onReadRegular, hnread, Option.some.injEq] at h
      subst h
      refine .inr ⟨{ s with isClosed := true }, [], rfl, ?_, .collecting hs.close, rfl, .inl rfl⟩
      simp only [HarmlessRead, hpush, hnread]
      rintro ⟨⟩
    | some 0 =>
      have hunread : s.unread = [] := by
        by_contra hne
        simp only [onReadRegular, hnread, if_neg hne] at h
        cases h
      obtain hfault | ⟨s', pushed, hok, hharm, hs', hpush', honce, hshut⟩ :=
        complete_cases hs hpush hunread hnread h
      · exact .inl hfault
      · exact .inr ⟨s', pushed, hok, hharm, hs', hpush', .inr ⟨hpush, honce, hshut⟩⟩
    | some (n + 1) =>
      -- more of the request: what is collected and what is to come stay the same text
      simp only [onReadRegular, hnread] at h
      obtain ⟨s', hs', rfl⟩ := Option.map_eq_some_iff.mp h
      simp only [collect, Option.ite_none_right_eq_some, Option.some.injEq] at hs'
      obtain ⟨-, rfl⟩ := hs'
      refine .inr ⟨_, [], rfl, ?_, .collecting ⟨hs.readerCtx, hs.headersSent, hs.resumeResp,
        hs.wantWrite, hs.contentType, hs.handed, hs.isShutWrite⟩, ?_, .inl rfl⟩
      · simp only [HarmlessRead, hpush, hnread]
        rintro ⟨⟩
      · simp [origin]

/-! ## §5 Sending the file -/

/-- A write does no harm: the headers are taken, or the file can be written on, unless the
    connection has received a GOAWAY. -/
def HarmlessWrite (cfg : Settings) (w : ServeWrite) (s : ServeStream lib) : Prop :=
  if s.headersSent then
    0 < s.bytesLeft 0 → s.delays cfg w = false → w.writef.fails = true → w.goaway = true
  else w.sendOk = true

/-- A write that succeeds hands over the next bytes of the file. -/
theorem Opened.writef_ok (h : s.Opened requests root path content c)
    (hclosed : s.isClosed = false) (hshut : s.isShutWrite = false) {w : Writef}
    (hfails : w.fails = false) :
    ∃ c' bytes, s.writef w c =
        ({ s with readerCtx := some c', handed := s.handed ++ bytes }, (bytes.length : ℤ)) ∧
      Opened requests root path content c'
        { s with readerCtx := some c', handed := s.handed ++ bytes } := by
  -- the bytes go from one side of the account to the other
  have hcarries : s.handed ++ (lib.reader.feed c w.counts).2 ++
      lib.reader.rest (lib.reader.feed c w.counts).1 = content := by
    rw [List.append_assoc, lib.reader.feed_append_rest]
    exact h.carries hclosed
  refine ⟨(lib.reader.feed c w.counts).1, (lib.reader.feed c w.counts).2, ?_, h.reqPath, rfl,
    h.names, h.file, fun _ => hcarries, ⟨_, hcarries⟩, fun hshut' => ?_⟩
  · simp only [writef, hfails, Bool.false_eq_true, if_false]
  · rw [hshut] at hshut'
    cases hshut'

theorem writef_fails {w : Writef} (hfails : w.fails = true) :
    s.writef w c = ({ s with readerCtx := some (lib.reader.feed c w.counts).1 }, -1) := by
  simp only [writef, hfails, if_true]

/-- A stream that is closed after a failure stays as it is. -/
theorem Opened.close (h : s.Opened requests root path content c) (c' : lib.reader.Ctx) :
    Opened requests root path content c' { s with readerCtx := some c', isClosed := true } :=
  ⟨h.reqPath, rfl, h.names, h.file, by rintro ⟨⟩, h.handed, by rintro - ⟨⟩⟩

/-- What follows a write. -/
theorem Opened.afterWrite (h : s.Opened requests root path content c) (sPwritev nw : ℤ)
    (hleft : s.isClosed = false → s.bytesLeft sPwritev = 0 → lib.reader.rest c = []) :
    (s.afterWrite sPwritev nw).Opened requests root path content c := by
  unfold ServeStream.afterWrite
  split
  · exact ⟨h.reqPath, h.readerCtx, h.names, h.file, h.carries, h.handed, h.shut⟩
  · rename_i hnone
    exact ⟨h.reqPath, h.readerCtx, h.names, h.file, h.carries, h.handed,
      fun _ hclosed => hleft hclosed (Nat.eq_zero_of_not_pos hnone)⟩

theorem Announced.afterWrite (h : s.Announced path) (hsent : s.headersSent = true)
    (sPwritev nw : ℤ) : (s.afterWrite sPwritev nw).Announced path := by
  have hordered : ∀ b : Bool, s.headersSent = false → s.handed = [] ∧ b = false := by
    intro b hno
    rw [hsent] at hno
    cases hno
  unfold ServeStream.afterWrite
  split
  · exact ⟨h.contentType, hordered _⟩
  · exact ⟨h.contentType, hordered _⟩

/-- Without `-P` the reader knows what is left. -/
theorem Opened.bytesLeft (h : s.Opened requests root path content c) :
    s.bytesLeft 0 = (lib.reader.rest c).length := by
  simp [ServeStream.bytesLeft, readerSize, h.readerCtx, lib.reader.size_eq]

theorem Opened.rest_eq_nil (h : s.Opened requests root path content c)
    (hnone : s.bytesLeft 0 = 0) : lib.reader.rest c = [] :=
  List.length_eq_zero_iff.mp (h.bytesLeft.symm.trans hnone)

/-- The part of a write behind the delay. -/
theorem onWrite_writef {w : ServeWrite} (hsent : s.headersSent = true)
    (hctx : s.readerCtx = some c) (hleft : 0 < s.bytesLeft 0) (hdelay : s.delays cfg w = false) :
    s.onWrite cfg w =
      if (s.writef w.writef c).2 < 0 then
        if w.goaway then
          .ok ({ (s.writef w.writef c).1 with isClosed := true }.afterWrite 0
            (s.writef w.writef c).2)
        else .error (.exit 1)
      else .ok ((s.writef w.writef c).1.afterWrite 0 (s.writef w.writef c).2) := by
  simp only [onWrite, hsent, hctx, hleft, hdelay, if_true, Bool.false_eq_true, if_false]

theorem afterWrite_frame (sPwritev nw : ℤ) (s : ServeStream lib) :
    (s.afterWrite sPwritev nw).origin = s.origin ∧
      (s.afterWrite sPwritev nw).isShutRead = s.isShutRead := by
  unfold ServeStream.afterWrite
  split <;> exact ⟨rfl, rfl⟩

/-- A write behind the headers. -/
theorem Opened.onWrite_cases (h : s.Opened requests root path content c) (ha : s.Announced path)
    (hread : s.isShutRead = true) (hsent : s.headersSent = true) (hclosed : s.isClosed = false)
    (hshut : s.isShutWrite = false) (w : ServeWrite) :
    ((∃ f, s.onWrite cfg w = .error f) ∧ ¬ s.HarmlessWrite cfg w) ∨
    ∃ s', s.onWrite cfg w = .ok s' ∧ s.HarmlessWrite cfg w ∧ s'.Ok requests root ∧
      s'.origin = s.origin ∧ s'.isShutRead = s.isShutRead := by
  unfold HarmlessWrite
  rw [if_pos hsent]
  by_cases hleft : 0 < s.bytesLeft 0
  case neg =>
    -- the whole file is out
    refine .inr ⟨{ s with isShutWrite := true }, ?_, fun hmore => absurd hmore hleft,
      .opened hread ⟨h.reqPath, h.readerCtx, h.names, h.file, h.carries, h.handed, fun _ _ => ?_⟩
        ⟨ha.contentType, fun hno => ?_⟩, rfl, rfl⟩
    · simp only [onWrite, hsent, h.readerCtx, hleft, if_true, if_false]
    · exact h.rest_eq_nil (Nat.eq_zero_of_not_pos hleft)
    · exact absurd (hsent.symm.trans hno) (by decide)
  cases hdelay : s.delays cfg w with
  | true =>
    -- `-y`: nothing is written until the timer calls `resume_response`
    refine .inr ⟨{ s with resumeResp := true, wantWrite := false, delayed := true }, ?_, by simp,
      .opened hread ⟨h.reqPath, h.readerCtx, h.names, h.file, h.carries, h.handed, h.shut⟩
        ⟨ha.contentType, fun hno => ?_⟩, rfl, rfl⟩
    · simp only [onWrite, hsent, h.readerCtx, hleft, hdelay, if_true]
    · exact absurd (hsent.symm.trans hno) (by decide)
  | false =>
    rw [onWrite_writef hsent h.readerCtx hleft hdelay]
    cases hfails : w.writef.fails with
    | true =>
      rw [writef_fails hfails, if_pos (by simp)]
      cases hgoaway : w.goaway with
      -- the process exits
      | false => exact .inl ⟨⟨_, if_neg (by simp)⟩, by simp [hleft]⟩
      | true =>
        -- the stream is closed, whatever is left of the file
        have hclose := h.close (lib.reader.feed c w.writef.counts).1
        obtain ⟨hpush, hshutRead⟩ := afterWrite_frame 0 (-1) { s with
          readerCtx := some (lib.reader.feed c w.writef.counts).1, isClosed := true }
        refine .inr ⟨_, if_pos rfl, by simp, .opened (hshutRead.trans hread)
          (hclose.afterWrite 0 (-1) (by rintro ⟨⟩)) ?_, hpush, hshutRead⟩
        exact Announced.afterWrite (s := { s with
          readerCtx := some (lib.reader.feed c w.writef.counts).1, isClosed := true })
          ⟨ha.contentType, ha.ordered⟩ hsent 0 (-1)
    | false =>
      -- the write succeeds; the stream is shut down if it was the last one
      obtain ⟨c', bytes, hwritef, hopened⟩ := h.writef_ok hclosed hshut hfails
      obtain ⟨hpush, hshutRead⟩ := afterWrite_frame 0 bytes.length { s with
        readerCtx := some c', handed := s.handed ++ bytes }
      rw [hwritef, if_neg (by simp)]
      refine .inr ⟨_, rfl, by simp, .opened (hshutRead.trans hread)
        (hopened.afterWrite 0 _ fun _ => hopened.rest_eq_nil) ?_, hpush, hshutRead⟩
      refine Announced.afterWrite (s := { s with
        readerCtx := some c', handed := s.handed ++ bytes })
        ⟨ha.contentType, fun hno => ?_⟩ hsent 0 _
      exact absurd (hsent.symm.trans hno) (by decide)

/-- **Writing**: the stream goes on sending its file, or the process ends. -/
theorem onWrite_cases (cfg : Settings) (hs : s.Ok requests root) (hwant : s.wantWrite = true)
    (hclosed : s.isClosed = false) (hshut : s.isShutWrite = false) (w : ServeWrite) :
    ((∃ f, s.onWrite cfg w = .error f) ∧ ¬ s.HarmlessWrite cfg w) ∨
    ∃ s', s.onWrite cfg w = .ok s' ∧ s.HarmlessWrite cfg w ∧ s'.Ok requests root ∧
      s'.origin = s.origin ∧ s'.isShutRead = s.isShutRead := by
  cases hs with
  -- a stream that still collects its request does not want to write
  | collecting hs =>
    rw [hs.wantWrite] at hwant
    cases hwant
  | @opened path content c hread h ha =>
    cases hsent : s.headersSent with
    | true => exact h.onWrite_cases ha hread hsent hclosed hshut w
    | false =>
      unfold HarmlessWrite
      cases hsend : w.sendOk with
      | false =>
        refine .inl ⟨⟨.exit 1, ?_⟩, by simp [hsent]⟩
        simp only [onWrite, hsent, sendHeaders, hsend, Bool.false_eq_true, if_false]
      | true =>
        refine .inr ⟨{ s with
            headersSent := true, contentType := some (selectContentType (s.reqPath.getD [])) },
          ?_, by simp [hsent], .opened hread ⟨h.reqPath, h.readerCtx, h.names, h.file, h.carries,
            h.handed, h.shut⟩ ⟨?_, by rintro ⟨⟩⟩, rfl, rfl⟩
        · simp only [onWrite, hsent, sendHeaders, hsend, Bool.false_eq_true, if_false, if_true]
        · simp [h.reqPath]

/-! ## §6 One callback -/

/-- The call does not end the process. -/
def Harmless (cfg : Settings) (s : ServeStream lib) : ServeCall → Prop
  | .onRead r => s.HarmlessRead cfg r
  | .onWrite w => s.HarmlessWrite cfg w
  -- the event of the delay holds the context
  | .resumeResponse => s.isFreed = false
  | .onClose => True

/-- A stream whose request is a text, or that has been promised. -/
theorem ok_new (lib : FileLib) (push : Option Push) (request : List UInt8) :
    (ServeStream.new lib push request).Ok HttpRequest root :=
  .collecting ⟨rfl, rfl, rfl, rfl, rfl, rfl, rfl⟩

/-- What one call makes of the pushes: at most one, at the end of a client's request. -/
structure Spawns (cfg : Settings) (s s' : ServeStream lib) (new : List (ServeStream lib)) :
    Prop where
  origin : s'.origin = s.origin
  isShutRead : s.isShutRead = true → s'.isShutRead = true
  new : new = [] ∨ s.push = none ∧ s.isShutRead = false ∧ s'.isShutRead = true ∧
    ∃ pushed, PushesOnce cfg s.origin.2 pushed ∧
      new = pushed.map fun p => ServeStream.new lib (some p) []

/-- **One callback**: the stream goes on, or the process ends, and exactly if the call is not
    harmless. -/
theorem Ok.move (hs : s.Ok HttpRequest cfg.documentRoot) {e : ServeCall}
    {y : Except ServeFault (ServeStream lib × List (ServeStream lib))}
    (h : serveMove cfg s e = some y) :
    (∃ f, y = .error f ∧ ¬ s.Harmless cfg e) ∨
    ∃ s' new, y = .ok (s', new) ∧ s.Harmless cfg e ∧ s'.Ok HttpRequest cfg.documentRoot ∧
      (∀ n ∈ new, n.Ok HttpRequest cfg.documentRoot) ∧ s.Spawns cfg s' new := by
  cases e with
  | onRead r =>
    simp only [serveMove] at h
    split at h
    · cases h
    · rename_i hopen
      simp only [Bool.or_eq_true, not_or, Bool.not_eq_true] at hopen
      obtain ⟨y', hy', rfl⟩ := Option.map_eq_some_iff.mp h
      cases hs with
      -- lsquic reads no more on a stream whose reading side is shut
      | opened hread =>
        rw [hopen.2] at hread
        cases hread
      | collecting hs =>
        obtain ⟨f, rfl, hharm⟩ | ⟨s', pushed, rfl, hharm, hs', hpush, hnew⟩ := onRead_cases hs hy'
        · exact .inl ⟨f, rfl, hharm⟩
        · refine .inr ⟨s', _, rfl, hharm, hs', ?_, hpush, fun hread => ?_, ?_⟩
          · intro n hn
            obtain ⟨p, -, rfl⟩ := List.mem_map.mp hn
            exact ok_new lib (some p) []
          · rw [hopen.2] at hread
            cases hread
          · obtain rfl | ⟨hclient, honce, hshut⟩ := hnew
            · exact .inl rfl
            · exact .inr ⟨hclient, hopen.2, hshut, pushed, honce, rfl⟩
  | onWrite w =>
    simp only [serveMove, Option.ite_none_right_eq_some, Bool.and_eq_true, Bool.not_eq_true',
      Option.some.injEq] at h
    obtain ⟨⟨⟨⟨-, hclosed⟩, hwant⟩, hshut⟩, rfl⟩ := h
    obtain ⟨⟨f, hf⟩, hharm⟩ | ⟨s', hok, hharm, hs', hpush, hread⟩ :=
      onWrite_cases cfg hs hwant hclosed hshut w
    · exact .inl ⟨f, by rw [hf]; rfl, hharm⟩
    · exact .inr ⟨s', [], by rw [hok]; rfl, hharm, hs', by simp, hpush, fun h => hread.trans h,
        .inl rfl⟩
  | resumeResponse =>
    simp only [serveMove, Option.ite_none_right_eq_some, Option.some.injEq] at h
    obtain ⟨hresume, rfl⟩ := h
    cases hfreed : s.isFreed with
    -- the timer has outlived the stream
    | true => exact .inl ⟨.useAfterFree, by simp [resumeResponse, hfreed, Except.map],
        by simp [Harmless, hfreed]⟩
    | false =>
      refine .inr ⟨{ s with wantWrite := true, resumeResp := false }, [],
        by simp [resumeResponse, hfreed, Except.map], hfreed, ?_, by simp, rfl, id, .inl rfl⟩
      cases hs with
      | collecting hs =>
        rw [hs.resumeResp] at hresume
        cases hresume
      | opened hread h ha =>
        exact .opened hread ⟨h.reqPath, h.readerCtx, h.names, h.file, h.carries, h.handed, h.shut⟩
          ⟨ha.contentType, ha.ordered⟩
  | onClose =>
    simp only [serveMove] at h
    split at h
    · cases h
    · obtain rfl := Option.some.inj h
      refine .inr ⟨_, [], rfl, trivial, ?_, by simp, rfl, id, .inl rfl⟩
      cases hs with
      | collecting hs =>
        exact .collecting ⟨hs.readerCtx, hs.headersSent, hs.resumeResp, hs.wantWrite,
          hs.contentType, hs.handed, hs.isShutWrite⟩
      | opened hread h ha =>
        exact .opened hread ⟨h.reqPath, h.readerCtx, h.names, h.file, h.carries, h.handed, h.shut⟩
          ⟨ha.contentType, ha.ordered⟩

end ServeStream

/-! ## §7 Every run -/

theorem ok_newClient {lib : FileLib} {root request : List UInt8} {s : ServeStream lib}
    (h : newClient lib request = some s) : s.Ok HttpRequest root := by
  rw [← Option.some.inj h]
  exact ServeStream.ok_new lib none request

theorem allowed_any (es : List ServeEvent) :
    ∀ e ∈ es, e.Allowed (fun _ => True) fun _ : ServeCall => True := by
  intro e _
  cases e <;> trivial

/-- Streams collect their requests and send their files, in every interleaving. -/
theorem streams_along (lib : FileLib) (cfg : Settings) (es : List ServeEvent) :
    StatesAlong (serveStep lib cfg)
      (PoolOk (fun s => s.Ok HttpRequest cfg.documentRoot) fun _ => True) (.ok []) es := by
  refine poolOk_along (fun _ _ _ h => ok_newClient h) (fun s e r _ hs h => ?_) (by simp)
    (allowed_any es)
  obtain ⟨f, rfl, -⟩ | ⟨s', new, rfl, -, hs', hnew, -⟩ := hs.move h
  · exact .inl ⟨f, rfl, trivial⟩
  · exact .inr ⟨s', new, rfl, hs', hnew⟩

/-- **Every stream is served its file.** For every run of the server without `-P`, with any number
    of client and pushed streams, any interleaving of their callbacks, timers and closings, any
    cut of the requests and any reads of the files, with and without `-w` and `-y`: a stream
    carries headers for, and the bytes of, the file that its own request names. -/
theorem files_served (lib : FileLib) (cfg : Settings) (es : List ServeEvent) :
    StatesAlong (serveStep lib cfg)
      (PoolOk (fun s => s.Serves HttpRequest cfg.documentRoot) fun _ => True) (.ok []) es :=
  (streams_along lib cfg es).mono fun _ hx => hx.mono (fun _ hs => hs.serves) fun _ _ => trivial

/-- A page and its style sheet. -/
def sampleLib : FileLib :=
  .ofTable [(cstr "www//a.html", [1, 2, 3, 4, 5, 6]), (cstr "www/a.css", [7, 8])]

def sampleSettings : Settings := ⟨cstr "www", some (cstr "a.css"), 0, 0⟩

/-- A client asks for the page and is promised the style sheet; lsquic takes four bytes of the
    page, then the style sheet, then the rest of the page. -/
def pageRun : List ServeEvent :=
  [.start (cstr "GET /a.html HTTP/1.1\r\nHost: h\r\n\r\n"),
    .move 0 (.onRead ⟨some 9, false, false, false, ⟨[], false⟩⟩),
    .move 0 (.onRead ⟨some 24, false, false, false, ⟨[], false⟩⟩),
    .move 0 (.onRead ⟨some 0, false, true, false, ⟨[], false⟩⟩),
    .move 0 (.onWrite ⟨false, true, ⟨[], false⟩, false⟩),
    .move 0 (.onWrite ⟨false, false, ⟨[3, 1], false⟩, false⟩),
    .move 1 (.onRead ⟨none, true, false, false, ⟨[], false⟩⟩),
    .move 1 (.onWrite ⟨false, true, ⟨[], false⟩, false⟩),
    .move 1 (.onWrite ⟨false, false, ⟨[100], false⟩, false⟩),
    .move 0 (.onWrite ⟨false, false, ⟨[100], false⟩, false⟩), .move 1 .onClose, .move 0 .onClose]

/-- The run comes to its end, with both files sent. -/
theorem exists_exec_pageRun :
    ∃ ss, exec (serveStep sampleLib sampleSettings) (.ok []) pageRun = some (.ok ss) ∧
      ss.map ServeStream.handed = [[1, 2, 3, 4, 5, 6], [7, 8]] := by
  have hhanded : (exec (serveStep sampleLib sampleSettings) (.ok []) pageRun).map
      (fun x => x.toOption.map fun ss => ss.map ServeStream.handed) =
        some (some [[1, 2, 3, 4, 5, 6], [7, 8]]) := by
    decide +kernel
  obtain ⟨x, hx, hhanded⟩ := Option.map_eq_some_iff.mp hhanded
  cases x with
  | error f => cases hhanded
  | ok ss => exact ⟨ss, hx, by simpa [Except.toOption] using hhanded⟩

/-- Both streams of `pageRun` are served their files. -/
theorem files_served_pageRun :
    ∃ ss, exec (serveStep sampleLib sampleSettings) (.ok []) pageRun = some (.ok ss) ∧
      ss.map ServeStream.handed = [[1, 2, 3, 4, 5, 6], [7, 8]] ∧
        ∀ s ∈ ss, s.Serves HttpRequest (cstr "www") := by
  obtain ⟨ss, hss, hhanded⟩ := exists_exec_pageRun
  exact ⟨ss, hss, hhanded, (files_served sampleLib sampleSettings pageRun).last hss⟩

/-- **What ends the file server.** Without `-P`, the process survives a run exactly if every
    request that is completed can be parsed, names a file that can be opened and, where it is
    answered with a push, a host; headers and writes succeed, except for writes after a GOAWAY;
    and no delay ends for a stream that has been closed. -/
theorem server_stays_up_iff (lib : FileLib) (cfg : Settings) (es : List ServeEvent) :
    StatesAlong (serveStep lib cfg) Survives (.ok []) es ↔
      StepsAlong (serveStep lib cfg) (MoveMeets fun s => s.Harmless cfg) (.ok []) es := by
  have hsurvives : StatesAlong (serveStep lib cfg) Survives (.ok []) es ↔
      StatesAlong (serveStep lib cfg) (PoolOk (fun _ => True) fun _ => False) (.ok []) es :=
    ⟨fun h => h.mono fun x => (survives_iff_poolOk x).mp,
      fun h => h.mono fun x => (survives_iff_poolOk x).mpr⟩
  rw [hsurvives]
  refine poolOk_iff (I := fun s => s.Ok HttpRequest cfg.documentRoot)
    (fun _ _ h => ⟨ok_newClient h, trivial⟩) (fun s e r hs _ h => ?_) (by simp) (by simp) es
  obtain ⟨f, rfl, hharm⟩ | ⟨s', new, rfl, hharm, hs', hnew, -⟩ := hs.move h
  · exact ⟨iff_of_false id hharm, False.elim⟩
  · exact ⟨iff_of_true ⟨trivial, fun _ _ => trivial⟩ hharm, fun _ => ⟨hs', hnew⟩⟩

/-- Nothing in `pageRun` could have ended the process. -/
theorem server_stays_up_pageRun :
    StepsAlong (serveStep sampleLib sampleSettings) (MoveMeets fun s => s.Harmless sampleSettings)
      (.ok []) pageRun := by
  obtain ⟨ss, hss, -⟩ := exists_exec_pageRun
  exact (server_stays_up_iff sampleLib sampleSettings pageRun).mp (survives_along hss)

/-! ## §8 Pushes -/

/-- The pushed streams of the server. -/
structure PushesPaired (cfg : Settings) {lib : FileLib} (ss : List (ServeStream lib)) : Prop where
  /-- There is a client with a complete request for each of them. -/
  count : ss.countP (·.push.isSome) ≤ ss.countP fun s => s.push.isNone && s.isShutRead
  /-- Each is for the push path, with the host that some client's request names. -/
  origin : ∀ s ∈ ss, ∀ push, s.push = some push → cfg.pushPath = some push.path ∧
    ∃ c ∈ ss, c.push = none ∧ hostOf (c.reqBuf ++ c.unread) = some push.authority

/-- A request is answered with a push. -/
def Pushes (cfg : Settings) (l l' : Option Push × List UInt8) : Prop :=
  l.1 = none ∧ ∃ push, l' = (some push, []) ∧ cfg.pushPath = some push.path ∧
    hostOf l.2 = some push.authority

namespace ServeStream

variable {lib : FileLib} {cfg : Settings} {s s' : ServeStream lib} {new : List (ServeStream lib)}

theorem Spawns.pushes (h : s.Spawns cfg s' new) :
    s'.origin = s.origin ∧ ∀ n ∈ new, Pushes cfg s.origin n.origin := by
  refine ⟨h.origin, fun n hn => ?_⟩
  obtain rfl | ⟨hclient, -, -, pushed, rfl | ⟨pushPath, host, hpush, hhost, rfl⟩, rfl⟩ := h.new
  · cases hn
  · cases hn
  · obtain rfl := List.mem_singleton.mp hn
    exact ⟨hclient, ⟨pushPath, host⟩, rfl, hpush, hhost⟩

/-- A push is paid for with the request that it answers. -/
theorem Spawns.paid (h : s.Spawns cfg s' new) :
    s'.push.isSome.toNat + (new.map fun n => n.push.isSome.toNat).sum +
        (s.push.isNone && s.isShutRead).toNat ≤
      s.push.isSome.toNat + ((s'.push.isNone && s'.isShutRead).toNat +
        (new.map fun n => (n.push.isNone && n.isShutRead).toNat).sum) := by
  have hpush : s'.push = s.push := congrArg Prod.fst h.origin
  rw [hpush]
  have hkept : (s.push.isNone && s.isShutRead).toNat ≤ (s.push.isNone && s'.isShutRead).toNat := by
    have hread := h.isShutRead
    cases s.push.isNone <;> cases hshut : s.isShutRead <;> simp_all
  -- a push comes at the moment at which the request of its client becomes complete
  obtain rfl | ⟨hclient, hopen, hshut, pushed, rfl | ⟨pushPath, host, -, -, rfl⟩, rfl⟩ := h.new
  · simp only [List.map_nil, List.sum_nil]
    omega
  · simp only [List.map_nil, List.sum_nil]
    omega
  · simp [hclient, hopen, hshut, ServeStream.new]

end ServeStream

theorem countP_eq_sum {α : Type*} (p : α → Bool) (l : List α) :
    l.countP p = (l.map fun a => (p a).toNat).sum := by
  induction l with
  | nil => rfl
  | cons a l ih =>
    rw [List.countP_cons, List.map_cons, List.sum_cons, ih]
    cases p a <;> simp [Nat.add_comm]

/-- A pushed stream pushes nothing. -/
theorem eq_or_pushes {cfg : Settings} {l l' : Option Push × List UInt8} (hroot : l.1 = none)
    (h : Relation.ReflTransGen (Pushes cfg) l l') : l' = l ∨ Pushes cfg l l' := by
  induction h with
  | refl => exact .inl rfl
  | tail _ hstep ih =>
    obtain rfl | ⟨-, push, rfl, -⟩ := ih
    · exact .inr hstep
    · cases hstep.1

/-- **Pushes are paired with requests.** In every run without `-P` there are no more pushed
    streams than requests that clients have completed; a pushed stream pushes nothing; and
    each pushed stream is for the push path, with the host that the request of a client
    names. -/
theorem pushes_paired (lib : FileLib) (cfg : Settings) (es : List ServeEvent) :
    StatesAlong (serveStep lib cfg) (fun x => ∀ ss, x = .ok ss → PushesPaired cfg ss) (.ok [])
      es := by
  have hspawns : ∀ (s : ServeStream lib) e s' new, s.Ok HttpRequest cfg.documentRoot →
      serveMove cfg s e = some (.ok (s', new)) → s.Spawns cfg s' new := by
    intro s e s' new hs h
    obtain ⟨f, hf, -⟩ | ⟨s'', new', hok, -, -, -, hspawns⟩ := hs.move h
    · cases hf
    · obtain ⟨rfl, rfl⟩ := Prod.mk.inj (Except.ok.inj hok)
      exact hspawns
  have hpaid := within_along (f := fun s : ServeStream lib => s.push.isSome.toNat)
    (g := fun s : ServeStream lib => (s.push.isNone && s.isShutRead).toNat)
    (fun r s _ h => by
      rw [← Option.some.inj h]
      simp [ServeStream.new])
    (fun s e s' new _ hs h => (hspawns s e s' new hs h).paid) (streams_along lib cfg es) le_rfl
    (allowed_any es)
  have hdescends := descends_along (R := Pushes cfg)
    (fun r s _ h => by
      rw [← Option.some.inj h]
      rfl)
    (fun s e s' new _ hs h => (hspawns s e s' new hs h).pushes) (streams_along lib cfg es)
    (show Descends ServeStream.origin (fun l => l.1 = none) (Pushes cfg) (.ok []) by
      simp [Descends]) (allowed_any es)
  rw [statesAlong_iff_exec]
  rintro pre t hpre hexec ss rfl
  constructor
  · rw [countP_eq_sum, countP_eq_sum]
    exact statesAlong_iff_exec.mp hpaid pre _ hpre hexec
  · intro s hs push hpush
    obtain ⟨c, hc, hroot, hdesc⟩ := statesAlong_iff_exec.mp hdescends pre _ hpre hexec s hs
    obtain hsame | ⟨-, push', hpush', hpath, hhost⟩ := eq_or_pushes hroot hdesc
    · have hnone : s.push = c.push := congrArg Prod.fst hsame
      rw [hpush, show c.push = none from hroot] at hnone
      cases hnone
    · have hsome : s.push = some push' := congrArg Prod.fst hpush'
      obtain rfl : push = push' := Option.some.inj (hpush.symm.trans hsome)
      exact ⟨hpath, c, hc, hroot, hhost⟩

/-- The style sheet of `pageRun` is pushed for its page. -/
theorem pushes_paired_pageRun :
    ∃ ss, exec (serveStep sampleLib sampleSettings) (.ok []) pageRun = some (.ok ss) ∧
      ss.length = 2 ∧ PushesPaired sampleSettings ss := by
  obtain ⟨ss, hss, hhanded⟩ := exists_exec_pageRun
  have hlength : ss.length = 2 := by
    rw [← List.length_map ServeStream.handed, hhanded]
    rfl
  exact ⟨ss, hss, hlength, (pushes_paired sampleLib sampleSettings pageRun).last hss ss rfl⟩

end Equic.Filesystem
