import Equic.Foundation.Decimal
import Equic.Interop.Idle
import Equic.Interop.Routes

/-!
# Requests in the interop mode

The first `http_server_interop_on_read` of a stream fetches the header set, looks up the
route and prepares the response. What goes wrong is answered with an error response.
-/

namespace Equic.Interop

open Equic.Foundation

/-! ## §1 Streams -/

/-- `struct resp` -/
structure Resp where
  buf : List UInt8
  sz : ℕ
  off : ℕ
  deriving DecidableEq, Repr

/-- The member of `interop_u` that is in use. -/
inductive InteropU where
  | unset
  | ihc (resp : Resp)
  | vhc (resp : Resp)
  | md5c (isDone : Bool)
  | gfc (ctx : GenFileCtx)
  | err (resp : Resp)
  deriving DecidableEq, Repr

/-- The fields of `struct lsquic_stream_ctx` that the interop callbacks use, and what the
    stream was told. -/
structure InteropStream where
  /-- `SH_HEADERS_READ` -/
  headersRead : Bool
  interopHandler : InteropHandler
  req : Option Req
  respStatus : Option String
  interopU : InteropU
  /-- `lsquic_stream_shutdown(stream, 0)` was called. -/
  isShut : Bool
  /-- `lsquic_stream_wantwrite(stream, 1)` was called. -/
  wantWrite : Bool
  deriving DecidableEq, Repr

/-- `http_server_on_new_stream`: the context comes from `calloc`. -/
def InteropStream.new : InteropStream where
  headersRead := false
  interopHandler := .error
  req := none
  respStatus := none
  interopU := .unset
  isShut := false
  wantWrite := false

/-! ## §2 Responses -/

/-- `INDEX_HTML` -/
def indexHtml : List UInt8 := cstr "<html>
   <head>
       <title>LiteSpeed IETF QUIC Server Index Page</title>
   </head>
   <body>
       <h1>LiteSpeed IETF QUIC Server Index Page</h1>
       <p>Hello!  Welcome to the interop.  Available services:
       <ul>
           <li><b>POST to /cgi-bin/md5sum.cgi</b>.  This will return
                   MD5 checksum of the request body.
           <li><b>GET /123K</b> or <b>GET /file-123K</b>.  This will return
                   requested number of payload in the form of repeating text
                   by Jerome K. Jerome.  The size specification must match
                   (\\d+)[KMG]? and the total size request must not exceed
                   2 gigabytes.  Then, you will get back that many bytes
                   of the <a
                       href=http://www.gutenberg.org/cache/epub/849/pg849.txt
                                                       >beloved classic</a>.
       </ul>
   </body>
</html>
"

/-- The lines behind the label `err`. -/
def InteropStream.reply (st : InteropStream) : InteropStream :=
  { st with isShut := true, wantWrite := true }

/-- `ERROR_RESP`; `text` is what `snprintf` has to print into `err.buf`. -/
def InteropStream.errorResp (st : InteropStream) (code : String) (text : List UInt8) :
    InteropStream :=
  let st := { st with
    interopHandler := .error
    respStatus := some code
    interopU := .err {
      buf := text.take 255
      sz := if text.length ≥ 256 then 255 else text.length
      off := 0 } }
  st.reply

/-- A string argument of `%s`. -/
def strArg (s : Option (List UInt8)) : List UInt8 := s.getD (cstr "(null)")

/-- A `size_t` argument of `%zd`. -/
def zdArg (n : ℕ) : List UInt8 := cstr (toString (if n < 2 ^ 63 then (n : ℤ) else n - 2 ^ 64))

/-! ## §3 Generated files -/

/-- `rm_so`, for a group that takes part in the match. -/
def rmSo (m : ℕ → Option (ℕ × ℕ)) (i : ℕ) : ℕ := ((m i).map Prod.fst).getD 0

/-- `remain <<= k` -/
def shiftLeft (remain k : ℕ) : ℕ := remain <<< k % 2 ^ 64

/-- The size that a request asks for, as it is computed. -/
def requestedSize (path : List UInt8) (m : ℕ → Option (ℕ × ℕ)) : ℕ :=
  -- a `long` becomes a `size_t`
  let remain := (strtol (path.drop (rmSo m 1)) % 2 ^ 64).toNat
  match m 2 with
  | some (so, eo) =>
    if so < eo then
      match path[so]? with
      | some 71 | some 103 => shiftLeft remain 30
      | some 77 | some 109 => shiftLeft remain 20
      | some 75 | some 107 => shiftLeft remain 10
      | _ => remain
    else remain
  | none => remain

/-- The groups from `i` on, up to the first that takes no part in the match. -/
def pushPathsFrom (path : List UInt8) (m : ℕ → Option (ℕ × ℕ)) : List ℕ → List (List UInt8)
  | [] => []
  | i :: is =>
    match m i with
    | some (so, eo) => (path.drop so).take (eo - so) :: pushPathsFrom path m is
    | none => []

/-- `2 * (1u << 30)` -/
def sizeLimit : ℕ := 2 * (1 <<< 30 % 2 ^ 32) % 2 ^ 32

/-! ## §4 The callback -/

/-- The `switch` over the handler of the route. -/
def InteropStream.prepare (st : InteropStream) (req : Req) (path : List UInt8) (map : ReqMap)
    (m : ℕ → Option (ℕ × ℕ)) : InteropStream :=
  let st := { st with respStatus := some map.status, interopHandler := map.handler }
  let respond (u : InteropU) : InteropStream :=
    let st := { st with interopU := u }
    if map.wantBody then st else st.reply
  match map.handler with
  | .indexHtml => respond (.ihc { buf := indexHtml, sz := indexHtml.length, off := 0 })
  | .verHead => respond (.vhc { buf := req.qifStr, sz := req.qifSz, off := 0 })
  | .md5sum => respond (.md5c false)
  | .genFile =>
    let remain := requestedSize path m
    if remain > sizeLimit then
      st.errorResp "406" (cstr "Response of " ++ zdArg remain ++
        cstr " bytes is too long to generate")
    else respond (.gfc {
      pushPaths := pushPathsFrom path m [3, 4, 5]
      remain := remain
      idleOff := 0 })
  -- `assert(0)`; the table has no such route
  | .error | .echo => respond st.interopU

/-- `http_server_interop_on_read`, when the headers are not read yet; `hset` is what
    `lsquic_stream_get_hset` returns. -/
def interopOnReadHeaders (maps : List ReqMap) (hset : Option Req) (st : InteropStream) :
    InteropStream :=
  let st := { st with headersRead := true, req := hset }
  match hset with
  | none => st.errorResp "500" (cstr "Internal error: cannot fetch header set from stream")
  | some req =>
    if req.method = .unset then st.errorResp "400" (cstr "Method is not specified")
    else
      match req.path with
      | none => st.errorResp "400" (cstr "Path is not specified")
      | some path =>
        if req.method = .unsupported then
          st.errorResp "501" (cstr "Method " ++ strArg req.methodStr ++ cstr " is not supported")
        else
          match findHandler maps req.method path with
          | none =>
            st.errorResp "404" (cstr "No handler found for method: " ++ strArg req.methodStr ++
              cstr "; path: " ++ path)
          | some (map, m) => st.prepare req path map m

end Equic.Interop
