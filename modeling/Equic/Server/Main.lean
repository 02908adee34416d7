import Equic.User.Lifecycle

/-!
# The main functions

`main` of `equic.c`, `echo_server.c` and `http_server.c`, from the first eQUIC call to
`exit`. The command line is what `getopt` makes of it, a list of options; option values are
kept where `main` itself looks at them.
-/

namespace Equic.Server

open Equic.Foundation Equic.Kern Equic.User

/-- `main` of `equic.c`. -/
def equicMain : Program := equicSetup (.exit exitSuccess)

/-- From `prog_prep` to the end of a server's `main`. -/
def serve : Program :=
  .call .progPrep fun r =>
    if r.ret ≠ 0 then .exit exitFailure
    else .call .progRun fun r =>
      -- a stream callback that cannot go on exits by itself
      if r.out ≠ 0 then .exit r.out
      else .call .progCleanup fun _ =>
        .exit (if r.ret = 0 then exitSuccess else exitFailure)

/-! ## §1 `echo_server` -/

inductive EchoOpt where
  | n
  | h
  | other (opt : Char) (arg : String)
  deriving DecidableEq, Repr

/-- The option loop of `echo_server.c`. -/
def echoOptions : List EchoOpt → Program
  | [] => serve
  | .n :: opts => echoOptions opts
  -- prints the usage
  | .h :: _ => .exit 0
  | .other opt arg :: opts =>
    .call (.progSetOpt opt arg) fun r => if r.ret ≠ 0 then .exit 1 else echoOptions opts

/-- `main` of `echo_server.c`: eQUIC comes before the options. -/
def echoMain (opts : List EchoOpt) : Program := equicSetup (echoOptions opts)

/-! ## §2 `http_server` -/

inductive HttpOpt where
  | e
  | n
  | p
  | r (path : String)
  /-- `s_immediate_write = atoi(optarg)` -/
  | w (immediateWrite : ℤ)
  /-- `s_pwritev = strtoull(optarg, NULL, 10)` -/
  | P (pwritev : ℕ)
  | y
  | h
  | Q (alpn : String)
  | other (opt : Char) (arg : String)
  deriving DecidableEq, Repr

/-- What the options leave for the rest of `main`. -/
structure HttpArgs where
  documentRoot : Option String
  immediateWrite : ℤ
  pwritev : ℕ

/-- The loop over `lsquic_get_h3_alpns`. -/
def addAlpns : List String → Program
  | [] => serve
  | alpn :: alpns =>
    .call (.addAlpn alpn) fun r => if r.ret = 0 then addAlpns alpns else .exit exitFailure

/-- `main` of `http_server.c` after the options. Without a document root the server starts
    in interop mode, and goes on all the same. -/
def httpStart (h3Alpns : List String) (args : HttpArgs) : Program :=
  if args.immediateWrite ≠ 0 ∧ args.pwritev ≠ 0 then .exit exitFailure else addAlpns h3Alpns

/-- The option loop of `http_server.c`. -/
def httpOptions (h3Alpns : List String) : List HttpOpt → HttpArgs → Program
  | [], args => httpStart h3Alpns args
  -- without this option the server never touches the interface
  | .e :: opts, args => equicSetup (httpOptions h3Alpns opts args)
  | .n :: opts, args => httpOptions h3Alpns opts args
  | .p :: opts, args => httpOptions h3Alpns opts args
  | .r path :: opts, args =>
    .call (.stat path) fun r =>
      if r.ret = -1 then .exit 2
      -- the out value is `S_ISDIR(st.st_mode)`
      else if r.out = 0 then .exit 2
      else httpOptions h3Alpns opts { args with documentRoot := some path }
  | .w immediateWrite :: opts, args =>
    httpOptions h3Alpns opts { args with immediateWrite := immediateWrite }
  | .P pwritev :: opts, args => httpOptions h3Alpns opts { args with pwritev := pwritev }
  | .y :: opts, args => httpOptions h3Alpns opts args
  | .h :: _, _ => .exit 0
  -- the result of `add_alpn` is ignored here
  | .Q alpn :: opts, args => .call (.addAlpn alpn) fun _ => httpOptions h3Alpns opts args
  | .other opt arg :: opts, args =>
    .call (.progSetOpt opt arg) fun r =>
      if r.ret ≠ 0 then .exit 1 else httpOptions h3Alpns opts args

/-- `main` of `http_server.c`. -/
def httpMain (h3Alpns : List String) (opts : List HttpOpt) : Program :=
  httpOptions h3Alpns opts ⟨none, 0, 0⟩

/-! ## §3 The binaries -/

/-- The three programs that use `equic_user.c`, with their command lines. -/
inductive Binary where
  | equic
  | echoServer (opts : List EchoOpt)
  | httpServer (h3Alpns : List String) (opts : List HttpOpt)

def Binary.main : Binary → Program
  | .equic => equicMain
  | .echoServer opts => echoMain opts
  | .httpServer h3Alpns opts => httpMain h3Alpns opts

/-- The threads at the start. `main` of `http_server.c` creates `request_counter` before it
    looks at the options, and blocks no signal in it; its loop makes no call that matters
    here. The other programs have one thread. -/
def Binary.threads (b : Binary) : ThreadId → Option (Thread Call Reply Store Signal Globals)
  | .main => some ⟨b.main, []⟩
  | .requestCounter =>
    match b with
    | .httpServer _ _ => some ⟨.idle, []⟩
    | _ => none

/-- The process at its start, with the slot as it finds it. -/
def Binary.start (b : Binary) (slot : XdpSlot) : EquicProcess where
  world := slot
  globals := ⟨0, 0⟩
  installed := []
  ended := none
  threads := b.threads

end Equic.Server
