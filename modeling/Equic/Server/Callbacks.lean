import Equic.Server.Quota
import Equic.User.Counter

/-!
# Connection callbacks of the HTTP server

`http_server_on_new_conn` and `http_server_on_conn_closed`. What the callbacks obtain from
their surroundings is an argument: the peer address that `lsquic_conn_get_sockaddr`
reports, the clock, and whether the kernel refuses the map update of this call.
-/

namespace Equic.Server

open Equic.Foundation Equic.Net Equic.Kern Equic.User

/-! ## §1 State of the server -/

/-- `struct timespec`. -/
structure Timespec where
  tvSec : ℤ
  tvNsec : ℤ
  deriving DecidableEq, Repr

/-- Nanoseconds since the epoch of the clock. The source computes them in `double`, which is
    exact up to 2^53, a hundred days after the start of `CLOCK_MONOTONIC`. -/
def Timespec.inNs (t : Timespec) : ℤ := t.tvSec * 10 ^ 9 + t.tvNsec

/-- A connection handle, `lsquic_conn_t *`. -/
abbrev ConnId := ℕ

/-- `struct server_ctx`, the fields that the callbacks use. -/
structure ServerCtx where
  /-- The most recent connection. -/
  connH : Option ConnId
  maxConn : UInt32
  nConn : UInt32
  nCurrentConns : UInt32
  hasEBPF : Bool
  beginT : Timespec
  endT : Timespec

/-- The server process: its context, the map behind `server_ctx->equic`, and the globals
    of the translation unit. -/
structure HttpServer where
  ctx : ServerCtx
  counters : Counters
  quotas : Quotas
  requestsPerSecond : CInt
  /-- `prog_flags & PROG_FLAG_COOLDOWN` -/
  cooldown : Bool
  /-- `static int stopped`: set together with the one call of `prog_stop`. -/
  stopped : Bool

/-- What the callbacks print, as far as it is computed. -/
inductive LogLine where
  | counter (action : CounterAction)
  | quota (line : QuotaLine)
  | blockDuration (beginInNs endInNs : ℤ)
  | requestDuration (beginInNs endInNs : ℤ)
  deriving DecidableEq, Repr

/-! ## §2 `http_server_on_new_conn` -/

/-- `calculate_quota_block_time`: the line it prints. -/
def calculateQuotaBlockTime (begin_ end_ : Timespec) : LogLine :=
  .blockDuration begin_.inNs end_.inNs

/-- `inc_request_counter`. -/
def incRequestCounter (s : HttpServer) : HttpServer :=
  { s with requestsPerSecond := s.requestsPerSecond + 1#32 }

/-- What `http_server_on_new_conn` leaves behind. -/
structure NewConn where
  server : HttpServer
  /-- `lsquic_conn_close` was called on the connection. -/
  closing : Bool
  log : List LogLine

/-- `http_server_on_new_conn`. -/
def httpServerOnNewConn (fault : Bool) (now : Timespec) (s : HttpServer) (conn : ConnId)
    (peer : Sockaddr) : NewConn :=
  let s := { s with
    ctx := { s.ctx with connH := some conn, nCurrentConns := s.ctx.nCurrentConns + 1 } }
  if s.ctx.hasEBPF then
    let (counters, action) := equicIncCounter fault s.counters peer
    { server := incRequestCounter { s with counters := counters }
      closing := false
      log := [.counter action] }
  else
    let (reached, line) := reachedQuotaLimit s.quotas peer
    if reached then
      { server := s
        closing := true
        log := [.quota line, calculateQuotaBlockTime s.ctx.beginT now] }
    else
      let (quotas, line') := incQuota s.quotas peer
      { server := incRequestCounter { s with quotas := quotas }
        closing := false
        log := [.quota line, .quota line'] }

/-! ## §3 `http_server_on_conn_closed` -/

/-- `if (!stopped) { stopped = 1; prog_stop(...); }` -/
def stopOnce (s : HttpServer) : HttpServer := { s with stopped := true }

/-- The connection counts that `http_server_on_conn_closed` keeps before the quota part. -/
def countClosed (s : HttpServer) : HttpServer :=
  let s := { s with ctx := { s.ctx with nCurrentConns := s.ctx.nCurrentConns - 1 } }
  let s := if s.cooldown && s.ctx.nCurrentConns = 0 then stopOnce s else s
  if s.ctx.maxConn > 0 then
    let s := { s with ctx := { s.ctx with nConn := s.ctx.nConn + 1 } }
    if s.ctx.nConn ≥ s.ctx.maxConn then stopOnce s else s
  else s

/-- `elapsed_time_ms`: the line it prints. -/
def elapsedTimeMs (begin_ end_ : Timespec) : LogLine :=
  .requestDuration begin_.inNs end_.inNs

/-- `http_server_on_conn_closed`. -/
def httpServerOnConnClosed (fault : Bool) (now : Timespec) (s : HttpServer) (peer : Sockaddr) :
    HttpServer × List LogLine :=
  let s := countClosed s
  let (s, line) : HttpServer × LogLine :=
    if s.ctx.hasEBPF then
      let (counters, action) := equicDecCounter fault s.counters peer
      ({ s with counters := counters }, .counter action)
    else
      let (quotas, line) := decQuota s.quotas peer
      ({ s with quotas := quotas }, .quota line)
  let s := { s with ctx := { s.ctx with endT := now } }
  (s, [line, elapsedTimeMs s.ctx.beginT s.ctx.endT])

/-! ## §4 What the callbacks do to the counters

Each callback works on the counters of its mode and leaves those of the other mode, and
the mode itself, alone. -/

section Effects

variable (fault : Bool) (now : Timespec) (s : HttpServer) (conn : ConnId) (peer : Sockaddr)

@[simp] theorem countClosed_counters : (countClosed s).counters = s.counters := by
  unfold countClosed stopOnce
  dsimp only
  split_ifs <;> rfl

@[simp] theorem countClosed_quotas : (countClosed s).quotas = s.quotas := by
  unfold countClosed stopOnce
  dsimp only
  split_ifs <;> rfl

@[simp] theorem countClosed_hasEBPF : (countClosed s).ctx.hasEBPF = s.ctx.hasEBPF := by
  unfold countClosed stopOnce
  dsimp only
  split_ifs <;> rfl

@[simp] theorem httpServerOnNewConn_hasEBPF :
    (httpServerOnNewConn fault now s conn peer).server.ctx.hasEBPF = s.ctx.hasEBPF := by
  unfold httpServerOnNewConn incRequestCounter
  dsimp only
  split_ifs <;> rfl

@[simp] theorem httpServerOnConnClosed_hasEBPF :
    (httpServerOnConnClosed fault now s peer).1.ctx.hasEBPF = s.ctx.hasEBPF := by
  unfold httpServerOnConnClosed
  dsimp only
  split_ifs <;> simp

section Ebpf

variable {s} (h : s.ctx.hasEBPF = true)

include h

/-- eBPF mode: a new connection runs `equic_inc_counter`. -/
theorem httpServerOnNewConn_counters :
    (httpServerOnNewConn fault now s conn peer).server.counters =
      (equicIncCounter fault s.counters peer).1 := by
  simp [httpServerOnNewConn, h, incRequestCounter]

/-- eBPF mode: a closed connection runs `equic_dec_counter`. -/
theorem httpServerOnConnClosed_counters :
    (httpServerOnConnClosed fault now s peer).1.counters =
      (equicDecCounter fault s.counters peer).1 := by
  simp [httpServerOnConnClosed, h]

end Ebpf

section UserSpace

variable {s} (h : s.ctx.hasEBPF = false)

include h

/-- User-space mode: the connection is closed at once exactly if the quota is reached. -/
theorem httpServerOnNewConn_closing :
    (httpServerOnNewConn fault now s conn peer).closing = (reachedQuotaLimit s.quotas peer).1 := by
  cases hreached : (reachedQuotaLimit s.quotas peer).1 <;>
    simp [httpServerOnNewConn, h, hreached]

/-- User-space mode: an admitted connection runs `inc_quota`, a refused one changes nothing. -/
theorem httpServerOnNewConn_quotas :
    (httpServerOnNewConn fault now s conn peer).server.quotas =
      if (reachedQuotaLimit s.quotas peer).1 then s.quotas else (incQuota s.quotas peer).1 := by
  cases hreached : (reachedQuotaLimit s.quotas peer).1 <;>
    simp [httpServerOnNewConn, h, hreached, incRequestCounter]

/-- User-space mode: a closed connection runs `dec_quota`, admitted or not. -/
theorem httpServerOnConnClosed_quotas :
    (httpServerOnConnClosed fault now s peer).1.quotas = (decQuota s.quotas peer).1 := by
  simp [httpServerOnConnClosed, h]

end UserSpace

end Effects

end Equic.Server
