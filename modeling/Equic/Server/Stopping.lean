import Equic.Echo.Connections
import Equic.Server.System
import Mathlib.Data.Nat.ModEq
import Mathlib.Logic.Function.Iterate

/-!
# When the servers stop

The option `-n` stops a server after a number of connections, and a program that cools down
stops with its last connection. The HTTP server counts connections up in two variables of type
`unsigned`, of which one also goes down; the echo server counts one `int` down to zero. Here
the counts are compared with what happened in the run (`stopped_iff`), and the two servers with
each other (`stop_alike`).

`PROG_FLAG_COOLDOWN` is set by the program around the server, at any time.
-/

namespace Equic.Server

open Equic.Foundation Equic.Net Equic.Kern Equic.User Equic.Echo

/-! ## §1 Runs -/

/-- What happens to the server: lsquic calls it, or the program is told to cool down. -/
inductive StopEvent where
  | lsquic (e : Event)
  | cooldown
  deriving DecidableEq

/-- One event. -/
def stopStep (s : System) : StopEvent → Option System
  | .lsquic e => step s e
  | .cooldown => some { s with server := { s.server with cooldown := true } }

/-- The event opens a connection. -/
def StopEvent.opens : StopEvent → Bool
  | .lsquic (.newConn ..) => true
  | _ => false

/-- The event closes a connection. -/
def StopEvent.closes : StopEvent → Bool
  | .lsquic (.connClosed ..) => true
  | _ => false

/-- How many connections were opened. -/
def opened (es : List StopEvent) : ℕ := es.countP StopEvent.opens

/-- How many connections were closed. -/
def closed (es : List StopEvent) : ℕ := es.countP StopEvent.closes

/-- The number of connections that `-n` allows is used up. -/
def Exhausted (cfg : Config) (es : List StopEvent) : Prop :=
  0 < cfg.maxConn ∧ cfg.maxConn.toNat ≤ closed es

/-- A connection was closed while the program cooled down, and none was left, as far as an
    `unsigned` can tell. -/
def Drained (cfg : Config) (es : List StopEvent) : Prop :=
  ∃ pre e, pre ++ [e] <+: es ∧ e.closes = true ∧ (cfg.cooldown = true ∨ .cooldown ∈ pre) ∧
    opened (pre ++ [e]) ≡ closed (pre ++ [e]) [MOD 2 ^ 32]

theorem opened_snoc (es : List StopEvent) (e : StopEvent) :
    opened (es ++ [e]) = opened es + e.opens.toNat := by
  rw [opened, List.countP_append, List.countP_singleton]
  cases e.opens <;> rfl

theorem closed_snoc (es : List StopEvent) (e : StopEvent) :
    closed (es ++ [e]) = closed es + e.closes.toNat := by
  rw [closed, List.countP_append, List.countP_singleton]
  cases e.closes <;> rfl

/-- The last event drains the server, or one before it did. -/
theorem drained_snoc_iff {cfg : Config} {es : List StopEvent} {e : StopEvent} :
    Drained cfg (es ++ [e]) ↔ Drained cfg es ∨
      e.closes = true ∧ (cfg.cooldown = true ∨ .cooldown ∈ es) ∧
        opened (es ++ [e]) ≡ closed (es ++ [e]) [MOD 2 ^ 32] := by
  constructor
  · rintro ⟨pre, e', hpre, hcloses, hcool, hnone⟩
    obtain heq | hpre := List.prefix_concat_iff.mp hpre
    · obtain ⟨rfl, hlast⟩ := List.append_inj' heq rfl
      obtain rfl := List.singleton_inj.mp hlast
      exact .inr ⟨hcloses, hcool, hnone⟩
    · exact .inl ⟨pre, e', hpre, hcloses, hcool, hnone⟩
  · rintro (⟨pre, e', hpre, hdrained⟩ | hlast)
    · exact ⟨pre, e', hpre.trans (List.prefix_append _ _), hdrained⟩
    · exact ⟨es, e, List.prefix_rfl, hlast⟩

theorem drained_snoc_iff_of_not_closes {cfg : Config} {es : List StopEvent} {e : StopEvent}
    (he : e.closes = false) : Drained cfg (es ++ [e]) ↔ Drained cfg es := by
  rw [drained_snoc_iff, he]
  simp

theorem exhausted_snoc_iff_of_not_closes {cfg : Config} {es : List StopEvent} {e : StopEvent}
    (he : e.closes = false) : Exhausted cfg (es ++ [e]) ↔ Exhausted cfg es := by
  rw [Exhausted, closed_snoc, he]
  rfl

/-! ## §2 The counts of the HTTP server -/

/-- What a close does to the counts, spelled out. -/
theorem countClosed_spec (s : HttpServer) :
    (countClosed s).ctx.maxConn = s.ctx.maxConn ∧
    (countClosed s).cooldown = s.cooldown ∧
    (countClosed s).ctx.nCurrentConns = s.ctx.nCurrentConns - 1 ∧
    (countClosed s).ctx.nConn = (if s.ctx.maxConn > 0 then s.ctx.nConn + 1 else s.ctx.nConn) ∧
    ((countClosed s).stopped = true ↔ s.stopped = true ∨
      (s.cooldown = true ∧ s.ctx.nCurrentConns - 1 = 0) ∨
      (s.ctx.maxConn > 0 ∧ s.ctx.nConn + 1 ≥ s.ctx.maxConn)) := by
  unfold countClosed stopOnce
  dsimp only
  split_ifs <;> simp_all

/-- The counts of the server against the events so far. -/
structure CountsOf (cfg : Config) (es : List StopEvent) (s : HttpServer) : Prop where
  maxConn : s.ctx.maxConn = cfg.maxConn
  cooldown : s.cooldown = true ↔ cfg.cooldown = true ∨ .cooldown ∈ es
  nConn : 0 < cfg.maxConn → s.ctx.nConn = UInt32.ofNat (closed es)
  nCurrentConns : s.ctx.nCurrentConns + UInt32.ofNat (closed es) = UInt32.ofNat (opened es)
  stopped : s.stopped = true ↔ Exhausted cfg es ∨ Drained cfg es

theorem countsOf_initial (cfg : Config) : CountsOf cfg [] (System.initial cfg).server where
  maxConn := rfl
  cooldown := by simp [System.initial]
  nConn _ := rfl
  nCurrentConns := rfl
  stopped := by
    apply iff_of_false Bool.false_ne_true
    rintro (⟨hmax, hle⟩ | ⟨pre, e, hpre, -⟩)
    · have hpos := UInt32.lt_iff_toNat_lt.mp hmax
      simp only [closed, List.countP_nil] at hle
      omega
    · simp at hpre

/-- An open callback counts one connection more, admitted or not, and nothing else. -/
theorem httpServerOnNewConn_counts (fault : Bool) (now : Timespec) (s : HttpServer)
    (conn : ConnId) (peer : Sockaddr) :
    let s' := (httpServerOnNewConn fault now s conn peer).server
    s'.ctx.maxConn = s.ctx.maxConn ∧ s'.cooldown = s.cooldown ∧ s'.ctx.nConn = s.ctx.nConn ∧
      s'.ctx.nCurrentConns = s.ctx.nCurrentConns + 1 ∧ s'.stopped = s.stopped := by
  unfold httpServerOnNewConn incRequestCounter
  dsimp only
  split_ifs <;> exact ⟨rfl, rfl, rfl, rfl, rfl⟩

/-- The quota part of a close callback leaves the counts alone. -/
theorem httpServerOnConnClosed_counts (fault : Bool) (now : Timespec) (s : HttpServer)
    (peer : Sockaddr) :
    let s' := (httpServerOnConnClosed fault now s peer).1
    s'.ctx.maxConn = (countClosed s).ctx.maxConn ∧ s'.cooldown = (countClosed s).cooldown ∧
      s'.ctx.nConn = (countClosed s).ctx.nConn ∧
      s'.ctx.nCurrentConns = (countClosed s).ctx.nCurrentConns ∧
      s'.stopped = (countClosed s).stopped := by
  unfold httpServerOnConnClosed
  dsimp only
  split_ifs <;> exact ⟨rfl, rfl, rfl, rfl, rfl⟩

/-- An event that closes nothing keeps the counts if it counts what it opens. -/
theorem CountsOf.of_not_closes {cfg : Config} {es : List StopEvent} {e : StopEvent}
    {s s' : HttpServer} (h : CountsOf cfg es s) (he : e.closes = false)
    (hmaxConn : s'.ctx.maxConn = s.ctx.maxConn)
    (hcooldown : s'.cooldown = true ↔ s.cooldown = true ∨ e = .cooldown)
    (hnConn : s'.ctx.nConn = s.ctx.nConn)
    (hcurrent : s'.ctx.nCurrentConns = s.ctx.nCurrentConns + UInt32.ofNat e.opens.toNat)
    (hstopped : s'.stopped = s.stopped) : CountsOf cfg (es ++ [e]) s' where
  maxConn := hmaxConn.trans h.maxConn
  cooldown := by
    rw [hcooldown, h.cooldown, List.mem_append, List.mem_singleton, or_assoc, eq_comm (a := e)]
  nConn hpos := by rw [hnConn, h.nConn hpos, closed_snoc, he]; rfl
  nCurrentConns := by
    rw [hcurrent, opened_snoc, closed_snoc, he, UInt32.ofNat_add (opened es), ← h.nCurrentConns,
      UInt32.add_assoc, UInt32.add_assoc, UInt32.add_comm (UInt32.ofNat _)]
    rfl
  stopped := by
    rw [hstopped, h.stopped, exhausted_snoc_iff_of_not_closes he, drained_snoc_iff_of_not_closes he]

/-- No connection is left exactly if the difference of the counts is zero. -/
theorem eq_zero_iff_modEq {current : UInt32} {c o : ℕ}
    (h : current + UInt32.ofNat c = UInt32.ofNat o) : current = 0 ↔ o ≡ c [MOD 2 ^ 32] := by
  have hmod : o ≡ c [MOD 2 ^ 32] ↔ UInt32.ofNat o = UInt32.ofNat c := by
    rw [Nat.ModEq, UInt32.ofNat_eq_iff_mod_eq_toNat, UInt32.toNat_ofNat']
  rw [hmod, ← h]
  constructor
  · rintro rfl
    exact UInt32.zero_add _
  · exact fun heq => UInt32.add_eq_right.mp heq

/-- A close uses up the allowed number exactly if the counter says so, or it was used up. -/
theorem exhausted_snoc_iff {cfg : Config} {es : List StopEvent} {e : StopEvent}
    (he : e.closes = true) : Exhausted cfg (es ++ [e]) ↔ Exhausted cfg es ∨
      (cfg.maxConn > 0 ∧ UInt32.ofNat (closed es) + 1 ≥ cfg.maxConn) := by
  have hlt := cfg.maxConn.toNat_lt
  have hone : UInt32.ofNat (closed es) + 1 = UInt32.ofNat (closed es + 1) :=
    (UInt32.ofNat_add _ 1).symm
  rw [Exhausted, Exhausted, closed_snoc, he, hone, ge_iff_le, UInt32.le_iff_toNat_le,
    UInt32.toNat_ofNat']
  simp only [Bool.toNat_true, gt_iff_lt]
  constructor
  · rintro ⟨hpos, hle⟩
    by_cases hbefore : cfg.maxConn.toNat ≤ closed es
    · exact .inl ⟨hpos, hbefore⟩
    · -- the counter has not wrapped yet
      refine .inr ⟨hpos, ?_⟩
      rw [Nat.mod_eq_of_lt (by omega)]
      exact hle
  · rintro (⟨hpos, hle⟩ | ⟨hpos, hle⟩)
    · exact ⟨hpos, by omega⟩
    · exact ⟨hpos, hle.trans (Nat.mod_le _ _)⟩

/-- A close keeps the counts. -/
theorem CountsOf.close {cfg : Config} {es : List StopEvent} {s : HttpServer}
    (h : CountsOf cfg es s) (c : ConnId) (fault : Bool) (now : Timespec) (peer : Sockaddr) :
    CountsOf cfg (es ++ [.lsquic (.connClosed c fault now)])
      (httpServerOnConnClosed fault now s peer).1 := by
  obtain ⟨hmaxConn, hcooldown, hnConn, hcurrent, hstopped⟩ :=
    httpServerOnConnClosed_counts fault now s peer
  obtain ⟨hmaxConn', hcooldown', hcurrent', hnConn', hstopped'⟩ := countClosed_spec s
  have hleft : s.ctx.nCurrentConns - 1 + UInt32.ofNat (closed es + 1) =
      UInt32.ofNat (opened es) := by
    rw [← h.nCurrentConns, Nat.add_comm, UInt32.ofNat_add, ← UInt32.add_assoc]
    exact congrArg (· + UInt32.ofNat (closed es)) (UInt32.sub_add_cancel _ 1)
  have hopened : opened (es ++ [.lsquic (.connClosed c fault now)]) = opened es :=
    opened_snoc _ _
  have hclosed : closed (es ++ [.lsquic (.connClosed c fault now)]) = closed es + 1 :=
    closed_snoc _ _
  constructor
  · exact hmaxConn.trans (hmaxConn'.trans h.maxConn)
  · rw [hcooldown, hcooldown', h.cooldown]
    simp
  · intro hpos
    rw [hnConn, hnConn', h.maxConn, if_pos hpos, h.nConn hpos, hclosed, UInt32.ofNat_add]
    rfl
  · rw [hcurrent, hcurrent', hopened, hclosed]
    exact hleft
  · rw [hstopped, hstopped', h.stopped, exhausted_snoc_iff rfl, drained_snoc_iff, h.cooldown,
      eq_zero_iff_modEq hleft, h.maxConn, hopened, hclosed]
    have hcounter : cfg.maxConn > 0 ∧ s.ctx.nConn + 1 ≥ cfg.maxConn ↔
        cfg.maxConn > 0 ∧ UInt32.ofNat (closed es) + 1 ≥ cfg.maxConn :=
      and_congr_right fun hpos => by rw [h.nConn hpos]
    rw [hcounter]
    simp only [StopEvent.closes, true_and]
    exact (or_congr_right or_comm).trans or_or_or_comm

/-- One event. -/
theorem CountsOf.step {cfg : Config} {es : List StopEvent} {e : StopEvent} {s s' : System}
    (h : CountsOf cfg es s.server) (hstep : stopStep s e = some s') :
    CountsOf cfg (es ++ [e]) s'.server := by
  cases e with
  | cooldown =>
    obtain rfl := Option.some.inj hstep
    exact h.of_not_closes rfl rfl (by simp) rfl (UInt32.add_zero _).symm rfl
  | lsquic e =>
    obtain ⟨c, peer, fault, now, rfl, -, rfl⟩ | ⟨c, peer, r, rfl, -, rfl⟩ |
      ⟨c, fault, now, r, rfl, -, rfl⟩ := step_cases hstep
    · obtain ⟨hmaxConn, hcooldown, hnConn, hcurrent, hstopped⟩ :=
        httpServerOnNewConn_counts fault now s.server c (.inet peer)
      exact h.of_not_closes rfl hmaxConn (by simp [hcooldown]) hnConn hcurrent hstopped
    · exact h.of_not_closes rfl rfl (by simp) rfl (UInt32.add_zero _).symm rfl
    · exact h.close c fault now _

/-- A whole run. -/
theorem countsOf_exec {cfg : Config} {es : List StopEvent} {s : System}
    (h : exec stopStep (.initial cfg) es = some s) : CountsOf cfg es s.server := by
  refine exec_induction (P := fun es s => CountsOf cfg es s.server) (countsOf_initial cfg) ?_ h
  intro es s e s' _ hcounts hstep
  exact hcounts.step hstep

/-- **When the HTTP server stops.** In every run `prog_stop` has been called exactly if `-n` is
    given and that many connections have been closed, or one was closed during a cool down and
    left none open, as far as an `unsigned` can tell. -/
theorem stopped_iff (cfg : Config) (es : List StopEvent) (s : System)
    (h : exec stopStep (.initial cfg) es = some s) :
    s.server.stopped = true ↔ Exhausted cfg es ∨ Drained cfg es :=
  (countsOf_exec h).stopped

/-- One connection, of one that is allowed. -/
def oneConnection : List StopEvent :=
  [.lsquic (.newConn 0 ⟨4433, ⟨10, 0, 0, 1⟩⟩ false ⟨1, 0⟩),
    .lsquic (.connClosed 0 false ⟨2, 0⟩)]

theorem stopped_iff_oneConnection :
    ∃ s, exec stopStep (.initial ⟨false, 1, false⟩) oneConnection = some s ∧
      (s.server.stopped = true ↔
        Exhausted ⟨false, 1, false⟩ oneConnection ∨ Drained ⟨false, 1, false⟩ oneConnection) :=
  ⟨_, rfl, stopped_iff _ _ _ rfl⟩

/-! ## §3 The echo server -/

/-- The echo server stops with the connection that takes its count to zero. -/
theorem countDown_iterate (k : ℕ) (server : EchoServer) :
    (countDown^[k] server).stops = server.stops +
      if 0 < server.nConn.toNat ∧ server.nConn.toNat ≤ k then 1 else 0 := by
  induction k generalizing server with
  | zero =>
    rw [Function.iterate_zero_apply, if_neg (by omega), Nat.add_zero]
  | succ k ih =>
    rw [Function.iterate_succ_apply, ih]
    by_cases hzero : server.nConn = 0#32
    · rw [countDown, if_neg (not_not.mpr hzero), hzero]
      rfl
    · have hpos : 0 < server.nConn.toNat :=
        Nat.pos_of_ne_zero fun h => hzero (BitVec.eq_of_toNat_eq h)
      have hsub : (server.nConn - 1#32).toNat = server.nConn.toNat - 1 := by
        have hle : 1#32 ≤ server.nConn := BitVec.le_def.mpr hpos
        rw [BitVec.toNat_sub_of_le hle]
        rfl
      have hlast : server.nConn - 1#32 = 0#32 ↔ server.nConn.toNat = 1 := by
        rw [← BitVec.toNat_inj, hsub, BitVec.toNat_zero]
        omega
      rw [countDown, if_pos hzero]
      dsimp only
      rw [hsub, if_congr hlast rfl rfl]
      split_ifs <;> omega

/-- **The two servers stop alike.** Started with the same number for `-n`, and not told to cool
    down, the HTTP server has called `prog_stop` in a run exactly if the echo server has called
    it after as many closed connections, and that server then has called it once. -/
theorem stop_alike (cfg : Config) (echo : EchoServer) (es : List StopEvent) (s : System)
    (hcfg : cfg.cooldown = false) (hes : .cooldown ∉ es) (hn : echo.nConn = cfg.maxConn.toBitVec)
    (hstops : echo.stops = 0) (h : exec stopStep (.initial cfg) es = some s) :
    (countDown^[closed es] echo).stops = s.server.stopped.toNat := by
  have hcounts := (countsOf_exec h).stopped
  have hdrained : ¬ Drained cfg es := by
    rintro ⟨pre, e, hpre, -, hcool | hcool, -⟩
    · rw [hcfg] at hcool
      cases hcool
    · exact hes (hpre.subset (List.mem_append_left _ hcool))
  have hexhausted : 0 < echo.nConn.toNat ∧ echo.nConn.toNat ≤ closed es ↔ Exhausted cfg es := by
    rw [hn, Exhausted, UInt32.lt_iff_toNat_lt]
    rfl
  rw [countDown_iterate, hstops, Nat.zero_add]
  cases hstopped : s.server.stopped with
  | false =>
    rw [hstopped] at hcounts
    rw [if_neg fun hex => Bool.false_ne_true (hcounts.mpr (.inl (hexhausted.mp hex)))]
    rfl
  | true =>
    rw [if_pos (hexhausted.mpr ((hcounts.mp hstopped).resolve_right hdrained))]
    rfl

theorem stop_alike_oneConnection :
    ∃ s, exec stopStep (.initial ⟨false, 1, false⟩) oneConnection = some s ∧
      (countDown^[closed oneConnection] ⟨[], 1#32, BoundedMap.empty, 0⟩).stops =
        s.server.stopped.toNat :=
  ⟨_, rfl, stop_alike ⟨false, 1, false⟩ ⟨[], 1#32, BoundedMap.empty, 0⟩ oneConnection _ rfl
    (by decide) rfl rfl rfl⟩

end Equic.Server
