import Equic.Server.System

/-!
# Reported durations

`http_server_on_conn_closed` prints how long "the request" took, from the fields `begin_t`
and `end_t` of the one `server_ctx` that all connections share. It sets `end_t` right
before it prints; nothing sets `begin_t`, which stays what `main` cleared it to. So what
is printed is the clock reading at the close, for every connection alike.

To compare it with the age of the connection, the runs of this file are annotated with
the clock reading at the open of each connection.
-/

namespace Equic.Accounting

open Equic.Foundation Equic.Net Equic.Server

/-! ## §1 The shared begin time -/

/-- `begin_t` is what it was. -/
theorem httpServerOnNewConn_beginT (fault : Bool) (now : Timespec) (s : HttpServer)
    (conn : ConnId) (peer : Sockaddr) :
    (httpServerOnNewConn fault now s conn peer).server.ctx.beginT = s.ctx.beginT := by
  unfold httpServerOnNewConn incRequestCounter
  dsimp only
  split_ifs <;> rfl

theorem countClosed_beginT (s : HttpServer) : (countClosed s).ctx.beginT = s.ctx.beginT := by
  unfold countClosed stopOnce
  dsimp only
  split_ifs <;> rfl

theorem httpServerOnConnClosed_beginT (fault : Bool) (now : Timespec) (s : HttpServer)
    (peer : Sockaddr) :
    (httpServerOnConnClosed fault now s peer).1.ctx.beginT = s.ctx.beginT := by
  unfold httpServerOnConnClosed
  dsimp only
  split_ifs <;> exact countClosed_beginT s

/-- The value of `RequestDuration` in a log, in nanoseconds. -/
def requestDuration (log : List LogLine) : Option ℤ :=
  log.findSome? fun
    | .requestDuration beginInNs endInNs => some (endInNs - beginInNs)
    | _ => none

/-- What a close callback prints: the time since `begin_t`. -/
theorem requestDuration_connClosed (fault : Bool) (now : Timespec) (s : HttpServer)
    (peer : Sockaddr) :
    requestDuration (httpServerOnConnClosed fault now s peer).2 =
      some (now.inNs - s.ctx.beginT.inNs) := by
  unfold httpServerOnConnClosed
  dsimp only
  split_ifs <;> simp [requestDuration, elapsedTimeMs, countClosed_beginT]

/-! ## §2 Runs with the time of each open -/

/-- The clock reading at the open of each open connection. -/
abbrev OpenTimes := Table ConnId Timespec

/-- The record under one event. -/
def recordOpen (opened : OpenTimes) (_ : System) : Event → OpenTimes
  | .newConn c _ _ now => opened.insert c now
  | .migrate .. => opened
  | .connClosed c _ _ => opened.erase c

/-- The server, annotated with the times of its opens. -/
abbrev timedStep : System × OpenTimes → Event → Option (System × OpenTimes) :=
  annotate step recordOpen

/-- Taking the times down does not change what the server does. -/
theorem exec_timedStep (x : System × OpenTimes) (es : List Event) :
    (exec timedStep x es).map Prod.fst = exec step x.1 es := exec_annotate _ x es

/-- The clock reading of an event's callback. -/
def readingOf : Event → Option Timespec
  | .newConn _ _ _ now => some now
  | .migrate .. => none
  | .connClosed _ _ now => some now

/-- The clock never runs backwards. -/
def ClockNondecreasing (es : List Event) : Prop :=
  ((es.filterMap readingOf).map Timespec.inNs).Pairwise (· ≤ ·)

instance (es : List Event) : Decidable (ClockNondecreasing es) :=
  inferInstanceAs (Decidable (List.Pairwise _ _))

/-- A close callback prints the time between this connection's open and its close. -/
def DurationOfConn (x : System × OpenTimes) (e : Event) : Prop :=
  ∀ c fault now r, e = .connClosed c fault now → x.1.live.lookup c = some r →
    ∃ opened, x.2.lookup c = some opened ∧
      requestDuration (httpServerOnConnClosed fault now x.1.server (.inet r.peer)).2 =
        some (now.inNs - opened.inNs)

/-- The connection that closes was opened when the clock read zero. -/
def OpenedAtZero (x : System × OpenTimes) (e : Event) : Prop :=
  ∀ c fault now opened, e = .connClosed c fault now → x.2.lookup c = some opened →
    opened.inNs = 0

/-- `begin_t` is zero and every open connection has its open on record. -/
structure BeginUnset (x : System × OpenTimes) : Prop where
  beginT : x.1.server.ctx.beginT = ⟨0, 0⟩
  recorded : ∀ c r, x.1.live.lookup c = some r → ∃ opened, x.2.lookup c = some opened

theorem beginUnset_initial (cfg : Config) : BeginUnset (System.initial cfg, ∅) where
  beginT := rfl
  recorded c r hr := by cases hr

theorem beginUnset_step {x y : System × OpenTimes} {e : Event} (hx : BeginUnset x)
    (h : timedStep x e = some y) : BeginUnset y := by
  obtain ⟨s', opened'⟩ := y
  obtain ⟨hstep, heq⟩ := annotate_eq_some.mp h
  dsimp only at hstep heq
  subst heq
  obtain ⟨c, peer, fault, now, rfl, -, rfl⟩ | ⟨c, peer, r, rfl, hr, rfl⟩ |
    ⟨c, fault, now, r, rfl, -, rfl⟩ := step_cases hstep
  · refine ⟨(httpServerOnNewConn_beginT ..).trans hx.beginT, fun c' r' hr' => ?_⟩
    by_cases hc : c' = c
    · subst hc
      exact ⟨now, AList.lookup_insert _⟩
    · have hold : x.1.live.lookup c' = some r' := by
        rw [← hr']
        exact (AList.lookup_insert_ne hc).symm
      obtain ⟨opened, ho⟩ := hx.recorded c' r' hold
      exact ⟨opened, (AList.lookup_insert_ne hc).trans ho⟩
  · refine ⟨hx.beginT, fun c' r' hr' => ?_⟩
    obtain ⟨rfl, -⟩ | hold := Table.lookup_insert_cases hr'
    · exact hx.recorded c' r hr
    · exact hx.recorded c' r' hold
  · refine ⟨(httpServerOnConnClosed_beginT ..).trans hx.beginT, fun c' r' hr' => ?_⟩
    by_cases hc : c' = c
    · subst hc
      have hnone := AList.lookup_erase (β := fun _ => Conn) c' x.1.live
      rw [hr'] at hnone
      cases hnone
    · obtain ⟨opened, ho⟩ := hx.recorded c' r' (Table.lookup_of_erase hr')
      exact ⟨opened, (AList.lookup_erase_ne hc).trans ho⟩

/-! ## §3 When the durations are right -/

/-- With `begin_t` at zero, the duration printed for a connection is its own exactly if it
    was opened at zero. -/
theorem durationOfConn_iff {x : System × OpenTimes} {e : Event} (hx : BeginUnset x)
    (h : (timedStep x e).isSome) : DurationOfConn x e ↔ OpenedAtZero x e := by
  cases e with
  | newConn c peer fault now =>
    constructor
    · rintro - c' fault' now' opened heq
      cases heq
    · rintro - c' fault' now' r heq
      cases heq
  | migrate c peer =>
    constructor
    · rintro - c' fault' now' opened heq
      cases heq
    · rintro - c' fault' now' r heq
      cases heq
  | connClosed c fault now =>
    obtain ⟨y, hy⟩ := Option.isSome_iff_exists.mp h
    obtain ⟨r, hr, -⟩ := connClosed_of_step (annotate_eq_some.mp hy).1
    obtain ⟨opened, ho⟩ := hx.recorded c r hr
    -- what is printed is the reading at the close itself
    have hprint := requestDuration_connClosed fault now x.1.server (.inet r.peer)
    rw [hx.beginT] at hprint
    constructor
    · rintro hduration c' fault' now' opened' heq ho'
      cases heq
      obtain ⟨opened'', ho'', hd⟩ := hduration c fault now r rfl hr
      obtain rfl : opened' = opened'' := by simpa [ho'] using ho''
      rw [hprint, Option.some.injEq] at hd
      simp only [Timespec.inNs] at hd ⊢
      omega
    · rintro hzero c' fault' now' r' heq hr'
      cases heq
      obtain rfl : r = r' := by simpa [hr] using hr'
      have ho0 := hzero c fault now opened rfl ho
      refine ⟨opened, ho, ?_⟩
      rw [hprint, ho0]
      rfl

/-- **Reported durations.** In a run of the server every close prints the time since the
    open of the connection that closes, if and only if every connection that closes in it
    was opened when the clock read zero. -/
theorem durationOfConn_along_iff (cfg : Config) (es : List Event) :
    StepsAlong timedStep DurationOfConn (System.initial cfg, ∅) es ↔
      StepsAlong timedStep OpenedAtZero (System.initial cfg, ∅) es := by
  have hinv : StatesAlong timedStep BeginUnset (System.initial cfg, ∅) es :=
    statesAlong_of_invariant (E := fun _ => True) (fun x e y _ hx h => beginUnset_step hx h)
      (beginUnset_initial cfg) fun _ _ => trivial
  refine hinv.stepsAlong_congr (E := fun _ => True) ?_ fun _ _ => trivial
  intro x e y _ hx h
  exact durationOfConn_iff hx (Option.isSome_of_eq_some h)

/-- Two connections that overlap, opened at 100 s and 101 s. -/
def overlappingOpens : List Event :=
  [.newConn 1 ⟨4433, ⟨10, 0, 0, 1⟩⟩ false ⟨100, 0⟩, .newConn 2 ⟨4434, ⟨10, 0, 0, 2⟩⟩ false ⟨101, 0⟩]

/-- The first of them closes after three seconds. -/
def threeSecondRun : List Event := overlappingOpens ++ [.connClosed 1 false ⟨103, 0⟩]

/-- The duration printed for it is 103 s. -/
theorem threeSecondRun_not_durationOfConn :
    ClockNondecreasing threeSecondRun ∧
      ¬ StepsAlong timedStep DurationOfConn (System.initial ⟨true, 0, false⟩, ∅)
        threeSecondRun := by
  refine ⟨by decide, fun h => ?_⟩
  have hlast := StepsAlong.get_exec h (by decide +kernel) (by decide +kernel)
  obtain ⟨opened, hopened, hprint⟩ := hlast 1 false ⟨103, 0⟩
    ⟨⟨4433, ⟨10, 0, 0, 1⟩⟩, ⟨4433, ⟨10, 0, 0, 1⟩⟩, true⟩ rfl (by decide +kernel)
  obtain rfl : (⟨100, 0⟩ : Timespec) = opened :=
    Option.some.inj (Eq.trans (by decide +kernel) hopened)
  exact absurd hprint (by decide +kernel)

end Equic.Accounting
