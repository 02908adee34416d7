import Equic.Foundation.Mutex
import Equic.Server.System

/-!
# The request counter

The second thread of the HTTP server, `request_counter`, prints every five seconds how many
requests there were in a second, and sets `requests_per_second` back. The event loop adds to
that variable in `inc_request_counter`, for every connection that it admits. Both do so while
they hold the mutex `lock`, in several steps. The results are about every interleaving of the
steps of the two threads.

The variable is the one in `threads`. The field `requestsPerSecond` of the server state is what
the callback makes of it when nothing comes in between (`step_requestsPerSecond`).
-/

namespace Equic.Server

open Equic.Foundation Equic.Net Equic.Kern Equic.User

/-! ## §1 The two threads -/

/-- The event loop and the thread that `main` creates. -/
inductive ServerThread where
  | eventLoop
  | requestCounter
  deriving DecidableEq, Repr

/-- What `lock` protects: `requests_per_second`, and the values that `request_counter` has
    printed. `read` is for the account only: what the variable was for each of them. -/
structure RequestCount where
  requestsPerSecond : CInt
  read : List CInt
  printed : List CInt
  deriving DecidableEq, Repr

/-- `COUNTER_INTERVAL` -/
def counterInterval : CInt := 5#32

/-- `inc_request_counter` between lock and unlock: `requests_per_second += 1`, as a load, an
    addition and a store. -/
def incBody : Body CInt RequestCount :=
  [fun m => (m.2.requestsPerSecond, m.2),
    fun m => (m.1 + 1#32, m.2),
    fun m => (m.1, { m.2 with requestsPerSecond := m.1 })]

/-- `request_counter` between lock and unlock: it computes `n_reqs`, prints it and sets the
    variable back. -/
def reportBody : Body CInt RequestCount :=
  [fun m => (m.2.requestsPerSecond.sdiv counterInterval,
      { m.2 with read := m.2.read ++ [m.2.requestsPerSecond] }),
    fun m => (m.1, { m.2 with printed := m.2.printed ++ [m.1] }),
    fun m => (m.1, { m.2 with requestsPerSecond := 0#32 })]

theorem runBody_incBody (junk : CInt) (m : RequestCount) :
    (runBody incBody (junk, m)).2 =
      { m with requestsPerSecond := m.requestsPerSecond + 1#32 } := rfl

theorem runBody_reportBody (junk : CInt) (m : RequestCount) :
    (runBody reportBody (junk, m)).2 =
      ⟨0#32, m.read ++ [m.requestsPerSecond],
        m.printed ++ [m.requestsPerSecond.sdiv counterInterval]⟩ := rfl

/-! ## §2 The system -/

/-- The callback of this event calls `inc_request_counter`. -/
def admits (s : HttpServer) : Event → Bool
  | .newConn c peer fault now => !(httpServerOnNewConn fault now s c (.inet peer)).closing
  | _ => false

/-- The server, its threads and the number of connections that it has admitted. -/
structure Counting where
  sys : System
  /-- A callback has yet to call `inc_request_counter`. -/
  due : Bool
  threads : Threads ServerThread CInt RequestCount
  admitted : ℕ

/-- What the two threads can do. The local variable of a section is not initialized. -/
inductive CountEvent where
  /-- The event loop runs a callback, up to `inc_request_counter` if it calls that. -/
  | callback (e : Event)
  /-- `inc_request_counter` takes the mutex. -/
  | lockInc (junk : CInt)
  /-- `request_counter` wakes up and takes the mutex. -/
  | lockReport (junk : CInt)
  /-- A thread takes the next step of its section. -/
  | op (t : ServerThread)
  /-- A thread gives the mutex back. -/
  | unlock (t : ServerThread)

/-- One step of one thread. The event loop goes on with its next callback only behind
    `inc_request_counter`. -/
def countStep (x : Counting) : CountEvent → Option Counting
  | .callback e =>
    if x.due || (x.threads.inside .eventLoop).isSome then none
    else (step x.sys e).map fun sys => { x with
      sys := sys
      due := admits x.sys.server e
      admitted := x.admitted + (admits x.sys.server e).toNat }
  | .lockInc junk =>
    if x.due then
      (threadStep x.threads (.lock .eventLoop junk incBody)).map fun threads =>
        { x with due := false, threads := threads }
    else none
  | .lockReport junk =>
    (threadStep x.threads (.lock .requestCounter junk reportBody)).map fun threads =>
      { x with threads := threads }
  | .op t => (threadStep x.threads (.op t)).map fun threads => { x with threads := threads }
  | .unlock t =>
    (threadStep x.threads (.unlock t)).map fun threads => { x with threads := threads }

/-- Before the first connection; `request_counter` is asleep. -/
def Counting.initial (cfg : Config) : Counting where
  sys := .initial cfg
  due := false
  threads := ⟨⟨0#32, [], []⟩, none, fun _ => none⟩
  admitted := 0

/-- `inc_request_counter` is called once for each connection that is admitted, and for nothing
    else. -/
theorem step_requestsPerSecond {s s' : System} {e : Event} (h : step s e = some s') :
    s'.server.requestsPerSecond =
      if admits s.server e then s.server.requestsPerSecond + 1#32
      else s.server.requestsPerSecond := by
  obtain ⟨c, peer, fault, now, rfl, -, rfl⟩ | ⟨c, peer, r, rfl, -, rfl⟩ |
    ⟨c, fault, now, r, rfl, -, rfl⟩ := step_cases h
  · unfold admits httpServerOnNewConn incRequestCounter
    dsimp only
    split_ifs <;> simp_all
  · rfl
  · have hcount : (countClosed s.server).requestsPerSecond = s.server.requestsPerSecond := by
      unfold countClosed stopOnce
      dsimp only
      split_ifs <;> rfl
    rw [if_neg (show ¬ admits s.server (.connClosed c fault now) = true from Bool.false_ne_true)]
    unfold httpServerOnConnClosed
    dsimp only
    split_ifs <;> exact hcount

/-! ## §3 Every connection is counted once -/

/-- The account of the admitted connections, once the section that is under way has come to its
    end. -/
structure Accounts (x : Counting) : Prop where
  /-- Each report is a fifth of what the variable was when it was read for it. -/
  printed : (settle x.threads).printed.map BitVec.toInt =
    (settle x.threads).read.map fun v => v.toInt / 5
  read_nonneg : ∀ v ∈ (settle x.threads).read, 0 ≤ v.toInt
  nonneg : 0 ≤ (settle x.threads).requestsPerSecond.toInt
  /-- The values read, what the variable is now, and the connection about to be counted. -/
  admitted : (x.admitted : ℤ) = ((settle x.threads).read.map BitVec.toInt).sum +
    (settle x.threads).requestsPerSecond.toInt + x.due.toNat

/-- `requests_per_second += 1` does not overflow. -/
def NoOverflow (x : Counting) : CountEvent → Prop
  | .lockInc _ => (settle x.threads).requestsPerSecond.toInt < CInt.max
  | _ => True

theorem toInt_sdiv_interval {v : CInt} (h : 0 ≤ v.toInt) :
    (v.sdiv counterInterval).toInt = v.toInt / 5 := by
  have hdiv := BitVec.toInt_sdiv_of_ne_or_ne v counterInterval (.inr (by decide))
  have hfive : counterInterval.toInt = 5 := rfl
  rw [hdiv, hfive, Int.tdiv_eq_ediv_of_nonneg h]

theorem toInt_add_one_nonneg_iff {v : CInt} (h : 0 ≤ v.toInt) :
    0 ≤ (v + 1#32).toInt ↔ v.toInt < CInt.max := by
  have hlt := BitVec.toInt_lt (x := v)
  have hone : (1#32).toInt = 1 := rfl
  rw [BitVec.toInt_add, hone, Int.bmod_def, CInt.max]
  norm_num at hlt ⊢
  split <;> omega

/-- Steps that change neither the memory nor the connections keep the account. -/
theorem Accounts.of_settle {x : Counting} {threads : Threads ServerThread CInt RequestCount}
    (hsettle : settle threads = settle x.threads) :
    Accounts { x with threads := threads } ↔ Accounts x := by
  constructor
  · rintro ⟨hprinted, hread, hnonneg, hadmitted⟩
    rw [hsettle] at hprinted hread hnonneg hadmitted
    exact ⟨hprinted, hread, hnonneg, hadmitted⟩
  · rintro ⟨hprinted, hread, hnonneg, hadmitted⟩
    rw [← hsettle] at hprinted hread hnonneg hadmitted
    exact ⟨hprinted, hread, hnonneg, hadmitted⟩

/-- One step of one thread. -/
theorem accounts_iff_of_countStep {x y : Counting} {e : CountEvent}
    (hx : Exclusive x.threads) (hacc : Accounts x) (h : countStep x e = some y) :
    Exclusive y.threads ∧ (Accounts y ↔ NoOverflow x e) := by
  cases e with
  | callback e =>
    simp only [countStep, Option.ite_none_left_eq_some, Bool.or_eq_true, not_or,
      Bool.not_eq_true, Option.map_eq_some_iff] at h
    obtain ⟨⟨hdue, -⟩, sys, -, rfl⟩ := h
    refine ⟨hx, iff_of_true ⟨hacc.printed, hacc.read_nonneg, hacc.nonneg, ?_⟩ trivial⟩
    have hadmitted := hacc.admitted
    rw [hdue] at hadmitted
    simpa using hadmitted
  | lockInc junk =>
    simp only [countStep, Option.ite_none_right_eq_some, Option.map_eq_some_iff] at h
    obtain ⟨hdue, threads, hthreads, rfl⟩ := h
    have hsettle := settle_threadStep hx hthreads
    simp only [runBody_incBody] at hsettle
    refine ⟨hx.step hthreads, ?_⟩
    rw [NoOverflow, ← toInt_add_one_nonneg_iff hacc.nonneg]
    constructor
    · intro hacc'
      have hnonneg := hacc'.nonneg
      rw [hsettle] at hnonneg
      exact hnonneg
    · intro hroom
      -- the connection that was due is in the variable now
      have hone :=
        (CInt.toInt_add_one_iff _).mpr ((toInt_add_one_nonneg_iff hacc.nonneg).mp hroom)
      refine ⟨?_, ?_, ?_, ?_⟩
      · rw [hsettle]
        exact hacc.printed
      · rw [hsettle]
        exact hacc.read_nonneg
      · rw [hsettle]
        exact hroom
      · rw [hsettle, hone, hacc.admitted, hdue]
        simp only [Bool.toNat_true, Bool.toNat_false]
        omega
  | lockReport junk =>
    obtain ⟨threads, hthreads, rfl⟩ := Option.map_eq_some_iff.mp h
    have hsettle := settle_threadStep hx hthreads
    simp only [runBody_reportBody] at hsettle
    refine ⟨hx.step hthreads, iff_of_true ⟨?_, ?_, ?_, ?_⟩ trivial⟩
    · rw [hsettle, List.map_append, List.map_append, hacc.printed, List.map_singleton,
        List.map_singleton, toInt_sdiv_interval hacc.nonneg]
    · rw [hsettle]
      intro v hv
      obtain hv | hv := List.mem_append.mp hv
      · exact hacc.read_nonneg v hv
      · rw [List.mem_singleton.mp hv]
        exact hacc.nonneg
    · rw [hsettle]
      exact Int.le_refl 0
    · -- what was in the variable is with the values read now
      rw [hsettle, hacc.admitted, List.map_append, List.sum_append, List.map_singleton,
        List.sum_singleton]
      have hzero : (0#32 : CInt).toInt = 0 := rfl
      rw [hzero, Int.add_zero]
  | op t =>
    obtain ⟨threads, hthreads, rfl⟩ := Option.map_eq_some_iff.mp h
    refine ⟨hx.step hthreads, iff_of_true ?_ trivial⟩
    exact (Accounts.of_settle (settle_threadStep hx hthreads)).mpr hacc
  | unlock t =>
    obtain ⟨threads, hthreads, rfl⟩ := Option.map_eq_some_iff.mp h
    refine ⟨hx.step hthreads, iff_of_true ?_ trivial⟩
    exact (Accounts.of_settle (settle_threadStep hx hthreads)).mpr hacc

/-- **The reports count every admitted connection once.** In every run and every interleaving of
    the event loop with `request_counter`, from the first state on: each report is a fifth of the
    value of `requests_per_second` that it was computed from, and these values, what has been
    counted since the last one, and the connection about to be counted add up to the admitted
    connections, exactly if no more than `INT_MAX` are counted between two reports. -/
theorem reports_account_iff (cfg : Config) (es : List CountEvent) :
    StatesAlong countStep Accounts (.initial cfg) es ↔
      StepsAlong countStep NoOverflow (.initial cfg) es := by
  refine statesAlong_iff_stepsAlong (I := fun x => Exclusive x.threads) (E := fun _ => True)
    (fun x e y _ hx hacc h => (accounts_iff_of_countStep hx hacc h).1)
    (fun x e y _ hx hacc h => (accounts_iff_of_countStep hx hacc h).2) ?_ ?_ fun _ _ => trivial
  · intro t ht
    cases ht
  · exact ⟨rfl, fun v hv => (List.not_mem_nil hv).elim, Int.le_refl 0, rfl⟩

end Equic.Server
