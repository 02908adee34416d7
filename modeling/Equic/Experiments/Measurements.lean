import Equic.Accounting.Durations
import Equic.Experiments.Extract

/-!
# Measurements

From the connections of a server to the files that the statistics are computed from: the
callbacks of the event loop print, `request_counter` and, with `-e`, the setup and the signal
callbacks print in between, and `extract.py` reads what they have printed. `measurements_exact`
says what is in the three files afterwards, for every run.
-/

namespace Equic.Experiments

open Equic.Foundation Equic.Foundation.Py Equic.Net Equic.Server Equic.Accounting

/-! ## §1 What there is to measure -/

/-- The time at which the event closes a connection. -/
def closedAt (_ : System) (x : PrintEvent) : List Timespec :=
  match x.event with
  | .connClosed _ _ now => [now]
  | _ => []

/-- The time at which the event is the open of a connection that is refused. -/
def refusedAt (s : System) (x : PrintEvent) : List Timespec :=
  match x.event with
  | .newConn c peer fault now =>
    if (httpServerOnNewConn fault now s.server c (.inet peer)).closing then [now] else []
  | _ => []

/-! ## §2 What goes to which file -/

/-- The lines that go to a file. -/
def linesOf (file : List Char) (writes : List Write) : List (List Char) :=
  (writes.filter (·.file = file)).map Write.line

variable {fixed3 : Fixed3} (py : PyFloat fixed3) (base : List Char)

/-- The lines of the file with the durations. -/
def durationLines (fixed3 : Fixed3) : StdoutLine → List (List Char)
  | .callback (.requestDuration beginInNs endInNs) _ =>
    [fixed3.text (endInNs - beginInNs) 1000000 ++ ['\n']]
  | _ => []

/-- The lines of the file with the reports. -/
def requestLines (line : StdoutLine) : List (List Char) :=
  match line.report with
  | some n => if n.toInt > 0 then [decimal n.toInt ++ ['\n']] else []
  | none => []

/-- The line for one blocking time. -/
def blockLine (nanoseconds : ℤ) : List (List Char) :=
  match py.float (fixed3.text nanoseconds 1000) with
  | some x => if py.positive x then [py.format x ++ ['\n']] else []
  | none => []

/-- The lines of the file with the blocking times. -/
def blockLines : StdoutLine → List (List Char)
  | .callback (.blockDuration beginInNs endInNs) _ => blockLine py (endInNs - beginInNs)
  | _ => []

/-- The three files have different names. -/
theorem files_ne : durationFile base ≠ requestsFile base ∧ durationFile base ≠ blockFile base ∧
    requestsFile base ≠ blockFile base := by
  have hduration : (durationFile base)[3]? = some 'd' := rfl
  have hrequests : (requestsFile base)[3]? = some 'r' := rfl
  have hblock : (blockFile base)[3]? = some 'b' := rfl
  refine ⟨fun h => ?_, fun h => ?_, fun h => ?_⟩
  · rw [h, hrequests] at hduration
    cases hduration
  · rw [h, hblock] at hduration
    cases hduration
  · rw [h, hblock] at hrequests
    cases hrequests

/-- What is appended for a line goes to the file that it is for. -/
theorem linesOf_writesOf (line : StdoutLine) :
    linesOf (durationFile base) (writesOf py base line) = durationLines fixed3 line ∧
    linesOf (requestsFile base) (writesOf py base line) = requestLines line ∧
    linesOf (blockFile base) (writesOf py base line) = blockLines py line := by
  obtain ⟨hdr, hdb, hrb⟩ := files_ne base
  cases line with
  | connection action local_ peer => exact ⟨rfl, rfl, rfl⟩
  | program line => exact ⟨rfl, rfl, rfl⟩
  | requestsPerSecond n =>
    simp only [writesOf, durationLines, requestLines, StdoutLine.report, blockLines]
    split <;> simp [linesOf, hdr.symm, hrb]
  | callback line errno =>
    cases line with
    | counter action => exact ⟨rfl, rfl, rfl⟩
    | quota line => exact ⟨rfl, rfl, rfl⟩
    | requestDuration beginInNs endInNs =>
      simp [writesOf, durationLines, requestLines, StdoutLine.report, blockLines, linesOf, hdr, hdb]
    | blockDuration beginInNs endInNs =>
      simp only [writesOf, durationLines, requestLines, StdoutLine.report, blockLines, blockLine]
      cases py.float (fixed3.text (endInNs - beginInNs) 1000) with
      | none => exact ⟨rfl, rfl, rfl⟩
      | some y =>
        dsimp only
        split <;> simp [linesOf, hdb.symm, hrb.symm]

theorem linesOf_flatMap {file : List Char} {f : StdoutLine → List Write}
    {g : StdoutLine → List (List Char)} (h : ∀ line, linesOf file (f line) = g line)
    (out : List StdoutLine) : linesOf file (out.flatMap f) = out.flatMap g := by
  induction out with
  | nil => rfl
  | cons line out ih =>
    rw [List.flatMap_cons, List.flatMap_cons, ← h, ← ih, linesOf, List.filter_append,
      List.map_append]
    rfl

/-! ## §3 Whole runs -/

/-- What an open callback prints for the two files. -/
theorem log_newConn (fault : Bool) (now : Timespec) {s : HttpServer} (c : ConnId)
    (peer : Sockaddr) (errno : Errno) (hbegin : s.ctx.beginT = ⟨0, 0⟩) :
    let r := httpServerOnNewConn fault now s c peer
    (r.log.flatMap fun line => durationLines fixed3 (.callback line errno)) = [] ∧
    (r.log.flatMap fun line => blockLines py (.callback line errno)) =
      if r.closing then blockLine py now.inNs else [] := by
  have hzero : now.inNs - (⟨0, 0⟩ : Timespec).inNs = now.inNs := by simp [Timespec.inNs]
  cases hmode : s.ctx.hasEBPF with
  | true => simp [httpServerOnNewConn, hmode, durationLines, blockLines]
  | false =>
    cases hreached : (reachedQuotaLimit s.quotas peer).1 <;>
      simp [httpServerOnNewConn, hmode, hreached, calculateQuotaBlockTime, durationLines,
        blockLines, hbegin, hzero]

/-- What a close callback prints for the two files. -/
theorem log_connClosed (fault : Bool) (now : Timespec) {s : HttpServer} (peer : Sockaddr)
    (errno : Errno) (hbegin : s.ctx.beginT = ⟨0, 0⟩) :
    let log := (httpServerOnConnClosed fault now s peer).2
    (log.flatMap fun line => durationLines fixed3 (.callback line errno)) =
      [fixed3.text now.inNs 1000000 ++ ['\n']] ∧
    (log.flatMap fun line => blockLines py (.callback line errno)) = [] := by
  have hzero : now.inNs - (⟨0, 0⟩ : Timespec).inNs = now.inNs := by simp [Timespec.inNs]
  unfold httpServerOnConnClosed
  dsimp only
  split_ifs
  · simp [elapsedTimeMs, durationLines, blockLines, countClosed_beginT, hbegin, hzero]
  · simp [elapsedTimeMs, durationLines, blockLines, countClosed_beginT, hbegin, hzero]

/-- What an event prints for the two files. -/
theorem printed_lines {s s' : System} {x : PrintEvent} (hbegin : s.server.ctx.beginT = ⟨0, 0⟩)
    (hstep : step s x.event = some s') :
    (printed s x).flatMap (durationLines fixed3) =
      (closedAt s x).map (fun now => fixed3.text now.inNs 1000000 ++ ['\n']) ∧
    (printed s x).flatMap (blockLines py) =
      (refusedAt s x).flatMap (fun now => blockLine py now.inNs) := by
  obtain ⟨event, local_, errno⟩ := x
  dsimp only at hstep
  cases event with
  | newConn c peer fault now =>
    obtain ⟨hdurations, hblocks⟩ :=
      log_newConn py fault now c (.inet peer) errno hbegin
    simp only [printed, closedAt, refusedAt, List.flatMap_append, List.flatMap_map, hdurations,
      hblocks]
    cases (httpServerOnNewConn fault now s.server c (.inet peer)).closing <;>
      simp [durationLines, blockLines]
  | migrate c peer => exact ⟨rfl, rfl⟩
  | connClosed c fault now =>
    obtain ⟨r, hr, -⟩ := connClosed_of_step hstep
    obtain ⟨hdurations, hblocks⟩ :=
      log_connClosed py fault now (.inet r.peer) errno hbegin
    simp only [printed, hr, closedAt, refusedAt, List.flatMap_cons, List.flatMap_map, hdurations,
      hblocks]
    simp [durationLines, blockLines]

/-- `begin_t` is never set. -/
theorem beginT_step {s s' : System} {e : Event} (hs : s.server.ctx.beginT = ⟨0, 0⟩)
    (h : step s e = some s') : s'.server.ctx.beginT = ⟨0, 0⟩ := by
  obtain ⟨c, peer, fault, now, -, -, rfl⟩ | ⟨c, peer, r, -, -, rfl⟩ |
    ⟨c, fault, now, r, -, -, rfl⟩ := step_cases h
  · exact (httpServerOnNewConn_beginT ..).trans hs
  · exact hs
  · exact (httpServerOnConnClosed_beginT ..).trans hs

/-- What the script makes of the output of a run. -/
structure Measured (py : PyFloat fixed3) (base : List Char) (cfg : Config)
    (xs : List PrintEvent) (out : List StdoutLine) (writes : List Write) : Prop where
  /-- One duration for each connection that is closed: the time of the close. -/
  durations : linesOf (durationFile base) writes =
    (collectAlong closedAt (.initial cfg) xs).map fun now => fixed3.text now.inNs 1000000 ++ ['\n']
  /-- The reports, except for those that are not positive. -/
  requests : linesOf (requestsFile base) writes =
    ((out.filterMap StdoutLine.report).filter (fun n => n.toInt > 0)).map
      fun n => decimal n.toInt ++ ['\n']
  /-- One blocking time for each connection that is refused, unless it is not positive. -/
  blocks : linesOf (blockFile base) writes =
    (collectAlong refusedAt (.initial cfg) xs).flatMap fun now => blockLine py now.inNs

/-- What the script appends for an output is what was measured. -/
theorem measured_output (py : PyFloat fixed3) (base : List Char) (cfg : Config)
    (xs : List PrintEvent) (out : List StdoutLine) (hout : IsOutput (.initial cfg) xs out) :
    Measured py base cfg xs out (out.flatMap (writesOf py base)) := by
  have hloop : ∀ g : StdoutLine → List (List Char), (∀ line, line.ofEventLoop = false →
      g line = []) → out.flatMap g = (printedAlong (.initial cfg) xs).flatMap g :=
    fun g hg => by rw [← hout, flatMap_filter_eq hg]
  refine ⟨?_, ?_, ?_⟩
  · rw [linesOf_flatMap (fun line => (linesOf_writesOf py base line).1), hloop _ ?_,
      printedAlong, collectAlong_flatMap, List.map_eq_flatMap, collectAlong_flatMap]
    · apply collectAlong_congr (P := fun s => s.server.ctx.beginT = ⟨0, 0⟩)
        (fun s x s' hs h => beginT_step hs h) _ rfl
      intro s x s' hs hstep
      rw [(printed_lines py hs hstep).1, List.map_eq_flatMap]
    · intro line hline
      cases line with
      | callback line errno => cases hline
      | connection action local_ peer => cases hline
      | requestsPerSecond n => rfl
      | program line => rfl
  · rw [linesOf_flatMap (fun line => (linesOf_writesOf py base line).2.1)]
    clear hout hloop
    induction out with
    | nil => rfl
    | cons line out ih =>
      rw [List.flatMap_cons, ih, requestLines, List.filterMap_cons]
      cases line.report with
      | none => rfl
      | some n =>
        dsimp only
        rw [List.filter_cons]
        by_cases hpos : n.toInt > 0
        · rw [if_pos hpos, if_pos (decide_eq_true hpos), List.map_cons, List.singleton_append]
        · rw [if_neg hpos, if_neg (by simpa using hpos), List.nil_append]
  · rw [linesOf_flatMap (fun line => (linesOf_writesOf py base line).2.2), hloop _ ?_,
      printedAlong, collectAlong_flatMap, collectAlong_flatMap]
    · apply collectAlong_congr (P := fun s => s.server.ctx.beginT = ⟨0, 0⟩)
        (fun s x s' hs h => beginT_step hs h) _ rfl
      intro s x s' hs hstep
      exact (printed_lines py hs hstep).2
    · intro line hline
      cases line with
      | callback line errno => cases hline
      | connection action local_ peer => cases hline
      | requestsPerSecond n => rfl
      | program line => rfl

/-- **Nothing is lost between the server and the statistics.** For every run, in either mode, and
    any way in which the reports of `request_counter` and the lines of `equic_user.c` come
    between the lines of the event loop, the script raises no exception on the log and extracts
    exactly what was measured, in the order of the run. -/
theorem measurements_exact (py : PyFloat fixed3) (log base : List Char)
    (hbase : baseName log = some base) (cfg : Config) (xs : List PrintEvent)
    (out : List StdoutLine) (hout : IsOutput (.initial cfg) xs out) :
    ∃ writes, extract py log (outputText fixed3 out) = some writes ∧
      Measured py base cfg xs out writes :=
  ⟨_, extract_output hout.plainKey py hbase, measured_output py base cfg xs out hout⟩

/-- Three decimals, for quotients that have no more of them. -/
def threeDecimals (n : ℤ) (d : ℕ) : List Char :=
  let thousandths := n * 1000 / d
  decimal (thousandths / 1000) ++ '.' ::
    (Nat.toDigits 10 (1000 + (thousandths % 1000).toNat)).drop 1

/-- `printf` on such quotients. -/
def exactFixed3 : Fixed3 where
  text := threeDecimals
  plain n d c hc := by
    unfold threeDecimals at hc
    obtain hc | hc := List.mem_append.mp hc
    · exact isPlain_decimal hc
    · obtain rfl | hc := List.mem_cons.mp hc
      · rfl
      · exact isPlain_toDigits (List.mem_of_mem_drop hc)

/-- Python on such texts: zeros at the end are not printed, but for the first decimal. -/
def exactFloat : PyFloat exactFixed3 where
  Num := List Char
  float := some
  positive s := s.head? ≠ some '-' && s.any fun c => c ≠ '0' && c.isDigit
  format s :=
    let s := s.rdropWhile (· = '0')
    if s.getLast? = some '.' then s ++ ['0'] else s
  float_fixed3 _ _ := rfl

/-- One connection, opened and closed. -/
def measuredRun : List PrintEvent :=
  [⟨.newConn 0 ⟨40000, ⟨10, 0, 0, 1⟩⟩ false ⟨1, 0⟩, ⟨4433, ⟨10, 0, 0, 2⟩⟩, .enoent⟩,
    ⟨.connClosed 0 false ⟨2, 500000000⟩, ⟨4433, ⟨10, 0, 0, 2⟩⟩, .enoent⟩]

/-- The log of this run with `-e`: the setup comes before it, and a signal ends the process. -/
def measuredOutput : List StdoutLine :=
  [.program (.interfaceRead 2#32), .program .objectLoaded, .program .mapLoaded,
    .program .attached] ++
  printedAlong (.initial ⟨true, 0, false⟩) measuredRun ++
  [.requestsPerSecond 1#32, .program .exitInt, .program (.unloaded 2#32)]

theorem measurements_exact_measuredRun :
    ∃ writes, extract exactFloat "1-ebpf-256k.log".toList
        (outputText exactFixed3 measuredOutput) = some writes ∧
      Measured exactFloat "ebpf-256k".toList ⟨true, 0, false⟩ measuredRun measuredOutput writes :=
  measurements_exact exactFloat _ _ (by decide +kernel) _ _ _ (by unfold IsOutput; decide +kernel)

end Equic.Experiments
