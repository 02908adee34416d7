import Equic.Experiments.KernelLog

/-!
# Statistics

`compute.py` reads one of the files that `extract.py` has written, finds in its name what was
measured, and appends one line with the harmonic mean to a table. The results follow the
numbers through both scripts: what ends up in the table is the mean of what was measured, or
the script raises an exception because nothing was.
-/

namespace Equic.Experiments

open Equic.Foundation Equic.Foundation.Py Equic.Net Equic.Kern Equic.Server

/-! ## §1 The script -/

/-- What the script takes from Python besides: `harmonic_mean`, of which `none` is a
    `StatisticsError`, and what it prints; `float` on a line, and on what `format` gives. -/
structure PyStatistics (fixed3 : Fixed3) extends PyNumber fixed3 where
  Mean : Type
  harmonicMean : List Num → Option Mean
  harmonicMeanInt : List ℤ → Option Mean
  zero : Mean
  formatMean : Mean → List Char
  float_line : ∀ s, float (s ++ ['\n']) = float s
  float_format : ∀ x, float (format x) = some x
  format_inline : ∀ x, ∀ c ∈ format x, isInline c = true

variable {fixed3 : Fixed3}

/-- The names of the metrics. -/
def durationMetric : List Char := "duration".toList

def requestsMetric : List Char := "reqs_per_second".toList

def blockMetric : List Char := "block_duration".toList

/-- `compute_avg_duration` -/
def computeAvgDuration (py : PyStatistics fixed3) (text : List Char) : Option py.Mean := do
  let durations ← (lines (universalNewlines text)).mapM py.float
  py.harmonicMean durations

/-- `compute_avg_reqs_per_second` -/
def computeAvgReqsPerSecond (py : PyStatistics fixed3) (text : List Char) : Option py.Mean := do
  let reqs ← (lines (universalNewlines text)).mapM int
  py.harmonicMeanInt reqs

/-- `compute_avg_block_duration` -/
def computeAvgBlockDuration (py : PyStatistics fixed3) (text : List Char) : Option py.Mean := do
  let durations ← (lines (universalNewlines text)).mapM py.float
  py.harmonicMean durations

/-- `meta` -/
structure Meta where
  metric : List Char
  type : List Char
  size : List Char
  deriving DecidableEq, Repr

/-- `meta`, from the name of the file -/
def metaOf (dat : List Char) : Option Meta := do
  let splitted := split dat '-'
  let first ← splitted[0]?
  let metric ← fromEnd (split first '/') 1
  let type ← splitted[1]?
  let last ← splitted[2]?
  some ⟨metric, type, last.take (last.length - 4)⟩

/-- The table of a metric. -/
def tableFile (metric type : List Char) : List Char :=
  "stats/".toList ++ metric ++ '-' :: type ++ ".csv".toList

/-- `compute` and `main`: the line that is appended, or `none` if an exception is raised. A file
    that does not exist is `none`. -/
def compute (py : PyStatistics fixed3) (files : List Char → Option (List Char)) (dat : List Char) :
    Option Write := do
  let m ← metaOf dat
  let avgValue ←
    if m.metric = durationMetric then (files dat).bind (computeAvgDuration py)
    else if m.metric = requestsMetric then (files dat).bind (computeAvgReqsPerSecond py)
    else if m.metric = blockMetric then (files dat).bind (computeAvgBlockDuration py)
    else some py.zero
  some ⟨tableFile m.metric m.type, m.size ++ ", ".toList ++ py.formatMean avgValue ++ ['\n']⟩

/-! ## §2 Names of files -/

/-- The two parts of the name of a log. -/
theorem exists_parts {log base : List Char} (h : baseName log = some base) :
    ∃ type size, base = type ++ '-' :: size ∧ '-' ∉ type ∧ '-' ∉ size := by
  -- a piece that `split` has cut out has no separator left, from whichever end it is counted
  have hmem : ∀ k piece, fromEnd (split log '-') k = some piece → '-' ∉ piece := by
    intro k piece hpiece
    unfold fromEnd at hpiece
    apply sep_notMem_of_mem_split (s := log)
    split at hpiece
    · exact List.mem_of_getElem? hpiece
    · exact List.mem_reverse.mp (List.mem_of_getElem? hpiece)
  simp only [baseName, Option.bind_eq_bind, Option.bind_eq_some_iff] at h
  obtain ⟨type, htype, last, hlast, heq⟩ := h
  obtain rfl := Option.some.inj heq
  -- the size is the last piece without the four characters of ".log"
  exact ⟨type, _, rfl, hmem _ _ htype, fun hin => hmem _ _ hlast (List.mem_of_mem_take hin)⟩

/-- The script finds in the name of a file what the other one has put there. -/
theorem metaOf_ofilename {metric type size : List Char} (hmetric : '-' ∉ metric ∧ '/' ∉ metric)
    (htype : '-' ∉ type) (hsize : '-' ∉ size) :
    metaOf (ofilename (metric ++ ['-']) (type ++ '-' :: size)) = some ⟨metric, type, size⟩ := by
  -- the name has two hyphens: behind the metric and behind the type
  have hout : '-' ∉ "in/".toList ++ metric := by
    rw [List.mem_append, not_or]
    exact ⟨by decide, hmetric.1⟩
  have hlast : '-' ∉ size ++ ".dat".toList := by
    rw [List.mem_append, not_or]
    exact ⟨hsize, by decide⟩
  have hname : ofilename (metric ++ ['-']) (type ++ '-' :: size) =
      ("in/".toList ++ metric) ++ '-' :: (type ++ '-' :: (size ++ ".dat".toList)) := by
    unfold ofilename outDir
    simp only [List.append_assoc, List.cons_append, List.nil_append]
  -- of its first piece the directory goes off
  have hdir : split ("in/".toList ++ metric) '/' = ["in".toList, metric] := by
    have hin : "in/".toList = "in".toList ++ ['/'] := rfl
    rw [hin, List.append_assoc, List.singleton_append, split_append_cons (by decide),
      split_of_notMem hmetric.2]
  -- and of its last piece the ending
  have hdat : (size ++ ".dat".toList).length - 4 = size.length := by
    rw [List.length_append]
    rfl
  simp only [metaOf, hname, split_append_cons hout, split_append_cons htype, split_of_notMem hlast,
    List.getElem?_cons_zero, List.getElem?_cons_succ, Option.bind_eq_bind, Option.bind_some, hdir,
    hdat, List.take_left']
  rfl

/-! ## §3 What is read from a file -/

/-- The file that a log has left in an empty directory. -/
def fileOf (writes : List Write) (file : List Char) : Option (List Char) :=
  let texts := linesOf file writes
  if texts = [] then none else some texts.flatten

/-- A file with one value on each line is read value by value. -/
theorem mapM_lines {α β : Type*} {read : List Char → Option β} {text : α → List Char}
    {value : α → β} (hread : ∀ a, read (text a ++ ['\n']) = some (value a))
    (hinline : ∀ a, ∀ c ∈ text a, isInline c = true) (as : List α) :
    (lines (universalNewlines (as.map fun a => text a ++ ['\n']).flatten)).mapM read =
      some (as.map value) := by
  have hbody : ∀ t ∈ as.map fun a => text a ++ ['\n'],
      ∃ body, t = body ++ ['\n'] ∧ '\n' ∉ body ∧ '\r' ∉ body := by
    intro t ht
    obtain ⟨a, -, rfl⟩ := List.mem_map.mp ht
    refine ⟨text a, rfl, fun hmem => ?_, fun hmem => ?_⟩
    · cases hinline a _ hmem
    · cases hinline a _ hmem
  rw [lines_flatten hbody]
  clear hbody
  -- the lines are the texts again, so the values come one for each text
  induction as with
  | nil => rfl
  | cons a as ih =>
    rw [List.map_cons, List.mapM_cons, hread, ih]
    rfl

/-- The mean of what stands in a file, if there is one. -/
theorem bind_fileOf {α β γ : Type*} {read : List Char → Option β} {text : α → List Char}
    {value : α → β} (hread : ∀ a, read (text a ++ ['\n']) = some (value a))
    (hinline : ∀ a, ∀ c ∈ text a, isInline c = true) (mean : List β → Option γ)
    {writes : List Write} {file : List Char} {as : List α}
    (hlines : linesOf file writes = as.map fun a => text a ++ ['\n']) :
    ((fileOf writes file).bind fun t => ((lines (universalNewlines t)).mapM read).bind mean) =
      if as.map value = [] then none else mean (as.map value) := by
  unfold fileOf
  dsimp only
  rw [hlines]
  cases as with
  -- no line was written, so there is no file
  | nil => rfl
  | cons a as =>
    rw [if_neg (by simp), if_neg (by simp), Option.bind_some, mapM_lines hread hinline,
      Option.bind_some]

section Values

variable (py : PyStatistics fixed3)

/-- The number that Python reads where `printf` has printed a quotient. -/
def fixedValue (n : ℤ) (d : ℕ) : py.Num := (py.float (fixed3.text n d)).get (py.float_fixed3 n d)

/-- The line that is appended for these values, if there are any. -/
def summary {β : Type} (mean : List β → Option py.Mean) (values : List β) (m : Meta) :
    Option Write :=
  if values = [] then none
  else (mean values).map fun avgValue =>
    ⟨tableFile m.metric m.type, m.size ++ ", ".toList ++ py.formatMean avgValue ++ ['\n']⟩

variable {py}

theorem float_fixedValue (n : ℤ) (d : ℕ) :
    py.float (fixed3.text n d ++ ['\n']) = some (fixedValue py n d) := by
  rw [py.float_line, fixedValue, Option.some_get]

theorem int_decimal_line (n : ℤ) : int (decimal n ++ ['\n']) = some n := by
  rw [int_line, int_decimal]

theorem float_format_line (x : py.Num) : py.float (py.format x ++ ['\n']) = some x := by
  rw [py.float_line, py.float_format]

theorem durationFile_eq (base : List Char) :
    durationFile base = ofilename (durationMetric ++ ['-']) base := by
  have hlit : "duration-".toList = durationMetric ++ ['-'] := rfl
  unfold durationFile
  simp only [hlit]

theorem requestsFile_eq (base : List Char) :
    requestsFile base = ofilename (requestsMetric ++ ['-']) base := by
  have hlit : "reqs_per_second-".toList = requestsMetric ++ ['-'] := rfl
  unfold requestsFile
  simp only [hlit]

theorem blockFile_eq (base : List Char) :
    blockFile base = ofilename (blockMetric ++ ['-']) base := by
  have hlit : "block_duration-".toList = blockMetric ++ ['-'] := rfl
  unfold blockFile
  simp only [hlit]

/-- The metrics have different names. -/
theorem metrics_ne : requestsMetric ≠ durationMetric ∧ blockMetric ≠ durationMetric ∧
    blockMetric ≠ requestsMetric := by decide

theorem bind_eq_summary {β : Type} {mean : List β → Option py.Mean} {values : List β}
    {avg : Option py.Mean} (h : avg = if values = [] then none else mean values)
    (metric type size : List Char) :
    (avg.bind fun avgValue => some
      (Write.mk (tableFile metric type)
        (size ++ ", ".toList ++ py.formatMean avgValue ++ ['\n']))) =
      summary py mean values ⟨metric, type, size⟩ := by
  rw [h, summary]
  split
  · rfl
  · cases mean values <;> rfl

variable {type size : List Char} (htype : '-' ∉ type) (hsize : '-' ∉ size) {writes : List Write}

include htype hsize

/-- The mean of quotients that `printf` has printed. -/
theorem compute_durations {α : Type} {n : α → ℤ} {d : ℕ} {as : List α}
    (hlines : linesOf (durationFile (type ++ '-' :: size)) writes =
      as.map fun a => fixed3.text (n a) d ++ ['\n']) :
    compute py (fileOf writes) (durationFile (type ++ '-' :: size)) =
      summary py py.harmonicMean (as.map fun a => fixedValue py (n a) d)
        ⟨durationMetric, type, size⟩ := by
  -- Python reads `float(line)`, and the text of a quotient is a `float`
  have hmean : (fileOf writes (durationFile (type ++ '-' :: size))).bind (computeAvgDuration py) =
      if as.map (fun a => fixedValue py (n a) d) = [] then none
      else py.harmonicMean (as.map fun a => fixedValue py (n a) d) :=
    bind_fileOf (fun a => float_fixedValue (n a) d)
      (fun a c hc => isInline_of_isPlain (fixed3.plain _ _ c hc)) py.harmonicMean hlines
  have hmeta : metaOf (durationFile (type ++ '-' :: size)) = some ⟨durationMetric, type, size⟩ := by
    rw [durationFile_eq]
    exact metaOf_ofilename (by decide) htype hsize
  simp only [compute, hmeta, Option.bind_eq_bind, Option.bind_some, if_true]
  exact bind_eq_summary hmean _ _ _

/-- The mean of whole numbers. -/
theorem compute_requests {as : List ℤ}
    (hlines : linesOf (requestsFile (type ++ '-' :: size)) writes =
      as.map fun n => decimal n ++ ['\n']) :
    compute py (fileOf writes) (requestsFile (type ++ '-' :: size)) =
      summary py py.harmonicMeanInt as ⟨requestsMetric, type, size⟩ := by
  -- Python reads `int(line)`, the inverse of "%d"
  have hmean : (fileOf writes (requestsFile (type ++ '-' :: size))).bind
      (computeAvgReqsPerSecond py) =
        if as.map id = [] then none else py.harmonicMeanInt (as.map id) :=
    bind_fileOf int_decimal_line (fun n c hc => isInline_of_isPlain (isPlain_decimal hc))
      py.harmonicMeanInt hlines
  have hmeta : metaOf (requestsFile (type ++ '-' :: size)) = some ⟨requestsMetric, type, size⟩ := by
    rw [requestsFile_eq]
    exact metaOf_ofilename (by decide) htype hsize
  rw [List.map_id] at hmean
  -- the name selects the second of the three functions
  simp only [compute, hmeta, Option.bind_eq_bind, Option.bind_some, if_neg metrics_ne.1, if_true]
  exact bind_eq_summary hmean _ _ _

/-- The mean of numbers that Python has printed. -/
theorem compute_blocks {xs : List py.Num}
    (hlines : linesOf (blockFile (type ++ '-' :: size)) writes =
      xs.map fun x => py.format x ++ ['\n']) :
    compute py (fileOf writes) (blockFile (type ++ '-' :: size)) =
      summary py py.harmonicMean xs ⟨blockMetric, type, size⟩ := by
  -- Python reads back what "{0}".format(float) has written
  have hmean : (fileOf writes (blockFile (type ++ '-' :: size))).bind
      (computeAvgBlockDuration py) =
        if xs.map id = [] then none else py.harmonicMean (xs.map id) :=
    bind_fileOf float_format_line py.format_inline py.harmonicMean hlines
  have hmeta : metaOf (blockFile (type ++ '-' :: size)) = some ⟨blockMetric, type, size⟩ := by
    rw [blockFile_eq]
    exact metaOf_ofilename (by decide) htype hsize
  rw [List.map_id] at hmean
  -- and here it selects the third
  simp only [compute, hmeta, Option.bind_eq_bind, Option.bind_some, if_neg metrics_ne.2.1,
    if_neg metrics_ne.2.2, if_true]
  exact bind_eq_summary hmean _ _ _

end Values

/-! ## §4 From the server to the tables -/

/-- The blocking times as the script keeps them. -/
theorem flatMap_blockLine (py : PyStatistics fixed3) (times : List Timespec) :
    times.flatMap (fun now => blockLine py.toPyFloat now.inNs) =
      ((times.map fun now => fixedValue py now.inNs 1000).filter py.positive).map
        fun x => py.format x ++ ['\n'] := by
  induction times with
  | nil => rfl
  | cons now times ih =>
    have hvalue : py.float (fixed3.text now.inNs 1000) = some (fixedValue py now.inNs 1000) := by
      rw [fixedValue, Option.some_get]
    -- both sides keep the value exactly if it is positive
    rw [List.flatMap_cons, ih, List.map_cons, List.filter_cons, blockLine, hvalue]
    dsimp only
    split
    · rfl
    · rfl

/-- The reports as the script keeps them. -/
theorem map_reports (reports : List CInt) :
    (reports.filter (fun n => n.toInt > 0)).map (fun n => decimal n.toInt ++ ['\n']) =
      ((reports.map BitVec.toInt).filter (· > 0)).map fun n => decimal n ++ ['\n'] := by
  rw [List.filter_map, List.map_map]
  rfl

/-- **From the server to the tables.** For every run of the server and any way in which the
    reports of `request_counter` come between the lines of the event loop: on the files that
    `extract.py` makes of the log, `compute.py` appends to the table of each metric, under the
    size that the log is named after, the mean of exactly what was measured; and it raises an
    exception instead if nothing was, or if there is no mean. -/
theorem statistics_exact (py : PyStatistics fixed3) (log base : List Char)
    (hbase : baseName log = some base) (cfg : Config) (xs : List PrintEvent)
    (out : List StdoutLine) (hout : IsOutput (.initial cfg) xs out) :
    ∃ type size writes, base = type ++ '-' :: size ∧
      extract py.toPyFloat log (outputText fixed3 out) = some writes ∧
      compute py (fileOf writes) (durationFile base) =
        summary py py.harmonicMean
          ((collectAlong closedAt (.initial cfg) xs).map fun now => fixedValue py now.inNs 1000000)
          ⟨durationMetric, type, size⟩ ∧
      compute py (fileOf writes) (requestsFile base) =
        summary py py.harmonicMeanInt
          (((out.filterMap StdoutLine.report).map BitVec.toInt).filter (· > 0))
          ⟨requestsMetric, type, size⟩ ∧
      compute py (fileOf writes) (blockFile base) =
        summary py py.harmonicMean
          (((collectAlong refusedAt (.initial cfg) xs).map fun now =>
            fixedValue py now.inNs 1000).filter py.positive)
          ⟨blockMetric, type, size⟩ := by
  -- the log is named after what its files and the rows of the tables are named after
  obtain ⟨type, size, rfl, htype, hsize⟩ := exists_parts hbase
  -- the three files hold what was measured; it remains to read them
  have hmeasured := measured_output py.toPyFloat (type ++ '-' :: size) cfg xs out hout
  refine ⟨type, size, _, rfl, extract_output hout.plainKey py.toPyFloat hbase, ?_, ?_, ?_⟩
  · exact compute_durations htype hsize hmeasured.durations
  · exact compute_requests htype hsize (hmeasured.requests.trans (map_reports _))
  · exact compute_blocks htype hsize (hmeasured.blocks.trans (flatMap_blockLine py _))

/-- Thousandths, from the numbers that occur: with an exponent, whole, or with three decimals. -/
def parseThousandths (s : List Char) : ℤ :=
  let s := strip s
  if "e-3".toList.isSuffixOf s then (int (s.take (s.length - 3))).getD 0
  else
    match int s with
    | some n => 1000 * n
    | none => (int (s.filter (· ≠ '.'))).getD 0

theorem parseThousandths_toDigits (n : ℕ) : parseThousandths (Nat.toDigits 10 n) = 1000 * n := by
  have hdigits : ∀ c ∈ Nat.toDigits 10 n, c.isDigit = true := fun c hc =>
    Nat.isDigit_of_mem_toDigits (by omega) (by omega) hc
  have hstrip := strip_eq_self fun c hc => isSpace_of_isDigit (hdigits c hc)
  -- no digit is an "e", so the number is whole
  have hsuffix : ¬ "e-3".toList.isSuffixOf (Nat.toDigits 10 n) = true := by
    intro h
    cases hdigits 'e' ((List.isSuffixOf_iff_suffix.mp h).subset (by decide))
  unfold parseThousandths
  rw [hstrip, if_neg hsuffix, (int_digits hdigits Nat.toDigits_ne_nil).1,
    Nat.ofDigitChars_ten_toDigits]

theorem parseThousandths_format (x : ℤ) : parseThousandths (decimal x ++ "e-3".toList) = x := by
  have hspace : ∀ c ∈ decimal x ++ "e-3".toList, Py.isSpace c = false :=
    List.forall_mem_append.mpr
      ⟨fun c hc => isSpace_of_isPlain (isPlain_decimal hc), isSpace_of_any rfl⟩
  have hlen : (decimal x ++ "e-3".toList).length - 3 = (decimal x).length := by
    rw [List.length_append]
    rfl
  -- the exponent is found and taken off
  unfold parseThousandths
  rw [strip_eq_self hspace, if_pos (List.isSuffixOf_iff_suffix.mpr (List.suffix_append _ _)), hlen,
    List.take_left, int_decimal]
  rfl

/-- Python on such numbers; the mean of a single number is that number. -/
def exactStatistics : PyStatistics exactFixed3 where
  Num := ℤ
  float s := some (parseThousandths s)
  positive x := decide (0 < x)
  format x := decimal x ++ "e-3".toList
  float_fixed3 _ _ := rfl
  ofNat n := 1000 * n
  float_toDigits n := congrArg some (parseThousandths_toDigits n)
  positive_ofNat n := by simp
  Mean := ℤ × ℕ
  harmonicMean
    | [x] => some (x, 1000)
    | _ => none
  harmonicMeanInt
    | [n] => some (n, 1)
    | _ => none
  zero := (0, 1000)
  formatMean m := if m.2 = 1 then decimal m.1 else exactFloat.format (threeDecimals m.1 m.2)
  float_line s := by rw [parseThousandths, parseThousandths, strip_line]
  float_format x := congrArg some (parseThousandths_format x)
  format_inline x := List.forall_mem_append.mpr
    ⟨fun _ hc => isInline_of_isPlain (isPlain_decimal hc), List.all_eq_true.mp rfl⟩

theorem statistics_exact_measuredRun :
    let out := .requestsPerSecond 1#32 :: printedAlong (.initial ⟨false, 0, false⟩) measuredRun
    ∃ type size writes, "userspace-256k".toList = type ++ '-' :: size ∧
      extract exactStatistics.toPyFloat "1-userspace-256k.log".toList (outputText exactFixed3 out) =
        some writes ∧
      compute exactStatistics (fileOf writes) (durationFile "userspace-256k".toList) =
        summary exactStatistics exactStatistics.harmonicMean
          ((collectAlong closedAt (.initial ⟨false, 0, false⟩) measuredRun).map fun now =>
            fixedValue exactStatistics now.inNs 1000000)
          ⟨durationMetric, type, size⟩ := by
  obtain ⟨type, size, writes, hbase, hextract, hduration, -⟩ :=
    statistics_exact exactStatistics "1-userspace-256k.log".toList "userspace-256k".toList
      (by decide +kernel) ⟨false, 0, false⟩ measuredRun
      (.requestsPerSecond 1#32 :: printedAlong (.initial ⟨false, 0, false⟩) measuredRun)
      (by unfold IsOutput; decide +kernel)
  exact ⟨type, size, writes, hbase, hextract, hduration⟩

end Equic.Experiments
