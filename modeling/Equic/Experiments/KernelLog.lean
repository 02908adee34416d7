import Equic.Experiments.Measurements
import Equic.Kern.Trace
import Equic.Kern.Verdict

/-!
# The log of the kernel

The messages of the XDP program come out of `trace_pipe`, each on a line that begins with the
task that was running and some words more; `make debug` keeps these lines in a log, and
`extract.py` takes the blocking times out of it. They stand in the seventh word of a line, if
the name of the task is one word. `extractLine_text` says what becomes of each line,
`kernel_measurements_exact` what becomes of a log, in which the lines of all processors are
mixed.
-/

namespace Equic.Experiments

open Equic.Foundation Equic.Foundation.Py Equic.Net Equic.Kern Equic.Server

/-! ## §1 Lines -/

/-- The value of a key for `%d`, on a host with the low byte first. -/
def keyInt (key : InAddr) : ℤ :=
  (BitVec.ofNat 32 (key.o1.toNat + 2 ^ 8 * key.o2.toNat + 2 ^ 16 * key.o3.toNat +
    2 ^ 24 * key.o4.toNat)).toInt

/-- `%llu` -/
def unsignedText (n : ℕ) : List Char := Nat.toDigits 10 n

/-- The text of a message. -/
def msgText : TraceMsg → List Char
  | .lookupMiss key =>
    "[XDP] UDP=true, Action=Pass, Status=LookupMiss, Key=".toList ++ decimal (keyInt key) ++ ['\n']
  | .quotaExceeded currValue =>
    "[XDP] Action=Drop, QuotaExceeded=".toList ++ unsignedText currValue.toNat ++ ['\n']
  | .blockDuration elapsedUs beginInNs endInNs =>
    "[XDP] BlockDuration=".toList ++ unsignedText elapsedUs.toNat ++ ", Begin=".toList ++
      unsignedText beginInNs.toNat ++ ", End=".toList ++ unsignedText endInNs.toNat ++ ['\n']
  | .lookupHit key =>
    "[XDP] Action=Pass, UDP=true, Status=LookupHit, Key=".toList ++ decimal (keyInt key) ++ ['\n']
  | .notUdp => "[XDP] Action=Pass, UDP=false".toList ++ ['\n']

/-- `comm`, the name of a task, without line ends. It has room for 15 characters and may have
    blanks. -/
structure TaskName where
  comm : List Char
  length_le : comm.length ≤ 15
  oneLine : '\n' ∉ comm ∧ '\r' ∉ comm

/-- A word that the kernel puts before a message: the flags, the time, the function. It has no
    'u', which all keys of the script have. -/
structure HeadWord where
  text : List Char
  ne_nil : text ≠ []
  word : ∀ c ∈ text, Py.isSpace c = false
  u_notMem : 'u' ∉ text

/-- A line of `trace_pipe`. -/
structure TraceLine where
  task : TaskName
  pid : ℕ
  cpu : ℕ
  flags : HeadWord
  time : HeadWord
  function : HeadWord
  msg : TraceMsg

/-- "[%03d]" -/
def cpuText (cpu : ℕ) : List Char := '[' :: decimal3 cpu ++ [']']

/-- The line as text: "%16s-%-7d [%03d] flags time function message". -/
def TraceLine.text (line : TraceLine) : List Char :=
  let comm := line.task.comm
  let pid := Nat.toDigits 10 line.pid
  List.replicate (16 - comm.length) ' ' ++ (comm ++ '-' :: pid ++ ' ' ::
    (List.replicate (7 - pid.length) ' ' ++ (cpuText line.cpu ++ ' ' :: (line.flags.text ++ ' ' ::
      (line.time.text ++ ' ' :: (line.function.text ++ ' ' :: msgText line.msg))))))

/-- The name of the task is one word. -/
def TraceLine.plain (line : TraceLine) : Bool :=
  (line.task.comm.dropWhile Py.isSpace).all fun c => !Py.isSpace c

/-! ## §2 Words that the script reads over -/

/-- A word without a key that the script knows. -/
def IsForeign (w : List Char) : Prop :=
  ∀ key, (split w '=')[0]? = some key →
    key ≠ requestDuration ∧ key ≠ requestsPerSecond ∧ key ≠ blockDuration

theorem isForeign_of_notMem {w : List Char} (h : 'u' ∉ w) : IsForeign w := by
  intro key hkey
  have hu : 'u' ∉ key := fun hmem => h ((split_getElem_zero_isInfix hkey).subset hmem)
  refine ⟨?_, ?_, ?_⟩
  all_goals
    rintro rfl
    exact hu (by decide)

theorem isForeign_of_append {key rest : List Char} (hkey : '=' ∉ key)
    (h : key ≠ requestDuration ∧ key ≠ requestsPerSecond ∧ key ≠ blockDuration) :
    IsForeign (key ++ '=' :: rest) := by
  intro key' hkey'
  rw [split_append_cons hkey, List.getElem?_cons_zero, Option.some.injEq] at hkey'
  exact hkey' ▸ h

/-- The keys are long and have no hyphen. -/
theorem length_key {key : List Char}
    (h : key = requestDuration ∨ key = requestsPerSecond ∨ key = blockDuration) :
    13 ≤ key.length ∧ '-' ∉ key ∧ '=' ∉ key := by
  obtain rfl | rfl | rfl := h <;> decide

/-- A short word has no key. -/
theorem isForeign_of_length {w : List Char} (h : w.length < 13) : IsForeign w := by
  intro key hkey
  have hle := (split_getElem_zero_isInfix hkey).length_le
  refine ⟨fun heq => ?_, fun heq => ?_, fun heq => ?_⟩
  · have hlong := (length_key (.inl heq)).1
    omega
  · have hlong := (length_key (.inr (.inl heq))).1
    omega
  · have hlong := (length_key (.inr (.inr heq))).1
    omega

/-- What stands before the first separator. -/
theorem eq_or_append_of_split {w key : List Char} {sep : Char}
    (h : (split w sep)[0]? = some key) : w = key ∨ ∃ rest, w = key ++ sep :: rest := by
  by_cases hsep : sep ∈ w
  · obtain ⟨a, b, rfl, ha⟩ := List.eq_append_cons_of_mem hsep
    rw [split_append_cons ha, List.getElem?_cons_zero, Option.some.injEq] at h
    exact .inr ⟨b, by rw [h]⟩
  · rw [split_of_notMem hsep, List.getElem?_cons_zero, Option.some.injEq] at h
    exact .inl h

/-- The end of a short name has no key with the number of the process behind it. -/
theorem isForeign_of_hyphen {s t : List Char} (hs : s.length ≤ 13) : IsForeign (s ++ '-' :: t) := by
  have hnone : ∀ key, (split (s ++ '-' :: t) '=')[0]? = some key →
      ¬ (key = requestDuration ∨ key = requestsPerSecond ∨ key = blockDuration) := by
    intro key hkey hknown
    obtain ⟨hlong, hhyphen, -⟩ := length_key hknown
    obtain heq | ⟨rest, heq⟩ := eq_or_append_of_split hkey
    · exact hhyphen (heq ▸ by simp)
    · -- the hyphen stands where the key or its separator is
      have hget : (s ++ '-' :: t)[s.length]? = some '-' := by simp
      rw [heq] at hget
      by_cases hlt : s.length < key.length
      · rw [List.getElem?_append_left hlt] at hget
        exact hhyphen (List.mem_of_getElem? hget)
      · have hlen : s.length = key.length := by omega
        rw [hlen, List.getElem?_append_right le_rfl, Nat.sub_self, List.getElem?_cons_zero] at hget
        cases hget
  intro key hkey
  have hknown := hnone key hkey
  push Not at hknown
  exact hknown

variable {fixed3 : Fixed3} {py : PyFloat fixed3} {base : List Char}

theorem IsForeign.extractField {w : List Char} (h : IsForeign w) :
    extractField py w base = some [] := by
  obtain ⟨key, hkey⟩ : ∃ key, (split w '=')[0]? = some key :=
    ⟨_, List.getElem?_eq_getElem (List.length_pos_of_ne_nil (List.splitOn_ne_nil _ _))⟩
  exact extractField_of_key hkey (h key hkey)

theorem IsForeign.extractCpuTime {w : List Char} (h : IsForeign w) :
    extractCpuTime py w base = some [] := by
  obtain ⟨key, hkey⟩ : ∃ key, (split w '=')[0]? = some key :=
    ⟨_, List.getElem?_eq_getElem (List.length_pos_of_ne_nil (List.splitOn_ne_nil _ _))⟩
  exact extractCpuTime_of_key py base hkey (h key hkey).2.2

/-! ## §3 The words of a line -/

theorem isSpace_of_toDigits {n : ℕ} {c : Char} (h : c ∈ Nat.toDigits 10 n) :
    Py.isSpace c = false :=
  isSpace_of_isDigit (Nat.isDigit_of_mem_toDigits (by omega) (by omega) h)

theorem isSpace_hyphen_pid (pid : ℕ) : ∀ c ∈ '-' :: Nat.toDigits 10 pid, Py.isSpace c = false :=
  List.forall_mem_cons.mpr ⟨rfl, fun _ hc => isSpace_of_toDigits hc⟩

/-- The words for the task: one, or several of which the script knows none. -/
theorem words_task {comm : List Char} (hlen : comm.length ≤ 15) (pid : ℕ) :
    let ws := words (comm ++ '-' :: Nat.toDigits 10 pid)
    if (comm.dropWhile Py.isSpace).all (fun c => !Py.isSpace c) then ∃ w, ws = [w]
    else ∃ w rest, ws = w :: rest ∧ rest ≠ [] ∧ ∀ v ∈ rest, IsForeign v := by
  dsimp only
  have htext := isSpace_hyphen_pid pid
  have hne : '-' :: Nat.toDigits 10 pid ≠ [] := List.cons_ne_nil _ _
  induction comm with
  | nil => exact ⟨_, words_of_forall htext hne⟩
  | cons c comm ih =>
    by_cases hc : Py.isSpace c = true
    · -- a blank in front
      rw [List.dropWhile_cons_of_pos hc, List.cons_append, words_space_cons hc]
      exact ih (by rw [List.length_cons] at hlen; omega)
    · rw [List.dropWhile_cons_of_neg hc]
      rw [Bool.not_eq_true] at hc
      obtain hall | ⟨a, d, b, heq, ha, hd⟩ := forall_or_first_space (c :: comm)
      · rw [if_pos (by simpa using hall)]
        exact ⟨_, words_of_forall (List.forall_mem_append.mpr ⟨hall, htext⟩) (by simp)⟩
      · have hinner : ¬ (c :: comm).all (fun x => !Py.isSpace x) = true := by
          rw [List.all_eq_true]
          intro hall
          have hblank := hall d (heq ▸ by simp)
          rw [hd] at hblank
          cases hblank
        rw [if_neg hinner]
        have hane : a ≠ [] := by
          rintro rfl
          obtain rfl : c = d := (List.cons.inj heq).1
          cases hc.symm.trans hd
        rw [heq, List.append_assoc, List.cons_append, words_cons ha hane hd]
        refine ⟨_, _, rfl, ?_, fun v hv => ?_⟩
        · exact words_ne_nil (List.mem_append_right b List.mem_cons_self) rfl
        · -- what is left of the name is too short for a key
          have hb : b.length ≤ 13 := by
            have hlength := congrArg List.length heq
            have hpos := List.length_pos_of_ne_nil hane
            rw [List.length_append, List.length_cons (a := d)] at hlength
            omega
          obtain hlt | ⟨s₁, hsuffix, rfl⟩ := length_lt_or_eq_append htext hne hv
          · exact isForeign_of_length (by omega)
          · exact isForeign_of_hyphen (hsuffix.length_le.trans hb)

/-- A message as the script sees it: a tag, a word that it is to read, and the rest. -/
structure HasWord (text w : List Char) : Prop where
  word : ∀ c ∈ w, Py.isSpace c = false
  ne_nil : w ≠ []
  exists_tail : ∃ c t, text = "[XDP]".toList ++ ' ' :: (w ++ c :: t) ∧ Py.isSpace c = true

theorem HasWord.words_eq {text w : List Char} (h : HasWord text w) :
    ∃ rest, words text = "[XDP]".toList :: w :: rest := by
  obtain ⟨c, t, rfl, hc⟩ := h.exists_tail
  have htag : ∀ c ∈ "[XDP]".toList, Py.isSpace c = false := isSpace_of_any rfl
  exact ⟨words t, by rw [words_cons htag (List.cons_ne_nil _ _) rfl, words_cons h.word h.ne_nil hc]⟩

theorem hasWord_blockDuration (elapsedUs beginInNs endInNs : UInt64) :
    HasWord (msgText (.blockDuration elapsedUs beginInNs endInNs))
      (blockDuration ++ '=' :: (unsignedText elapsedUs.toNat ++ [','])) where
  word := by
    have hkey : ∀ c ∈ blockDuration, Py.isSpace c = false := isSpace_of_any rfl
    simp only [List.forall_mem_append, List.forall_mem_cons]
    exact ⟨hkey, rfl, fun c hc => isSpace_of_toDigits hc, rfl, List.forall_mem_nil _⟩
  ne_nil := by simp
  exists_tail := by
    have hkey : "[XDP] BlockDuration=".toList =
        "[XDP]".toList ++ ' ' :: (blockDuration ++ ['=']) := rfl
    have hbegin : ", Begin=".toList = ',' :: ' ' :: "Begin=".toList := rfl
    refine ⟨' ', "Begin=".toList ++ (unsignedText beginInNs.toNat ++ (", End=".toList ++
      (unsignedText endInNs.toNat ++ ['\n']))), ?_, rfl⟩
    unfold msgText
    simp only [hkey, hbegin, List.append_assoc, List.cons_append, List.nil_append]

/-- A message with a key that the script does not know. -/
theorem exists_foreign {text : List Char} (key value t : List Char)
    (htext : text = "[XDP]".toList ++ ' ' :: (key ++ '=' :: (value ++ ' ' :: t)))
    (hkey : key.all Char.isAlpha = true) (hvalue : ∀ c ∈ value, Py.isSpace c = false)
    (hne : key ≠ requestDuration ∧ key ≠ requestsPerSecond ∧ key ≠ blockDuration) :
    ∃ w, HasWord text w ∧ IsForeign w := by
  have halpha : ∀ c ∈ key, c.isAlpha = true := List.all_eq_true.mp hkey
  have hequals : '=' ∉ key := by
    intro hmem
    cases halpha '=' hmem
  refine ⟨key ++ '=' :: value, ⟨?_, by simp, ' ', t, ?_, rfl⟩, isForeign_of_append hequals hne⟩
  · rw [List.forall_mem_append, List.forall_mem_cons]
    exact ⟨fun c hc => isSpace_of_isAlpha (halpha c hc), rfl, hvalue⟩
  · rw [htext]
    simp only [List.append_assoc, List.cons_append]

/-- The other messages have a word of another kind. -/
theorem hasWord_foreign {msg : TraceMsg} (h : msg.blockTime = none) :
    ∃ w, HasWord (msgText msg) w ∧ IsForeign w := by
  have hpass : ∀ c ∈ "Pass,".toList, Py.isSpace c = false := isSpace_of_any rfl
  have haction : "Action".toList ≠ requestDuration ∧ "Action".toList ≠ requestsPerSecond ∧
      "Action".toList ≠ blockDuration := by decide
  cases msg with
  | lookupMiss key =>
    have hlit : "[XDP] UDP=true, Action=Pass, Status=LookupMiss, Key=".toList = "[XDP]".toList ++
      ' ' :: ("UDP".toList ++ '=' :: ("true,".toList ++
        ' ' :: "Action=Pass, Status=LookupMiss, Key=".toList)) := rfl
    refine exists_foreign "UDP".toList "true,".toList
      ("Action=Pass, Status=LookupMiss, Key=".toList ++ (decimal (keyInt key) ++ ['\n']))
      ?_ rfl (isSpace_of_any rfl) (by decide)
    unfold msgText
    simp only [hlit, List.append_assoc, List.cons_append]
  | quotaExceeded currValue =>
    have hlit : "[XDP] Action=Drop, QuotaExceeded=".toList = "[XDP]".toList ++
      ' ' :: ("Action".toList ++ '=' :: ("Drop,".toList ++ ' ' :: "QuotaExceeded=".toList)) := rfl
    refine exists_foreign "Action".toList "Drop,".toList
      ("QuotaExceeded=".toList ++ (unsignedText currValue.toNat ++ ['\n']))
      ?_ rfl (isSpace_of_any rfl) haction
    unfold msgText
    simp only [hlit, List.append_assoc, List.cons_append]
  | blockDuration elapsedUs beginInNs endInNs => cases h
  | lookupHit key =>
    have hlit : "[XDP] Action=Pass, UDP=true, Status=LookupHit, Key=".toList = "[XDP]".toList ++
      ' ' :: ("Action".toList ++ '=' :: ("Pass,".toList ++
        ' ' :: "UDP=true, Status=LookupHit, Key=".toList)) := rfl
    refine exists_foreign "Action".toList "Pass,".toList
      ("UDP=true, Status=LookupHit, Key=".toList ++ (decimal (keyInt key) ++ ['\n']))
      ?_ rfl hpass haction
    unfold msgText
    simp only [hlit, List.append_assoc, List.cons_append]
  | notUdp =>
    have hlit : "[XDP] Action=Pass, UDP=false".toList = "[XDP]".toList ++
      ' ' :: ("Action".toList ++ '=' :: ("Pass,".toList ++ ' ' :: "UDP=false".toList)) := rfl
    refine exists_foreign "Action".toList "Pass,".toList
      ("UDP=false".toList ++ ['\n']) ?_ rfl hpass haction
    unfold msgText
    simp only [hlit, List.append_assoc, List.cons_append]

/-- The words of a line: those of the task, four more of the kernel, and the message. -/
theorem words_text (line : TraceLine) :
    words line.text = words (line.task.comm ++ '-' :: Nat.toDigits 10 line.pid) ++
      cpuText line.cpu :: line.flags.text :: line.time.text :: line.function.text ::
        words (msgText line.msg) := by
  have hcpu : ∀ c ∈ cpuText line.cpu, Py.isSpace c = false := by
    unfold cpuText
    simp only [List.forall_mem_append, List.forall_mem_cons]
    exact ⟨⟨rfl, fun c hc => isSpace_of_isPlain (isPlain_decimal3 hc)⟩, rfl, List.forall_mem_nil _⟩
  have hcpuNe : cpuText line.cpu ≠ [] := by simp [cpuText]
  unfold TraceLine.text
  dsimp only
  rw [words_blanks, words_append_cons _ _ rfl, words_blanks, words_cons hcpu hcpuNe rfl,
    words_cons line.flags.word line.flags.ne_nil rfl,
    words_cons line.time.word line.time.ne_nil rfl,
    words_cons line.function.word line.function.ne_nil rfl]

theorem u_notMem_cpuText (cpu : ℕ) : 'u' ∉ cpuText cpu := by
  intro h
  unfold cpuText at h
  obtain h | h := List.mem_append.mp h
  · obtain h | h := List.mem_cons.mp h
    · cases h
    · cases isPlain_decimal3 h
  · cases List.mem_singleton.mp h

/-! ## §4 What the script makes of a line -/

/-- What Python reads from digits: the number, and which of them are positive. -/
structure PyNumber (fixed3 : Fixed3) extends PyFloat fixed3 where
  ofNat : ℕ → Num
  float_toDigits : ∀ n, float (Nat.toDigits 10 n) = some (ofNat n)
  positive_ofNat : ∀ n, positive (ofNat n) = decide (0 < n)

/-- The line for a blocking time, if it is at least a microsecond. -/
def timeWrites (py : PyNumber fixed3) (base : List Char) (elapsedUs : UInt64) : List Write :=
  if 0 < elapsedUs.toNat then
    [⟨blockFile base, py.format (py.ofNat elapsedUs.toNat) ++ ['\n']⟩]
  else []

theorem extractCpuTime_blockDuration (py : PyNumber fixed3) (elapsedUs : UInt64) :
    extractCpuTime py.toPyFloat
        (blockDuration ++ '=' :: (unsignedText elapsedUs.toNat ++ [','])) base =
      some (timeWrites py base elapsedUs) := by
  have hvalue : '=' ∉ unsignedText elapsedUs.toNat ++ [','] := by
    intro h
    obtain h | h := List.mem_append.mp h
    · cases isPlain_toDigits h
    · cases List.mem_singleton.mp h
  have hkey : '=' ∉ blockDuration := by decide
  have hsplit := split_field hkey hvalue
  simp only [extractCpuTime, hsplit, Option.bind_eq_bind, Option.bind_some,
    List.getElem?_cons_zero]
  rw [if_neg (not_not.mpr rfl)]
  simp only [List.getElem?_cons_succ, List.getElem?_cons_zero, Option.bind_some,
    List.dropLast_concat, unsignedText, py.float_toDigits, py.positive_ofNat, decide_eq_true_eq]
  rfl

theorem HeadWord.isForeign (w : HeadWord) : IsForeign w.text := isForeign_of_notMem w.u_notMem

/-- **One line of the trace**: the script takes the time out of it if there is one and the name
    of the task is one word, and reads over it otherwise. It never stumbles. -/
theorem extractLine_text (py : PyNumber fixed3) (base : List Char) (line : TraceLine) :
    extractLine py.toPyFloat base line.text =
      some (if line.plain then line.msg.blockTime.toList.flatMap (timeWrites py base) else []) := by
  have htask := words_task line.task.length_le line.pid
  have hwords := words_text line
  obtain ⟨w, rest, hmsg, hw⟩ : ∃ w rest, words (msgText line.msg) = "[XDP]".toList :: w :: rest ∧
      extractCpuTime py.toPyFloat w base =
        some (line.msg.blockTime.toList.flatMap (timeWrites py base)) := by
    cases htime : line.msg.blockTime with
    | none =>
      obtain ⟨w, hw, hforeign⟩ := hasWord_foreign htime
      obtain ⟨rest, hrest⟩ := hw.words_eq
      exact ⟨w, rest, hrest, hforeign.extractCpuTime⟩
    | some elapsedUs =>
      obtain ⟨beginInNs, endInNs, heq⟩ := TraceMsg.exists_of_blockTime htime
      obtain ⟨rest, hrest⟩ := (hasWord_blockDuration elapsedUs beginInNs endInNs).words_eq
      rw [heq]
      refine ⟨_, rest, hrest, ?_⟩
      rw [extractCpuTime_blockDuration, Option.toList_some, List.flatMap_singleton]
  rw [hmsg] at hwords
  have hcpu : IsForeign (cpuText line.cpu) := isForeign_of_notMem (u_notMem_cpuText line.cpu)
  have htag : IsForeign "[XDP]".toList := isForeign_of_notMem (by decide)
  by_cases hplain : line.plain = true
  · rw [if_pos hplain]
    rw [TraceLine.plain] at hplain
    dsimp only at htask
    rw [if_pos hplain] at htask
    obtain ⟨task, htask⟩ := htask
    rw [htask] at hwords
    simp only [extractLine, hwords, extractKernel]
    simp [hcpu.extractField, hw]
  · rw [if_neg hplain]
    rw [TraceLine.plain] at hplain
    dsimp only at htask
    rw [if_neg hplain] at htask
    obtain ⟨task, more, htask, hmore, hforeign⟩ := htask
    rw [htask] at hwords
    -- the second word is still of the task, and the seventh comes before that of the message
    obtain ⟨front, hfront⟩ : ∃ front, front = more ++ [cpuText line.cpu, line.flags.text,
        line.time.text, line.function.text, "[XDP]".toList] := ⟨_, rfl⟩
    have hall : ∀ v ∈ front, IsForeign v := by
      rw [hfront]
      simp only [List.forall_mem_append, List.forall_mem_cons]
      exact ⟨hforeign, hcpu, line.flags.isForeign, line.time.isForeign, line.function.isForeign,
        htag, List.forall_mem_nil _⟩
    have hdata : words line.text = task :: (front ++ w :: rest) := by
      rw [hwords, hfront]
      simp
    have hlen : 6 ≤ front.length := by
      have hpos := List.length_pos_of_ne_nil hmore
      rw [hfront, List.length_append]
      exact Nat.add_le_add_right hpos 5
    have hget : ∀ i, i < 6 → ∃ v, (front ++ w :: rest)[i]? = some v ∧ IsForeign v := by
      intro i hi
      refine ⟨front[i], ?_, hall _ (List.getElem_mem _)⟩
      rw [List.getElem?_append_left (by omega), List.getElem?_eq_getElem]
    obtain ⟨v₁, hv₁, hsecond⟩ := hget 0 (by omega)
    obtain ⟨v₆, hv₆, hseventh⟩ := hget 5 (by omega)
    have hkernel : extractKernel py.toPyFloat (words line.text) base = some [] := by
      unfold extractKernel
      split
      · rw [hdata, List.getElem?_cons_succ, hv₆, Option.bind_some, hseventh.extractCpuTime]
      · rfl
    have hfield : (words line.text)[1]? = some v₁ := by
      rw [hdata, List.getElem?_cons_succ, hv₁]
    simp only [extractLine, hfield, hkernel, Option.bind_eq_bind, Option.bind_some,
      hsecond.extractField, List.append_nil]

/-! ## §5 The log of all processors -/

/-- A message is on one line. -/
theorem exists_body_msgText (msg : TraceMsg) :
    ∃ body, msgText msg = body ++ ['\n'] ∧ ∀ c ∈ body, isInline c = true := by
  have hdecimal : ∀ n : ℤ, ∀ c ∈ decimal n, isInline c = true := fun n c hc =>
    isInline_of_isPlain (isPlain_decimal hc)
  have hunsigned : ∀ n : ℕ, ∀ c ∈ unsignedText n, isInline c = true := fun n c hc =>
    isInline_of_isPlain (isPlain_toDigits hc)
  cases msg with
  | lookupMiss key =>
    refine ⟨_, rfl, List.forall_mem_append.mpr ⟨List.all_eq_true.mp rfl, hdecimal _⟩⟩
  | quotaExceeded currValue =>
    refine ⟨_, rfl, List.forall_mem_append.mpr ⟨List.all_eq_true.mp rfl, hunsigned _⟩⟩
  | blockDuration elapsedUs beginInNs endInNs =>
    have hkey : ∀ c ∈ "[XDP] BlockDuration=".toList, isInline c = true := List.all_eq_true.mp rfl
    have hbegin : ∀ c ∈ ", Begin=".toList, isInline c = true := List.all_eq_true.mp rfl
    have hend : ∀ c ∈ ", End=".toList, isInline c = true := List.all_eq_true.mp rfl
    refine ⟨_, rfl, ?_⟩
    simp only [List.forall_mem_append]
    exact ⟨⟨⟨⟨⟨hkey, hunsigned _⟩, hbegin⟩, hunsigned _⟩, hend⟩, hunsigned _⟩
  | lookupHit key =>
    refine ⟨_, rfl, List.forall_mem_append.mpr ⟨List.all_eq_true.mp rfl, hdecimal _⟩⟩
  | notUdp => exact ⟨_, rfl, List.all_eq_true.mp rfl⟩

/-- A line of the trace is one line of the file. -/
theorem TraceLine.exists_body (line : TraceLine) :
    ∃ body, line.text = body ++ ['\n'] ∧ '\n' ∉ body ∧ '\r' ∉ body := by
  obtain ⟨body, hbody, hinline⟩ := exists_body_msgText line.msg
  have hblanks : ∀ n, ∀ c ∈ List.replicate n ' ', isInline c = true := by
    intro n c hc
    rw [List.eq_of_mem_replicate hc]
    rfl
  have hcomm : ∀ c ∈ line.task.comm, isInline c = true := by
    intro c hc
    rw [isInline, Bool.and_eq_true, decide_eq_true_eq, decide_eq_true_eq]
    exact ⟨fun heq => line.task.oneLine.1 (heq ▸ hc), fun heq => line.task.oneLine.2 (heq ▸ hc)⟩
  have hpid : ∀ c ∈ Nat.toDigits 10 line.pid, isInline c = true := fun c hc =>
    isInline_of_isPlain (isPlain_toDigits hc)
  have hcpu : ∀ c ∈ cpuText line.cpu, isInline c = true := by
    unfold cpuText
    simp only [List.forall_mem_append, List.forall_mem_cons]
    exact ⟨⟨rfl, fun c hc => isInline_of_isPlain (isPlain_decimal3 hc)⟩, rfl, List.forall_mem_nil _⟩
  have hword : ∀ w : HeadWord, ∀ c ∈ w.text, isInline c = true := fun w c hc =>
    isInline_of_isSpace (w.word c hc)
  obtain ⟨whole, hwhole, hall⟩ :
      ∃ whole, line.text = whole ++ ['\n'] ∧ ∀ c ∈ whole, isInline c = true := by
    unfold TraceLine.text
    dsimp only
    rw [hbody]
    simp only [← List.append_assoc, ← List.cons_append]
    refine ⟨_, rfl, ?_⟩
    simp only [List.forall_mem_append, List.forall_mem_cons]
    exact ⟨⟨⟨⟨⟨⟨⟨⟨hblanks _, hcomm⟩, rfl, hpid⟩, rfl, hblanks _⟩, hcpu⟩, rfl, hword _⟩, rfl,
      hword _⟩, rfl, hword _⟩, rfl, hinline⟩
  refine ⟨whole, hwhole, fun hmem => ?_, fun hmem => ?_⟩
  · cases hall _ hmem
  · cases hall _ hmem

/-- The log as a text. -/
def traceText (out : List TraceLine) : List Char := (out.map TraceLine.text).flatten

/-- The lines of all processors, mixed: those of each one have the messages of its own frames, in
    their order. -/
def IsTrace (frames : ℕ → List Passage) (out : List TraceLine) : Prop :=
  ∀ cpu, (out.filter (·.cpu = cpu)).map TraceLine.msg = (frames cpu).flatMap Passage.traced

/-- The times of the frames that a processor drops, as they stand in the log. -/
theorem IsTrace.blockTimes {frames : ℕ → List Passage} {out : List TraceLine}
    (h : IsTrace frames out) (cpu : ℕ) :
    (out.filter (·.cpu = cpu)).filterMap (fun line => line.msg.blockTime) =
      (frames cpu).flatMap Passage.dropTime := by
  have hmap : (out.filter (·.cpu = cpu)).filterMap (fun line => line.msg.blockTime) =
      ((out.filter (·.cpu = cpu)).map TraceLine.msg).filterMap TraceMsg.blockTime := by
    rw [List.filterMap_map]
    rfl
  rw [hmap, h cpu, List.filterMap_flatMap]
  congr 1
  funext p
  exact p.blockTimes_traced

/-- The blocking times that the script can read: those on the lines of tasks with one word. -/
def readableTimes (out : List TraceLine) : List UInt64 :=
  (out.filter TraceLine.plain).filterMap fun line => line.msg.blockTime

/-- **The blocking times of the kernel.** For every log, with any frames on any number of
    processors, the lines of which are mixed in any way, and with any names of tasks: the script
    raises no exception, and extracts the blocking times of the dropped frames that took a
    microsecond or more, in the order of the log and each once, except for those that stand
    behind the name of a task with a blank in it. -/
theorem kernel_measurements_exact (py : PyNumber fixed3) (log base : List Char)
    (hbase : baseName log = some base) (frames : ℕ → List Passage) (out : List TraceLine)
    (hout : IsTrace frames out) :
    extract py.toPyFloat log (traceText out) =
        some ((readableTimes out).flatMap (timeWrites py base)) ∧
      ∀ cpu, (out.filter (·.cpu = cpu)).filterMap (fun line => line.msg.blockTime) =
        (frames cpu).flatMap Passage.dropTime := by
  refine ⟨?_, hout.blockTimes⟩
  clear hout
  have hlines : lines (universalNewlines (traceText out)) = out.map TraceLine.text := by
    apply lines_flatten
    intro text htext
    obtain ⟨line, -, rfl⟩ := List.mem_map.mp htext
    exact line.exists_body
  rw [extract_eq hbase hlines fun line _ => extractLine_text py base line]
  clear hlines
  congr 1
  induction out with
  | nil => rfl
  | cons line out ih =>
    rw [List.flatMap_cons, ih, readableTimes, readableTimes, List.filter_cons]
    split
    · rw [List.filterMap_cons]
      cases line.msg.blockTime with
      | none => rfl
      | some elapsedUs => simp
    · rfl

/-- Python on numbers with three decimals, and on whole ones. -/
def exactNumber : PyNumber exactFixed3 where
  Num := List Char
  float := some
  positive s := s.head? ≠ some '-' && decide (0 < Nat.ofDigitChars 10 (s.filter Char.isDigit) 0)
  format s := if '.' ∈ s then exactFloat.format s else s ++ ".0".toList
  float_fixed3 := exactFloat.float_fixed3
  ofNat := Nat.toDigits 10
  float_toDigits _ := rfl
  positive_ofNat n := by
    have hdigits : ∀ c ∈ Nat.toDigits 10 n, c.isDigit = true := fun c hc =>
      Nat.isDigit_of_mem_toDigits (by omega) (by omega) hc
    have hfirst : (Nat.toDigits 10 n).head? ≠ some '-' := by
      intro h
      cases hdigits '-' (List.mem_of_head? h)
    rw [List.filter_eq_self.mpr hdigits, Nat.ofDigitChars_ten_toDigits, decide_eq_true hfirst,
      Bool.true_and]

/-- A frame from 10.0.0.1, which has five connections: it takes 3.5 microseconds. -/
def droppedPassage : Passage := ⟨udpFrame ⟨10, 0, 0, 1⟩, fiveFromOne, 1000, 4500⟩

/-- It is the only one, on the first processor. -/
def droppedFrames : ℕ → List Passage
  | 0 => [droppedPassage]
  | _ + 1 => []

/-- A word of the kernel. -/
def headWord (w : List Char) (hne : w ≠ []) (hword : w.any Py.isSpace = false)
    (hu : 'u' ∉ w) : HeadWord := ⟨w, hne, isSpace_of_any hword, hu⟩

/-- The line for a message of the first processor, with this task. -/
def traceLine (task : TaskName) (msg : TraceMsg) : TraceLine where
  task := task
  pid := 0
  cpu := 0
  flags := headWord "..s.".toList (by decide) rfl (by decide)
  time := headWord "12.345678:".toList (by decide) rfl (by decide)
  function := headWord "bpf_trace_printk:".toList (by decide) rfl (by decide)
  msg := msg

/-- Its log, with the time behind the name of the idle task. -/
def droppedLog : List TraceLine :=
  droppedPassage.traced.map (traceLine ⟨"<idle>".toList, by decide, by decide⟩)

theorem kernel_measurements_exact_droppedLog :
    extract exactNumber.toPyFloat "1-kernel-256k.log".toList (traceText droppedLog) =
        some ((readableTimes droppedLog).flatMap (timeWrites exactNumber "kernel-256k".toList)) ∧
      ∀ cpu, (droppedLog.filter (·.cpu = cpu)).filterMap (fun line => line.msg.blockTime) =
        (droppedFrames cpu).flatMap Passage.dropTime := by
  have hcpu : ∀ line ∈ droppedLog, line.cpu = 0 := by
    intro line hline
    obtain ⟨msg, -, rfl⟩ := List.mem_map.mp hline
    rfl
  apply kernel_measurements_exact exactNumber _ _ (by decide +kernel) droppedFrames
  intro cpu
  cases cpu with
  | zero =>
    rw [List.filter_eq_self.mpr (by simpa using hcpu), droppedLog, List.map_map]
    simp [Function.comp_def, traceLine, droppedFrames]
  | succ cpu =>
    rw [List.filter_eq_nil_iff.mpr fun line hline => by simp [hcpu line hline]]
    rfl

end Equic.Experiments
