import Equic.Foundation.PyText
import Equic.Server.Stdout

/-!
# Extracting measurements from a log

`extract.py` takes the durations, the reports and the blocking times out of a log and appends
them to one file for each. It looks at the second word of a line, and for the logs of the
kernel at the seventh one. Here it is read against the lines that the server prints:
`extractLine_text` says for each of them what the script appends.
-/

namespace Equic.Experiments

open Equic.Foundation Equic.Foundation.Py Equic.Net Equic.Server Equic.User

/-! ## §1 The script -/

/-- Python's `float`: `float(s)`, of which `none` is a `ValueError`, the test `x > 0.0`, and
    `"{0}".format(x)`. It reads what `printf` prints. -/
structure PyFloat (fixed3 : Fixed3) where
  Num : Type
  float : List Char → Option Num
  positive : Num → Bool
  format : Num → List Char
  float_fixed3 : ∀ n d, (float (fixed3.text n d)).isSome

/-- A line that is appended to a file. -/
structure Write where
  file : List Char
  line : List Char
  deriving DecidableEq, Repr

/-- The keys that the script looks for. -/
def requestDuration : List Char := "RequestDuration".toList

def requestsPerSecond : List Char := "RequestsPerSecond".toList

def blockDuration : List Char := "BlockDuration".toList

/-- `OUT_DIR` -/
def outDir : List Char := "in/".toList

/-- `OUT_DIR + metric + base_name + ".dat"` -/
def ofilename (metric baseName : List Char) : List Char :=
  outDir ++ metric ++ baseName ++ ".dat".toList

def durationFile (baseName : List Char) : List Char := ofilename "duration-".toList baseName

def requestsFile (baseName : List Char) : List Char := ofilename "reqs_per_second-".toList baseName

def blockFile (baseName : List Char) : List Char := ofilename "block_duration-".toList baseName

variable {fixed3 : Fixed3}

/-- `extract_request_time`; `none` is an exception. -/
def extractRequestTime (data baseName : List Char) : Option (List Write) := do
  let splitted := split data '='
  let key ← splitted[0]?
  if key ≠ requestDuration then some []
  else
    let value ← splitted[1]?
    some [⟨durationFile baseName, value.dropLast ++ ['\n']⟩]

/-- `extract_requests_per_second` -/
def extractRequestsPerSecond (data baseName : List Char) : Option (List Write) := do
  let splitted := split data '='
  let key ← splitted[0]?
  if key ≠ requestsPerSecond then some []
  else
    let value ← splitted[1]?
    let n ← int value
    some (if n > 0 then [⟨requestsFile baseName, value ++ ['\n']⟩] else [])

/-- `extract_cpu_time` -/
def extractCpuTime (py : PyFloat fixed3) (data baseName : List Char) : Option (List Write) := do
  let splitted := split data '='
  let key ← splitted[0]?
  if key ≠ blockDuration then some []
  else
    let value ← splitted[1]?
    let x ← py.float value.dropLast
    some (if py.positive x then [⟨blockFile baseName, py.format x ++ ['\n']⟩] else [])

/-- The three functions on the second word of a line. -/
def extractField (py : PyFloat fixed3) (data baseName : List Char) : Option (List Write) := do
  let times ← extractRequestTime data baseName
  let requests ← extractRequestsPerSecond data baseName
  let blocks ← extractCpuTime py data baseName
  some (times ++ requests ++ blocks)

/-- The seventh word, where the logs of the kernel have their durations. -/
def extractKernel (py : PyFloat fixed3) (data : List (List Char)) (baseName : List Char) :
    Option (List Write) :=
  if data.length > 6 then data[6]?.bind (extractCpuTime py · baseName) else some []

/-- The body of the loop in `extract`. -/
def extractLine (py : PyFloat fixed3) (baseName line : List Char) : Option (List Write) := do
  let data := words line
  let field ← data[1]?
  let writes ← extractField py field baseName
  let kernel ← extractKernel py data baseName
  some (writes ++ kernel)

/-- `base_name`, from the name of the log -/
def baseName (log : List Char) : Option (List Char) := do
  let testType ← fromEnd (split log '-') 2
  let last ← fromEnd (split log '-') 1
  some (testType ++ '-' :: last.take (last.length - 4))

/-- `extract`: everything that it writes, or `none` if it raises an exception. -/
def extract (py : PyFloat fixed3) (log text : List Char) : Option (List Write) := do
  let baseName ← baseName log
  let writes ← (lines (universalNewlines text)).mapM (extractLine py baseName)
  some writes.flatten

/-- What is known of each line is known of the file. -/
theorem extract_eq {α : Type*} {py : PyFloat fixed3} {log base text : List Char}
    (hbase : baseName log = some base) {render : α → List Char} {g : α → List Write}
    {items : List α} (hlines : lines (universalNewlines text) = items.map render)
    (h : ∀ a ∈ items, extractLine py base (render a) = some (g a)) :
    extract py log text = some (items.flatMap g) := by
  have hmap : (items.map render).mapM (extractLine py base) = some (items.map g) := by
    clear hlines
    induction items with
    | nil => rfl
    | cons a items ih =>
      obtain ⟨ha, hrest⟩ := List.forall_mem_cons.mp h
      rw [List.map_cons, List.mapM_cons, ha, ih hrest]
      rfl
  simp only [extract, hbase, hlines, hmap, Option.bind_eq_bind, Option.bind_some]
  rw [List.flatMap_def]

/-! ## §2 Fields -/

section Fields

variable (py : PyFloat fixed3) (base : List Char)

variable {py base} in
theorem extractField_of_key {data key : List Char} (hsplit : (split data '=')[0]? = some key)
    (hkey : key ≠ requestDuration ∧ key ≠ requestsPerSecond ∧ key ≠ blockDuration) :
    extractField py data base = some [] := by
  simp only [extractField, extractRequestTime, extractRequestsPerSecond, extractCpuTime, hsplit,
    Option.bind_eq_bind, Option.bind_some]
  rw [if_pos hkey.1, if_pos hkey.2.1, if_pos hkey.2.2]
  rfl

theorem extractCpuTime_of_key {data key : List Char} (hsplit : (split data '=')[0]? = some key)
    (hkey : key ≠ blockDuration) : extractCpuTime py data base = some [] := by
  simp only [extractCpuTime, hsplit, Option.bind_eq_bind, Option.bind_some]
  exact if_pos hkey

/-- A field of the form "key=value". -/
theorem split_field {key value : List Char} (hkey : '=' ∉ key) (hvalue : '=' ∉ value) :
    split (key ++ '=' :: value) '=' = [key, value] := by
  rw [split_append_cons hkey, split_of_notMem hvalue]

theorem extractField_requestDuration {value : List Char} (hvalue : '=' ∉ value) :
    extractField py (requestDuration ++ '=' :: (value ++ [','])) base =
      some [⟨durationFile base, value ++ ['\n']⟩] := by
  have hsplit : split (requestDuration ++ '=' :: (value ++ [','])) '=' =
      [requestDuration, value ++ [',']] := split_field (by decide) (by simpa using hvalue)
  simp only [extractField, extractRequestTime, extractRequestsPerSecond, extractCpuTime, hsplit,
    Option.bind_eq_bind, Option.bind_some, List.getElem?_cons_zero]
  rw [if_neg (not_not.mpr rfl), if_pos (by decide), if_pos (by decide)]
  simp only [List.getElem?_cons_succ, List.getElem?_cons_zero, Option.bind_some,
    List.dropLast_concat]
  rfl

theorem int_decimal (n : ℤ) : int (decimal n) = some n := by
  have hdigits : ∀ c ∈ Nat.toDigits 10 n.natAbs, c.isDigit = true := fun c hc =>
    Nat.isDigit_of_mem_toDigits (by omega) (by omega) hc
  have hne : Nat.toDigits 10 n.natAbs ≠ [] := Nat.toDigits_ne_nil
  obtain ⟨hplain, hminus⟩ := int_digits hdigits hne
  rw [Nat.ofDigitChars_ten_toDigits] at hplain hminus
  unfold decimal
  split
  · rw [hminus]
    congr 1
    omega
  · rw [hplain]
    congr 1
    omega

theorem extractField_requestsPerSecond (n : ℤ) :
    extractField py (requestsPerSecond ++ '=' :: decimal n) base =
      some (if n > 0 then [⟨requestsFile base, decimal n ++ ['\n']⟩] else []) := by
  have hsplit : split (requestsPerSecond ++ '=' :: decimal n) '=' =
      [requestsPerSecond, decimal n] := by
    apply split_field (by decide)
    intro h
    cases isPlain_decimal h
  simp only [extractField, extractRequestTime, extractRequestsPerSecond, extractCpuTime, hsplit,
    Option.bind_eq_bind, Option.bind_some, List.getElem?_cons_zero]
  rw [if_pos (by decide), if_neg (not_not.mpr rfl), if_pos (by decide)]
  simp only [List.getElem?_cons_succ, List.getElem?_cons_zero, Option.bind_some, int_decimal,
    List.nil_append, List.append_nil]

theorem extractField_blockDuration {value : List Char} (hvalue : '=' ∉ value) :
    extractField py (blockDuration ++ '=' :: (value ++ [','])) base =
      (py.float value).map fun x =>
        if py.positive x then [⟨blockFile base, py.format x ++ ['\n']⟩] else [] := by
  have hsplit : split (blockDuration ++ '=' :: (value ++ [','])) '=' =
      [blockDuration, value ++ [',']] := split_field (by decide) (by simpa using hvalue)
  simp only [extractField, extractRequestTime, extractRequestsPerSecond, extractCpuTime, hsplit,
    Option.bind_eq_bind, Option.bind_some, List.getElem?_cons_zero]
  rw [if_pos (by decide), if_pos (by decide), if_neg (not_not.mpr rfl)]
  simp only [List.getElem?_cons_succ, List.getElem?_cons_zero, Option.bind_some,
    List.dropLast_concat, List.nil_append]
  cases py.float value <;> rfl

end Fields

/-! ## §3 Lines -/

/-- A character that ends no line. -/
def isInline (c : Char) : Bool := c ≠ '\n' && c ≠ '\r'

/-- A character that the script cannot stumble over behind the second word of a line: it ends
    no line, and it is not the letter of "BlockDuration" that the rest of the line does without. -/
def isHarmless (letter c : Char) : Bool := isInline c && c ≠ letter

/-- A line with this second word, as the script sees it. -/
structure HasField (line w : List Char) : Prop where
  word : ∀ c ∈ w, Py.isSpace c = false
  exists_tail : ∃ tail, line = "[eQUIC] ".toList ++ (w ++ (tail ++ ['\n'])) ∧
    (tail = [] ∨ ∃ c t, tail = c :: t ∧ Py.isSpace c = true) ∧
    ∃ letter ∈ blockDuration, ∀ c ∈ tail, isHarmless letter c = true

theorem isInline_of_isSpace {c : Char} (h : Py.isSpace c = false) : isInline c = true := by
  rw [isInline, Bool.and_eq_true, decide_eq_true_eq, decide_eq_true_eq]
  constructor
  all_goals
    rintro rfl
    cases h

theorem isSpace_of_isPlain {c : Char} (h : isPlain c = true) : Py.isSpace c = false := by
  simp only [isPlain, Bool.or_eq_true, decide_eq_true_eq] at h
  obtain (h | rfl) | rfl := h
  · exact isSpace_of_isDigit h
  · rfl
  · rfl

theorem isInline_of_isPlain {c : Char} (h : isPlain c = true) : isInline c = true :=
  isInline_of_isSpace (isSpace_of_isPlain h)

/-- Numbers and addresses have no letters. -/
theorem isHarmless_of_isPlain {c letter : Char} (hletter : isPlain letter = false)
    (h : isPlain c = true) : isHarmless letter c = true := by
  rw [isHarmless, Bool.and_eq_true, decide_eq_true_eq]
  refine ⟨isInline_of_isPlain h, ?_⟩
  rintro rfl
  rw [hletter] at h
  cases h

theorem isHarmless_k_of_isPlain {c : Char} (h : isPlain c = true) : isHarmless 'k' c = true :=
  isHarmless_of_isPlain rfl h

/-- The words of such a line. -/
theorem HasField.words_eq {line w : List Char} (h : HasField line w) (hne : w ≠ []) :
    ∃ rest, words line = "[eQUIC]".toList :: w :: rest ∧
      ∃ letter ∈ blockDuration, ∀ d ∈ rest, letter ∉ d := by
  obtain ⟨tail, rfl, hstart, letter, hletter, hharmless⟩ := h.exists_tail
  have hmissing : letter ∉ tail := by
    intro hmem
    simpa [isHarmless] using hharmless letter hmem
  -- the break behind the word is the end of the line, or the first character of the tail
  obtain ⟨c, t, htail, hspace, hmissing⟩ : ∃ c t, tail ++ ['\n'] = c :: t ∧
      Py.isSpace c = true ∧ letter ∉ t := by
    obtain rfl | ⟨c, t, rfl, hc⟩ := hstart
    · exact ⟨'\n', [], rfl, rfl, List.not_mem_nil⟩
    · refine ⟨c, t ++ ['\n'], rfl, hc, ?_⟩
      have hbreak : letter ≠ '\n' := by
        rintro rfl
        exact absurd hletter (by decide)
      have ht : letter ∉ t := fun hmem => hmissing (List.mem_cons_of_mem c hmem)
      simpa [hbreak] using ht
  have hwords : Py.words ("[eQUIC] ".toList ++ (w ++ (tail ++ ['\n']))) =
      "[eQUIC]".toList :: w :: Py.words t := by
    rw [htail, ← words_cons h.word hne hspace]
    have htag : ∀ c ∈ "[eQUIC]".toList, Py.isSpace c = false := isSpace_of_any rfl
    exact words_cons htag (List.cons_ne_nil _ _) rfl
  refine ⟨Py.words t, hwords, letter, hletter, fun d hd hmem => ?_⟩
  exact hmissing ((isInfix_of_mem_words hd).subset hmem)

variable {py : PyFloat fixed3} {base : List Char}

/-- The script looks at the second word only. -/
theorem HasField.extractLine {line w : List Char} (h : HasField line w) (hne : w ≠ []) :
    extractLine py base line = extractField py w base := by
  obtain ⟨rest, hwords, letter, hletter, hmissing⟩ := h.words_eq hne
  have hkernel : extractKernel py (words line) base = some [] := by
    unfold extractKernel
    split
    · rename_i hlen
      obtain ⟨d, hd⟩ : ∃ d, (words line)[6]? = some d :=
        ⟨_, List.getElem?_eq_getElem hlen⟩
      obtain ⟨key, hkey⟩ : ∃ key, (split d '=')[0]? = some key :=
        ⟨_, List.getElem?_eq_getElem (List.length_pos_of_ne_nil (List.splitOn_ne_nil _ _))⟩
      rw [hd, Option.bind_some]
      apply extractCpuTime_of_key _ _ hkey
      rintro rfl
      -- the seventh word comes from behind the second one
      rw [hwords] at hd
      have hmem : d ∈ rest := List.mem_of_getElem? (i := 4) (by simpa using hd)
      exact hmissing d hmem ((split_getElem_zero_isInfix hkey).subset hletter)
    · rfl
  have hfield : (words line)[1]? = some w := by rw [hwords]; rfl
  simp only [Experiments.extractLine, hfield, hkernel, Option.bind_eq_bind, Option.bind_some]
  cases extractField py w base with
  | none => rfl
  | some writes =>
    simp only [Option.bind_some, List.append_nil]

/-- The script finds its word in a line, and what it appends for it. -/
def Extracts (py : PyFloat fixed3) (base line : List Char) (writes : List Write) : Prop :=
  ∃ w, HasField line w ∧ w ≠ [] ∧ extractField py w base = some writes

/-- A key is of letters. -/
def IsKey (key : List Char) : Prop := key.all Char.isAlpha = true

instance (key : List Char) : Decidable (IsKey key) :=
  inferInstanceAs (Decidable (key.all Char.isAlpha = true))

theorem IsKey.isSpace {key : List Char} (h : IsKey key) : ∀ c ∈ key, Py.isSpace c = false :=
  fun c hc => isSpace_of_isAlpha (List.all_eq_true.mp h c hc)

theorem IsKey.equalsSign_notMem {key : List Char} (h : IsKey key) : '=' ∉ key := by
  intro hmem
  cases List.all_eq_true.mp h '=' hmem

/-- The script reads over a line with a key that it does not know. -/
theorem extracts_of_key (key : List Char) (letter : Char) {t line : List Char} (hkey : IsKey key)
    (hother : key ≠ requestDuration ∧ key ≠ requestsPerSecond ∧ key ≠ blockDuration)
    (hline : line = "[eQUIC] ".toList ++ (key ++ ('=' :: t ++ ['\n'])))
    (hletter : letter ∈ blockDuration) (ht : ∀ c ∈ t, isHarmless letter c = true) :
    Extracts py base line [] := by
  -- the second word goes to the first blank of the text, or to its end
  obtain ⟨value, tail, rfl, hvalue, htail⟩ : ∃ value tail, t = value ++ tail ∧
      (∀ c ∈ value, Py.isSpace c = false) ∧
      (tail = [] ∨ ∃ c r, tail = c :: r ∧ Py.isSpace c = true) := by
    obtain hall | ⟨a, c, b, rfl, ha, hc⟩ := forall_or_first_space t
    · exact ⟨t, [], (List.append_nil t).symm, hall, .inl rfl⟩
    · exact ⟨a, c :: b, rfl, ha, .inr ⟨c, b, rfl, hc⟩⟩
  have hsplit : (split (key ++ '=' :: value) '=')[0]? = some key := by
    rw [split_append_cons hkey.equalsSign_notMem, List.getElem?_cons_zero]
  refine ⟨key ++ '=' :: value, ⟨?_, tail, ?_, htail, letter, hletter, ?_⟩, ?_,
    extractField_of_key hsplit hother⟩
  · exact List.forall_mem_append.mpr ⟨hkey.isSpace, List.forall_mem_cons.mpr ⟨rfl, hvalue⟩⟩
  · rw [hline]
    simp only [List.append_assoc, List.cons_append]
  · exact (List.forall_mem_append.mp ht).2
  · exact List.append_ne_nil_of_right_ne_nil _ (List.cons_ne_nil _ _)

/-- The script reads over the lines that report an action. -/
theorem extracts_actionLine (letter : Char) {t : List Char} (hletter : letter ∈ blockDuration)
    (ht : ∀ c ∈ t, isHarmless letter c = true) : Extracts py base (actionLine t) [] := by
  have hstart : "[eQUIC] Action=".toList = "[eQUIC] ".toList ++ ("Action".toList ++ ['=']) := rfl
  refine extracts_of_key "Action".toList letter (by decide) (by decide) ?_ hletter ht
  unfold actionLine
  simp only [hstart, List.append_assoc, List.cons_append, List.nil_append]

/-- The script reads over the lines that report an error. -/
theorem extracts_errorLine (letter : Char) {t : List Char} (hletter : letter ∈ blockDuration)
    (ht : ∀ c ∈ t, isHarmless letter c = true) : Extracts py base (errorLine t) [] := by
  have hstart : "[eQUIC] Error=".toList = "[eQUIC] ".toList ++ ("Error".toList ++ ['=']) := rfl
  refine extracts_of_key "Error".toList letter (by decide) (by decide) ?_ hletter ht
  unfold errorLine
  simp only [hstart, List.append_assoc, List.cons_append, List.nil_append]

/-! ## §4 The lines of the server -/

/-- What the script appends for a line of the server. -/
def writesOf (py : PyFloat fixed3) (base : List Char) : StdoutLine → List Write
  | .callback (.requestDuration beginInNs endInNs) _ =>
    [⟨durationFile base, fixed3.text (endInNs - beginInNs) 1000000 ++ ['\n']⟩]
  | .callback (.blockDuration beginInNs endInNs) _ =>
    match py.float (fixed3.text (endInNs - beginInNs) 1000) with
    | some x => if py.positive x then [⟨blockFile base, py.format x ++ ['\n']⟩] else []
    | none => []
  | .requestsPerSecond n =>
    if n.toInt > 0 then [⟨requestsFile base, decimal n.toInt ++ ['\n']⟩] else []
  | _ => []

theorem isHarmless_of_all {letter : Char} {t : List Char} (h : t.all (isHarmless letter) = true) :
    ∀ c ∈ t, isHarmless letter c = true := List.all_eq_true.mp h

theorem isHarmless_decimal {n : ℤ} : ∀ c ∈ decimal n, isHarmless 'k' c = true :=
  fun _ hc => isHarmless_k_of_isPlain (isPlain_decimal hc)

theorem isHarmless_inetNtoa {a : InAddr} : ∀ c ∈ inetNtoa a, isHarmless 'k' c = true :=
  fun _ hc => isHarmless_k_of_isPlain (isPlain_inetNtoa hc)

theorem isHarmless_strerror (errno : Errno) : ∀ c ∈ strerror errno, isHarmless 'k' c = true := by
  cases errno <;> exact isHarmless_of_all rfl

theorem extracts_updateLine {action : List Char} (h : action.all (isHarmless 'k') = true)
    (mapKey : InAddr) (mapValue : CInt) :
    Extracts py base (updateLine action mapKey mapValue) [] := by
  have hline : updateLine action mapKey mapValue = actionLine (action ++
      (", Type=BPFMapUpdate, MapKey=".toList ++ (inetNtoa mapKey ++ (", MapValue=".toList ++
        decimal mapValue.toInt)))) := by
    unfold updateLine actionLine
    simp only [List.append_assoc]
  rw [hline]
  apply extracts_actionLine 'k' (by decide)
  have htype : ∀ c ∈ ", Type=BPFMapUpdate, MapKey=".toList, isHarmless 'k' c = true :=
    isHarmless_of_all rfl
  have hvalue : ∀ c ∈ ", MapValue=".toList, isHarmless 'k' c = true := isHarmless_of_all rfl
  simp only [List.forall_mem_append]
  exact ⟨isHarmless_of_all h, htype, isHarmless_inetNtoa, hvalue, isHarmless_decimal⟩

theorem extracts_updateErrorLine {action : List Char} (h : action.all (isHarmless 'k') = true)
    (errno : Errno) : Extracts py base (updateErrorLine action errno) [] := by
  have hend : ", Type=BPFMapUpdate, Function=bpf_map_update_elem\n".toList =
      ", Type=BPFMapUpdate, Function=bpf_map_update_elem".toList ++ ['\n'] := rfl
  have hline : updateErrorLine action errno = actionLine (action ++ (", Error=".toList ++
      (strerror errno ++ ", Type=BPFMapUpdate, Function=bpf_map_update_elem".toList))) := by
    unfold updateErrorLine actionLine
    simp only [hend, List.append_assoc]
  rw [hline]
  apply extracts_actionLine 'k' (by decide)
  have herror : ∀ c ∈ ", Error=".toList, isHarmless 'k' c = true := isHarmless_of_all rfl
  have htype : ∀ c ∈ ", Type=BPFMapUpdate, Function=bpf_map_update_elem".toList,
    isHarmless 'k' c = true := isHarmless_of_all rfl
  simp only [List.forall_mem_append]
  exact ⟨isHarmless_of_all h, herror, isHarmless_strerror errno, htype⟩

theorem extracts_userSpaceLine {action : List Char} (h : action.all (isHarmless 'k') = true)
    {key : List Char} (hkey : ∀ c ∈ key, isPlain c = true) (value : CInt) :
    Extracts py base (userSpaceLine action key value) [] := by
  have hline : userSpaceLine action key value = actionLine (action ++
      (", Type=UserSpace, Key=".toList ++ (key ++ (", Value=".toList ++
        decimal value.toInt)))) := by
    unfold userSpaceLine actionLine
    simp only [List.append_assoc]
  rw [hline]
  apply extracts_actionLine 'k' (by decide)
  have htype : ∀ c ∈ ", Type=UserSpace, Key=".toList, isHarmless 'k' c = true :=
    isHarmless_of_all rfl
  have hvalue : ∀ c ∈ ", Value=".toList, isHarmless 'k' c = true := isHarmless_of_all rfl
  simp only [List.forall_mem_append]
  exact ⟨isHarmless_of_all h, htype, fun c hc => isHarmless_k_of_isPlain (hkey c hc), hvalue,
    isHarmless_decimal⟩

theorem extracts_connection (action : ConnAction) (local_ peer : SockaddrIn) :
    Extracts py base ((StdoutLine.connection action local_ peer).text fixed3) [] := by
  have hline : (StdoutLine.connection action local_ peer).text fixed3 = actionLine (action.text ++
      (", Client=".toList ++ (inetNtoa peer.sinAddr ++ (", SourcePort=".toList ++
        (decimal peer.sinPort.toNat ++ (", Server=".toList ++ (inetNtoa peer.sinAddr ++
          (", DestinationPort=".toList ++ decimal local_.sinPort.toNat)))))))) := by
    unfold StdoutLine.text actionLine
    simp only [List.append_assoc]
  rw [hline]
  apply extracts_actionLine 'k' (by decide)
  have haction : ∀ c ∈ action.text, isHarmless 'k' c = true := by
    cases action <;> exact isHarmless_of_all rfl
  have hclient : ∀ c ∈ ", Client=".toList, isHarmless 'k' c = true := isHarmless_of_all rfl
  have hport : ∀ c ∈ ", SourcePort=".toList, isHarmless 'k' c = true := isHarmless_of_all rfl
  have hserver : ∀ c ∈ ", Server=".toList, isHarmless 'k' c = true := isHarmless_of_all rfl
  have hdest : ∀ c ∈ ", DestinationPort=".toList, isHarmless 'k' c = true := isHarmless_of_all rfl
  simp only [List.forall_mem_append]
  exact ⟨haction, hclient, isHarmless_inetNtoa, hport, isHarmless_decimal, hserver,
    isHarmless_inetNtoa, hdest, isHarmless_decimal⟩

/-- The script reads over the lines of the setup and of the signal callbacks. -/
theorem extracts_programText (line : ProgramLine) : Extracts py base (programText line) [] := by
  have hdecimal : ∀ {t : List Char}, t.all (isHarmless 'k') = true → ∀ n : ℤ,
      ∀ c ∈ t ++ decimal n, isHarmless 'k' c = true := fun ht _ =>
    List.forall_mem_append.mpr ⟨isHarmless_of_all ht, isHarmless_decimal⟩
  have hstrerror : ∀ {t : List Char}, t.all (isHarmless 'k') = true → ∀ errno : Errno,
      ∀ c ∈ strerror errno ++ t, isHarmless 'k' c = true := fun ht errno =>
    List.forall_mem_append.mpr ⟨isHarmless_strerror errno, isHarmless_of_all ht⟩
  cases line with
  | noInterface => exact extracts_errorLine 'k' (by decide) (isHarmless_of_all rfl)
  | interfaceRead ifIndex => exact extracts_actionLine 'k' (by decide) (hdecimal rfl _)
  | notLoaded => exact extracts_errorLine 'k' (by decide) (isHarmless_of_all rfl)
  -- the names of the object file and of the functions have a k
  | objectLoaded => exact extracts_actionLine 'D' (by decide) (isHarmless_of_all rfl)
  | noMap => exact extracts_errorLine 'k' (by decide) (isHarmless_of_all rfl)
  | mapLoaded => exact extracts_actionLine 'k' (by decide) (isHarmless_of_all rfl)
  | noProgFd errno => exact extracts_errorLine 'k' (by decide) (hstrerror rfl errno)
  | notAttached => exact extracts_errorLine 'D' (by decide) (isHarmless_of_all rfl)
  | noInfo errno => exact extracts_errorLine 'k' (by decide) (hstrerror rfl errno)
  -- "Hook" and "XDP" have both
  | attached => exact extracts_actionLine 'c' (by decide) (isHarmless_of_all rfl)
  | exitInt => exact extracts_actionLine 'k' (by decide) (isHarmless_of_all rfl)
  | exitTerm => exact extracts_actionLine 'k' (by decide) (isHarmless_of_all rfl)
  | callError => exact extracts_errorLine 'D' (by decide) (isHarmless_of_all rfl)
  | unloaded ifIndex => exact extracts_actionLine 'k' (by decide) (hdecimal rfl _)
  | notFound => exact extracts_errorLine 'k' (by decide) (isHarmless_of_all rfl)
  | updated => exact extracts_actionLine 'k' (by decide) (isHarmless_of_all rfl)

theorem hasField_durationLine {key : List Char} (hkey : IsKey key)
    {duration : List Char} (hduration : ∀ c ∈ duration, isPlain c = true)
    (beginInNs endInNs : ℤ) :
    HasField (durationLine key duration beginInNs endInNs) (key ++ '=' :: (duration ++ [','])) where
  word := by
    simp only [List.forall_mem_append, List.forall_mem_cons]
    exact ⟨hkey.isSpace, rfl, fun c hc => isSpace_of_isPlain (hduration c hc), rfl,
      List.forall_mem_nil _⟩
  exists_tail := by
    have hbegin : ", Begin=".toList = ',' :: " Begin=".toList := rfl
    refine ⟨" Begin=".toList ++ (decimal3 beginInNs ++ (", End=".toList ++ decimal3 endInNs)),
      ?_, .inr ⟨' ', _, rfl, rfl⟩, 'k', by decide, ?_⟩
    · unfold durationLine
      simp only [hbegin, List.append_assoc, List.cons_append, List.nil_append]
    · have hlit : ∀ c ∈ " Begin=".toList, isHarmless 'k' c = true := isHarmless_of_all rfl
      have hend : ∀ c ∈ ", End=".toList, isHarmless 'k' c = true := isHarmless_of_all rfl
      simp only [List.forall_mem_append]
      exact ⟨hlit, fun c hc => isHarmless_k_of_isPlain (isPlain_decimal3 hc), hend,
        fun c hc => isHarmless_k_of_isPlain (isPlain_decimal3 hc)⟩

theorem hasField_requestsPerSecond (n : CInt) :
    HasField ((StdoutLine.requestsPerSecond n).text fixed3)
      (requestsPerSecond ++ '=' :: decimal n.toInt) where
  word := by
    have hkey : IsKey requestsPerSecond := by decide
    simp only [List.forall_mem_append, List.forall_mem_cons]
    exact ⟨hkey.isSpace, rfl, fun c hc => isSpace_of_isPlain (isPlain_decimal hc)⟩
  exists_tail := by
    have hstart : "[eQUIC] RequestsPerSecond=".toList =
        "[eQUIC] ".toList ++ (requestsPerSecond ++ ['=']) := rfl
    refine ⟨[], ?_, .inl rfl, 'k', by decide, List.forall_mem_nil _⟩
    unfold StdoutLine.text
    simp only [hstart, List.append_assoc, List.cons_append, List.nil_append]

theorem extracts_counterText {errno : Errno} {action : CounterAction}
    (hne : counterText errno action ≠ []) :
    Extracts py base (counterText errno action) [] := by
  cases action with
  | increment mapKey mapValue => exact extracts_updateLine rfl _ _
  | incrementError => exact extracts_updateErrorLine rfl _
  | creation mapKey mapValue => exact extracts_updateLine rfl _ _
  | creationError => exact extracts_updateErrorLine rfl _
  | decrement mapKey mapValue => exact extracts_updateLine rfl _ _
  | decrementError => exact extracts_updateErrorLine rfl _
  | zeroReturn => exact absurd rfl hne
  | lookupMiss => exact absurd rfl hne

theorem extracts_quotaText {line : QuotaLine} (hkey : ∀ c ∈ quotaKey line, isPlain c = true) :
    Extracts py base (quotaText line) [] := by
  cases line with
  | increment key value => exact extracts_userSpaceLine rfl hkey value
  | decrement key value => exact extracts_userSpaceLine rfl hkey value
  | exceeded key value => exact extracts_userSpaceLine rfl hkey value
  | notExceeded key value => exact extracts_userSpaceLine rfl hkey value

theorem equalsSign_notMem_fixed3 (n : ℤ) (d : ℕ) : '=' ∉ fixed3.text n d := by
  intro h
  cases fixed3.plain n d '=' h

theorem extracts_requestDuration (beginInNs endInNs : ℤ) (errno : Errno) :
    let line := StdoutLine.callback (.requestDuration beginInNs endInNs) errno
    Extracts py base (line.text fixed3) (writesOf py base line) :=
  ⟨_, hasField_durationLine (by decide) (fixed3.plain _ _) _ _, by simp,
    extractField_requestDuration py base (equalsSign_notMem_fixed3 _ _)⟩

theorem extracts_blockDuration (beginInNs endInNs : ℤ) (errno : Errno) :
    let line := StdoutLine.callback (.blockDuration beginInNs endInNs) errno
    Extracts py base (line.text fixed3) (writesOf py base line) := by
  refine ⟨_, hasField_durationLine (by decide) (fixed3.plain _ _) _ _, by simp,
    (extractField_blockDuration py base (equalsSign_notMem_fixed3 _ _)).trans ?_⟩
  obtain ⟨x, hx⟩ := Option.isSome_iff_exists.mp (py.float_fixed3 (endInNs - beginInNs) 1000)
  simp only [writesOf, hx, Option.map_some]

/-- What the script does with a line of the server, if the call prints anything at all. -/
theorem extracts_text (py : PyFloat fixed3) (base : List Char) {line : StdoutLine}
    (hkey : PlainKey line) (hne : line.text fixed3 ≠ []) :
    Extracts py base (line.text fixed3) (writesOf py base line) := by
  cases line with
  | connection action local_ peer => exact extracts_connection action local_ peer
  | program line => exact extracts_programText line
  | requestsPerSecond n =>
    exact ⟨_, hasField_requestsPerSecond n, by simp,
      extractField_requestsPerSecond py base n.toInt⟩
  | callback line errno =>
    cases line with
    | counter action => exact extracts_counterText hne
    | quota line => exact extracts_quotaText hkey
    | blockDuration beginInNs endInNs => exact extracts_blockDuration beginInNs endInNs errno
    | requestDuration beginInNs endInNs => exact extracts_requestDuration beginInNs endInNs errno

/-- A call that prints nothing leaves nothing to extract. -/
theorem writesOf_of_text_eq_nil {line : StdoutLine} (h : line.text fixed3 = []) :
    writesOf py base line = [] := by
  cases line with
  | connection action local_ peer => rfl
  | program line => rfl
  | requestsPerSecond n =>
    exact absurd h (List.append_ne_nil_of_right_ne_nil _ (List.cons_ne_nil _ _))
  | callback line errno =>
    cases line with
    | counter action => rfl
    | quota line => rfl
    | blockDuration beginInNs endInNs =>
      exact absurd h (List.append_ne_nil_of_right_ne_nil _ (List.cons_ne_nil _ _))
    | requestDuration beginInNs endInNs =>
      exact absurd h (List.append_ne_nil_of_right_ne_nil _ (List.cons_ne_nil _ _))

/-! ## §5 The log of a server -/

/-- The output as a text. -/
def outputText (fixed3 : Fixed3) (out : List StdoutLine) : List Char :=
  (out.map fun line => line.text fixed3).flatten

/-- A line with a word is one line of the file. -/
theorem HasField.exists_body {line w : List Char} (h : HasField line w) :
    ∃ body, line = body ++ ['\n'] ∧ '\n' ∉ body ∧ '\r' ∉ body := by
  obtain ⟨tail, rfl, -, letter, -, hharmless⟩ := h.exists_tail
  have hinline : ∀ c ∈ "[eQUIC] ".toList ++ (w ++ tail), isInline c = true := by
    have hstart : ∀ c ∈ "[eQUIC] ".toList, isInline c = true := List.all_eq_true.mp rfl
    simp only [List.forall_mem_append]
    refine ⟨hstart, fun c hc => isInline_of_isSpace (h.word c hc), fun c hc => ?_⟩
    have hc' := hharmless c hc
    rw [isHarmless, Bool.and_eq_true] at hc'
    exact hc'.1
  refine ⟨"[eQUIC] ".toList ++ (w ++ tail), by simp only [List.append_assoc], ?_, ?_⟩
  · intro hmem
    cases hinline '\n' hmem
  · intro hmem
    cases hinline '\r' hmem

/-- The file read back: every call that prints something is one line. -/
theorem lines_outputText {out : List StdoutLine} (hout : ∀ line ∈ out, PlainKey line)
    (py : PyFloat fixed3) :
    lines (universalNewlines (outputText fixed3 out)) =
      (out.map fun line => line.text fixed3).filter (· ≠ []) := by
  rw [outputText, ← List.flatten_filter_ne_nil]
  apply lines_flatten
  intro text htext
  obtain ⟨hmem, hne⟩ := List.mem_filter.mp htext
  obtain ⟨line, hline, rfl⟩ := List.mem_map.mp hmem
  obtain ⟨w, hw, -⟩ := extracts_text py [] (hout line hline) (by simpa using hne)
  exact hw.exists_body

/-- Lines that give nothing can be left out. -/
theorem flatMap_filter_eq {α β : Type*} {p : α → Bool} {g : α → List β}
    (h : ∀ a, p a = false → g a = []) (l : List α) : (l.filter p).flatMap g = l.flatMap g := by
  induction l with
  | nil => rfl
  | cons a l ih =>
    rw [List.filter_cons, List.flatMap_cons]
    cases hp : p a with
    | false => rw [if_neg Bool.false_ne_true, h a hp, ih, List.nil_append]
    | true => rw [if_pos rfl, List.flatMap_cons, ih]

/-- **The log of a server is taken apart without a loss**: whatever the calls were, the script
    raises no exception, and appends what each call has measured, in their order. -/
theorem extract_output {out : List StdoutLine} (hout : ∀ line ∈ out, PlainKey line)
    (py : PyFloat fixed3) {log base : List Char} (hbase : baseName log = some base) :
    extract py log (outputText fixed3 out) = some (out.flatMap (writesOf py base)) := by
  have hlines : lines (universalNewlines (outputText fixed3 out)) =
      (out.filter (fun line => line.text fixed3 ≠ [])).map fun line => line.text fixed3 := by
    rw [lines_outputText hout py, List.filter_map]
    rfl
  have hwrites : (out.filter (fun line => line.text fixed3 ≠ [])).flatMap (writesOf py base) =
      out.flatMap (writesOf py base) := by
    apply flatMap_filter_eq
    intro line hline
    exact writesOf_of_text_eq_nil (by simpa using hline)
  rw [← hwrites]
  apply extract_eq hbase hlines
  intro line hline
  obtain ⟨hmem, hne⟩ := List.mem_filter.mp hline
  obtain ⟨w, hw, hwne, hextract⟩ := extracts_text py base (hout line hmem) (by simpa using hne)
  rw [hw.extractLine hwne, hextract]

end Equic.Experiments
