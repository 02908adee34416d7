import Mathlib.Data.List.DropRight
import Mathlib.Data.Nat.Notation
import Mathlib.Data.Int.Notation

/-!
# Text in Python

What a script does that reads a file line by line and takes the lines apart: iteration over a
file in text mode, `s.split()`, `s.split(sep)`, indices that count from the end, and `int(s)`.
A `str` is the list of its characters.

The results say how these functions go through a text that is put together from pieces.
-/

namespace Equic.Foundation.Py

/-! ## §1 Words -/

/-- `c.isspace()` -/
def isSpace (c : Char) : Bool :=
  let n := c.toNat
  (9 ≤ n && n ≤ 13) || (28 ≤ n && n ≤ 32) || n = 0x85 || n = 0xA0 || n = 0x1680 ||
    (0x2000 ≤ n && n ≤ 0x200A) || n = 0x2028 || n = 0x2029 || n = 0x202F || n = 0x205F || n = 0x3000

/-- Printable ASCII characters but the blank are none. -/
theorem isSpace_of_mem_range {c : Char} (hlo : 33 ≤ c.toNat) (hhi : c.toNat ≤ 126) :
    isSpace c = false := by
  simp only [isSpace, Bool.or_eq_false_iff, Bool.and_eq_false_iff, decide_eq_false_iff_not]
  omega

theorem isSpace_of_isDigit {c : Char} (hc : c.isDigit = true) : isSpace c = false := by
  obtain ⟨hlo, hhi⟩ := (Bool.and_eq_true _ _).mp hc
  have hlo' : 48 ≤ c.toNat := UInt32.le_iff_toNat_le.mp (of_decide_eq_true hlo)
  have hhi' : c.toNat ≤ 57 := UInt32.le_iff_toNat_le.mp (of_decide_eq_true hhi)
  apply isSpace_of_mem_range <;> omega

theorem isSpace_of_isAlpha {c : Char} (hc : c.isAlpha = true) : isSpace c = false := by
  obtain hupper | hlower := (Bool.or_eq_true _ _).mp hc
  · obtain ⟨hlo, hhi⟩ := of_decide_eq_true hupper
    have hlo' : 65 ≤ c.toNat := UInt32.le_iff_toNat_le.mp hlo
    have hhi' : c.toNat ≤ 90 := UInt32.le_iff_toNat_le.mp hhi
    apply isSpace_of_mem_range <;> omega
  · obtain ⟨hlo, hhi⟩ := (Bool.and_eq_true _ _).mp hlower
    have hlo' : 97 ≤ c.toNat := UInt32.le_iff_toNat_le.mp (of_decide_eq_true hlo)
    have hhi' : c.toNat ≤ 122 := UInt32.le_iff_toNat_le.mp (of_decide_eq_true hhi)
    apply isSpace_of_mem_range <;> omega

theorem isSpace_of_any {s : List Char} (h : s.any isSpace = false) :
    ∀ c ∈ s, isSpace c = false := by
  intro c hc
  rw [← Bool.not_eq_true]
  exact List.any_eq_false.mp h c hc

/-- `s.split()` -/
def words (s : List Char) : List (List Char) := (s.splitOnP isSpace).filter (· ≠ [])

theorem words_append_cons (s t : List Char) {c : Char} (hc : isSpace c = true) :
    words (s ++ c :: t) = words s ++ words t := by
  rw [words, List.splitOnP_append_cons s t hc, List.filter_append, words, words]

/-- A word is read as it stands. -/
theorem words_of_forall {w : List Char} (hw : ∀ c ∈ w, isSpace c = false) (hne : w ≠ []) :
    words w = [w] := by
  rw [words, List.splitOnP_eq_singleton hw]
  simp [hne]

/-- The first word of a text. -/
theorem words_cons {w t : List Char} {c : Char} (hw : ∀ d ∈ w, isSpace d = false) (hne : w ≠ [])
    (hc : isSpace c = true) : words (w ++ c :: t) = w :: words t := by
  rw [words_append_cons w t hc, words_of_forall hw hne, List.singleton_append]

/-- The pieces between separators are pieces of the text. -/
theorem isInfix_of_mem_splitOnP {p : Char → Bool} {piece s : List Char}
    (h : piece ∈ s.splitOnP p) : piece <:+: s := by
  induction hlen : s.length using Nat.strong_induction_on generalizing s with
  | _ n ih =>
    by_cases hs : ∀ c ∈ s, p c = false
    · rw [List.splitOnP_eq_singleton hs] at h
      obtain rfl := List.mem_singleton.mp h
      exact List.infix_rfl
    · -- the piece is on one side of a separator
      push Not at hs
      obtain ⟨c, hc, hsep⟩ := hs
      obtain ⟨a, b, rfl⟩ := List.append_of_mem hc
      rw [List.splitOnP_append_cons a b (by simpa using hsep)] at h
      rw [List.length_append, List.length_cons] at hlen
      obtain h | h := List.mem_append.mp h
      · exact (ih a.length (by omega) h rfl).trans (List.prefix_append a _).isInfix
      · exact (ih b.length (by omega) h rfl).trans
          ((List.suffix_cons c b).trans (List.suffix_append a _)).isInfix

/-- A word is a piece of the text. -/
theorem isInfix_of_mem_words {w s : List Char} (h : w ∈ words s) : w <:+: s :=
  isInfix_of_mem_splitOnP (List.mem_filter.mp h).1

theorem words_space_cons {c : Char} (hc : isSpace c = true) (s : List Char) :
    words (c :: s) = words s := words_append_cons [] s hc

/-- Blanks before a text make no word. -/
theorem words_blanks (n : ℕ) (s : List Char) : words (List.replicate n ' ' ++ s) = words s := by
  induction n with
  | zero => rfl
  | succ n ih => rw [List.replicate_succ, List.cons_append, words_space_cons rfl, ih]

/-- A text has no blank, or a first one. -/
theorem forall_or_first_space (s : List Char) : (∀ c ∈ s, isSpace c = false) ∨
    ∃ a c b, s = a ++ c :: b ∧ (∀ d ∈ a, isSpace d = false) ∧ isSpace c = true := by
  cases hfind : s.find? isSpace with
  | none => exact .inl (by simpa using hfind)
  | some c =>
    obtain ⟨hc, a, b, rfl, ha⟩ := List.find?_eq_some_iff_append.mp hfind
    exact .inr ⟨a, c, b, rfl, by simpa using ha, hc⟩

/-- A text that is not blank has a word. -/
theorem words_ne_nil {s : List Char} {c : Char} (hc : c ∈ s) (hword : isSpace c = false) :
    words s ≠ [] := by
  induction s with
  | nil => cases hc
  | cons d s ih =>
    by_cases hd : isSpace d = true
    · rw [words_space_cons hd]
      obtain rfl | hc := List.mem_cons.mp hc
      · rw [hd] at hword
        cases hword
      · exact ih hc
    · obtain hall | ⟨a, e, b, heq, ha, he⟩ := forall_or_first_space (d :: s)
      · rw [words_of_forall hall (List.cons_ne_nil _ _)]
        exact List.cons_ne_nil _ _
      · rw [heq, words_cons ha _ he]
        · exact List.cons_ne_nil _ _
        · rintro rfl
          obtain rfl : d = e := (List.cons.inj heq).1
          exact hd he

/-- A word of a text that goes on without a blank is inside the text and shorter, or it is the
    one that goes on. -/
theorem length_lt_or_eq_append {s t w : List Char} (ht : ∀ c ∈ t, isSpace c = false) (hne : t ≠ [])
    (h : w ∈ words (s ++ t)) : w.length < s.length ∨ ∃ s₁, s₁ <:+ s ∧ w = s₁ ++ t := by
  induction hlen : s.length using Nat.strong_induction_on generalizing s with
  | _ n ih =>
    by_cases hs : ∀ c ∈ s, isSpace c = false
    · have hall : ∀ c ∈ s ++ t, isSpace c = false := List.forall_mem_append.mpr ⟨hs, ht⟩
      rw [words_of_forall hall (List.append_ne_nil_of_right_ne_nil s hne)] at h
      exact .inr ⟨s, List.suffix_rfl, List.mem_singleton.mp h⟩
    · -- the word is on one side of a blank
      push Not at hs
      obtain ⟨c, hc, hspace⟩ := hs
      obtain ⟨a, b, rfl⟩ := List.append_of_mem hc
      rw [List.append_assoc, List.cons_append, words_append_cons a _ (by simpa using hspace)] at h
      rw [List.length_append, List.length_cons] at hlen
      obtain h | h := List.mem_append.mp h
      · have hle := (isInfix_of_mem_words h).length_le
        exact .inl (by omega)
      · obtain hlt | ⟨s₁, hsuffix, rfl⟩ := ih b.length (by omega) h rfl
        · exact .inl (by omega)
        · have hb : b <:+ a ++ c :: b := (List.suffix_cons c b).trans (List.suffix_append a _)
          exact .inr ⟨s₁, hsuffix.trans hb, rfl⟩

/-! ## §2 Fields -/

/-- `s.split(sep)` for a separator of one character -/
def split (s : List Char) (sep : Char) : List (List Char) := s.splitOn sep

/-- `l[0]` -/
theorem split_getElem_zero_isInfix {s key : List Char} {sep : Char}
    (h : (split s sep)[0]? = some key) : key <:+: s := by
  have hmem : key ∈ s.splitOnP (· == sep) := by
    rw [← List.splitOn_eq_splitOnP]
    exact List.mem_of_getElem? h
  exact isInfix_of_mem_splitOnP hmem

/-- A field before its separator. -/
theorem split_append_cons {s t : List Char} {sep : Char} (hs : sep ∉ s) :
    split (s ++ sep :: t) sep = s :: split t sep :=
  List.splitOn_append_cons_self_of_not_mem hs t

/-- The last field. -/
theorem split_of_notMem {s : List Char} {sep : Char} (hs : sep ∉ s) : split s sep = [s] :=
  List.splitOn_eq_singleton hs

/-- A field has no separator in it. -/
theorem sep_notMem_of_mem_split {piece s : List Char} {sep : Char} (h : piece ∈ split s sep) :
    sep ∉ piece := by
  induction hlen : s.length using Nat.strong_induction_on generalizing s with
  | _ n ih =>
    by_cases hsep : sep ∈ s
    · obtain ⟨a, b, rfl, ha⟩ := List.eq_append_cons_of_mem hsep
      rw [split_append_cons ha] at h
      rw [List.length_append, List.length_cons] at hlen
      obtain rfl | h := List.mem_cons.mp h
      · exact ha
      · exact ih b.length (by omega) h rfl
    · rw [split_of_notMem hsep] at h
      rw [List.mem_singleton.mp h]
      exact hsep

/-- `l[-k]` -/
def fromEnd {α : Type*} (l : List α) (k : ℕ) : Option α :=
  if k = 0 then l[0]? else l.reverse[k - 1]?

/-! ## §3 Lines -/

/-- Text mode: every line end becomes `\n`. -/
def universalNewlines : List Char → List Char
  | '\r' :: '\n' :: s => '\n' :: universalNewlines s
  | c :: s => (if c = '\r' then '\n' else c) :: universalNewlines s
  | [] => []

/-- `for line in file`: the lines with their line ends; the last one may have none. -/
def lines : List Char → List (List Char)
  | [] => []
  | c :: s =>
    if c = '\n' then [c] :: lines s
    else
      match lines s with
      | [] => [[c]]
      | line :: rest => (c :: line) :: rest

theorem universalNewlines_eq_self {s : List Char} (hs : '\r' ∉ s) : universalNewlines s = s := by
  induction s using universalNewlines.induct with
  | case1 s ih => simp at hs
  | case2 c s hne ih =>
    rw [universalNewlines, ih (fun h => hs (List.mem_cons_of_mem c h)), if_neg]
    · rintro rfl
      exact hs List.mem_cons_self
    · exact hne
  | case3 => rfl

/-- The first line of a text. -/
theorem lines_append {line t : List Char} (hline : '\n' ∉ line) :
    lines (line ++ '\n' :: t) = (line ++ ['\n']) :: lines t := by
  induction line with
  | nil => rfl
  | cons c line ih =>
    rw [List.mem_cons, not_or] at hline
    rw [List.cons_append, lines, if_neg (Ne.symm hline.1), ih hline.2]
    rfl

/-- A file is read back line by line. -/
theorem lines_flatten {texts : List (List Char)}
    (h : ∀ text ∈ texts, ∃ body, text = body ++ ['\n'] ∧ '\n' ∉ body ∧ '\r' ∉ body) :
    lines (universalNewlines texts.flatten) = texts := by
  have hreturn : '\r' ∉ texts.flatten := by
    intro hmem
    obtain ⟨text, htext, hmem⟩ := List.mem_flatten.mp hmem
    obtain ⟨body, rfl, -, hr⟩ := h text htext
    exact hr (by simpa using hmem)
  rw [universalNewlines_eq_self hreturn]
  clear hreturn
  induction texts with
  | nil => rfl
  | cons text texts ih =>
    obtain ⟨⟨body, rfl, hn, -⟩, hrest⟩ := List.forall_mem_cons.mp h
    rw [List.flatten_cons, List.append_assoc, List.singleton_append, lines_append hn, ih hrest]

/-! ## §4 Numbers -/

/-- `s.strip()` -/
def strip (s : List Char) : List Char := (s.dropWhile isSpace).rdropWhile isSpace

/-- A sign, if there is one; whether it is a minus. -/
def sign : List Char → Bool × List Char
  | '-' :: s => (true, s)
  | '+' :: s => (false, s)
  | s => (false, s)

/-- `int(s)` for ASCII text: a sign, and digits that single underscores may group; `none` is a
    `ValueError`. -/
def int (s : List Char) : Option ℤ :=
  let (negative, s) := sign (strip s)
  let groups := split s '_'
  if groups.all (fun g => g ≠ [] && g.all Char.isDigit) then
    let value : ℤ := Nat.ofDigitChars 10 groups.flatten 0
    some (if negative then -value else value)
  else none

theorem strip_eq_self {s : List Char} (hs : ∀ c ∈ s, isSpace c = false) : strip s = s := by
  rw [strip, List.dropWhile_eq_self_iff.mpr, List.rdropWhile_eq_self_iff.mpr]
  · intro hne
    rw [hs _ (List.getLast_mem hne)]
    exact Bool.false_ne_true
  · intro hlen
    rw [hs _ (List.getElem_mem hlen)]
    exact Bool.false_ne_true

/-- The line end of a line does not count. -/
theorem strip_line (s : List Char) : strip (s ++ ['\n']) = strip s := by
  rw [strip, strip, List.dropWhile_append]
  split
  · rename_i hempty
    rw [List.isEmpty_iff.mp hempty]
    rfl
  · rw [List.rdropWhile_concat_pos _ _ _ rfl]

theorem int_line (s : List Char) : int (s ++ ['\n']) = int s := by
  rw [int, int, strip_line]

theorem sign_of_isDigit {s : List Char} (hs : ∀ c ∈ s, c.isDigit = true) : sign s = (false, s) := by
  unfold sign
  split
  · have hdash := hs '-' List.mem_cons_self
    cases hdash
  · have hplus := hs '+' List.mem_cons_self
    cases hplus
  · rfl

/-- `int` reads digits, with or without a minus. -/
theorem int_digits {s : List Char} (hs : ∀ c ∈ s, c.isDigit = true) (hne : s ≠ []) :
    int s = some (Nat.ofDigitChars 10 s 0 : ℤ) ∧
      int ('-' :: s) = some (-(Nat.ofDigitChars 10 s 0 : ℤ)) := by
  have hspace : ∀ c ∈ s, isSpace c = false := fun c hc => isSpace_of_isDigit (hs c hc)
  have hsplit : split s '_' = [s] := by
    apply split_of_notMem
    intro h
    cases hs '_' h
  have hall : [s].all (fun g => g ≠ [] && g.all Char.isDigit) = true := by
    simpa [hne] using hs
  constructor
  · unfold int
    rw [strip_eq_self hspace, sign_of_isDigit hs]
    dsimp only
    rw [hsplit, if_pos hall, List.flatten_singleton]
    rfl
  · unfold int
    rw [strip_eq_self (List.forall_mem_cons.mpr ⟨rfl, hspace⟩), sign]
    dsimp only
    rw [hsplit, if_pos hall, List.flatten_singleton]
    rfl

end Equic.Foundation.Py
