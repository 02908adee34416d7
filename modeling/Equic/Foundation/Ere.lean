import Mathlib.Data.List.Forall2
import Mathlib.Data.List.MinMax
import Mathlib.Logic.Function.Basic

/-!
# Extended regular expressions

The expressions of `regcomp` that consist of characters, bracket expressions, groups, the
two anchors, `*` and `?`, and what `regexec` reports for them.

`Reads` says declaratively what an expression can match and what its groups capture.
`runs` computes all these matches, and `regexec` chooses one of them. A client needs only
`regexec_sound` and `regexec_complete`: where the matches of a pattern are all the same,
the choice does not matter.
-/

namespace Equic.Foundation

/-! ## §1 Syntax -/

/-- A bracket expression: ranges of bytes, possibly negated. -/
structure Bracket where
  negated : Bool
  ranges : List (UInt8 × UInt8)
  deriving DecidableEq, Repr

/-- The bracket expression for a single character. -/
def Bracket.one (b : UInt8) : Bracket := ⟨false, [(b, b)]⟩

/-- An extended regular expression. -/
inductive Ere where
  | empty
  /-- `^` -/
  | bol
  /-- `$` -/
  | eol
  | set (s : Bracket)
  | cat (r s : Ere)
  | opt (r : Ere)
  | star (r : Ere)
  /-- The `n`-th pair of parentheses. -/
  | group (n : ℕ) (r : Ere)
  deriving DecidableEq, Repr

/-- Several expressions in a row. -/
def Ere.seq : List Ere → Ere
  | [] => .empty
  | r :: rs => .cat r (.seq rs)

/-- The expressions for the characters of a string. -/
def Ere.lit (s : List UInt8) : List Ere := s.map fun b => .set (.one b)

/-! ## §2 `regcomp` -/

/-- The bytes of a C string. -/
def cstr (s : String) : List UInt8 := s.toList.map fun c => c.toNat.toUInt8

/-- Where the parser is within a pattern. -/
inductive Regcomp.Mode where
  | plain
  /-- Behind a backslash. -/
  | escape
  /-- Behind the `[` of a bracket expression. -/
  | opened
  | bracket (s : Bracket)
  /-- Behind a `-` in a bracket expression. -/
  | range (s : Bracket)
  deriving DecidableEq, Repr

/-- The parser: the expressions of the innermost open group, last one first, and for each
    open group its number and the expressions before it. -/
structure Regcomp where
  mode : Regcomp.Mode
  items : List Ere
  outer : List (ℕ × List Ere)
  groups : ℕ
  deriving DecidableEq, Repr

namespace Regcomp

def push (p : Regcomp) (r : Ere) : Regcomp := { p with mode := .plain, items := r :: p.items }

/-- One character; `none` where the pattern is malformed or beyond this syntax. -/
def step (p : Regcomp) (c : Char) : Option Regcomp :=
  let b := c.toNat.toUInt8
  match p.mode with
  | .plain =>
    match c with
    | '^' => some (p.push .bol)
    | '$' => some (p.push .eol)
    | '\\' => some { p with mode := .escape }
    | '[' => some { p with mode := .opened }
    | '(' => some { p with
        items := [], outer := (p.groups + 1, p.items) :: p.outer, groups := p.groups + 1 }
    | ')' =>
      match p.outer with
      | [] => none
      | (n, items) :: outer =>
        some { p with items := .group n (.seq p.items.reverse) :: items, outer := outer }
    | '*' =>
      match p.items with
      | [] => none
      | r :: items => some { p with items := .star r :: items }
    | '?' =>
      match p.items with
      | [] => none
      | r :: items => some { p with items := .opt r :: items }
    | '|' | '+' | '{' | '.' => none
    | _ => some (p.push (.set (.one b)))
  | .escape => some (p.push (.set (.one b)))
  | .opened =>
    match c with
    | '^' => some { p with mode := .bracket ⟨true, []⟩ }
    | _ => some { p with mode := .bracket ⟨false, [(b, b)]⟩ }
  | .bracket s =>
    match c with
    | ']' => some (p.push (.set s))
    | '-' => some { p with mode := .range s }
    | _ => some { p with mode := .bracket { s with ranges := s.ranges ++ [(b, b)] } }
  | .range s =>
    match s.ranges.getLast? with
    | none => none
    | some (lo, _) =>
      some { p with mode := .bracket { s with ranges := s.ranges.dropLast ++ [(lo, b)] } }

end Regcomp

/-- `regcomp` with `REG_EXTENDED`. -/
def regcomp (pattern : String) : Option Ere :=
  match pattern.toList.foldlM Regcomp.step ⟨.plain, [], [], 0⟩ with
  | some ⟨.plain, items, [], _⟩ => some (.seq items.reverse)
  | _ => none

/-! ## §3 What an expression matches -/

/-- `tolower`, in the POSIX locale. -/
def toLower (b : UInt8) : UInt8 := if 65 ≤ b ∧ b ≤ 90 then b + 32 else b

/-- `toupper`, in the POSIX locale. -/
def toUpper (b : UInt8) : UInt8 := if 97 ≤ b ∧ b ≤ 122 then b - 32 else b

/-- One of the ranges contains the byte. -/
def Bracket.lists (s : Bracket) (b : UInt8) : Bool := s.ranges.any fun (lo, hi) => lo ≤ b && b ≤ hi

/-- The bracket expression matches the byte; with `icase`, either case of it is looked up. -/
def Bracket.accepts (icase : Bool) (s : Bracket) (b : UInt8) : Bool :=
  (s.lists b || icase && (s.lists (toLower b) || s.lists (toUpper b))) != s.negated

/-- A position in the text, and what the groups have captured before it. -/
structure Cursor where
  before : List UInt8
  rest : List UInt8
  sub : ℕ → Option (ℕ × ℕ)

namespace Cursor

/-- The position behind the next bytes `w`. -/
def advance (c : Cursor) (w rest : List UInt8) : Cursor := ⟨c.before ++ w, rest, c.sub⟩

/-- The text between two positions is captured as group `n`. -/
def capture (n : ℕ) (c d : Cursor) : Cursor :=
  { d with sub := Function.update d.sub n (some (c.before.length, d.before.length)) }

theorem capture_sub_self (n : ℕ) (c d : Cursor) :
    (capture n c d).sub n = some (c.before.length, d.before.length) :=
  Function.update_self _ _ _

theorem capture_sub_of_ne {n i : ℕ} (h : i ≠ n) (c d : Cursor) :
    (capture n c d).sub i = d.sub i :=
  Function.update_of_ne h _ _

theorem advance_nil {c : Cursor} {rest : List UInt8} (h : c.rest = rest) :
    c.advance [] rest = c := by
  subst h
  simp [advance]

@[simp] theorem advance_advance (c : Cursor) (w w' rest rest' : List UInt8) :
    (c.advance w rest).advance w' rest' = c.advance (w ++ w') rest' := by
  simp [advance]

end Cursor

/-- The expression matches the text between the two positions. -/
inductive Reads (icase : Bool) : Ere → Cursor → Cursor → Prop
  | empty {c} : Reads icase .empty c c
  | bol {c} : c.before = [] → Reads icase .bol c c
  | eol {c} : c.rest = [] → Reads icase .eol c c
  | set {s c b rest} : c.rest = b :: rest → s.accepts icase b →
      Reads icase (.set s) c (c.advance [b] rest)
  | cat {r s c d e} : Reads icase r c d → Reads icase s d e → Reads icase (.cat r s) c e
  | optSome {r c d} : Reads icase r c d → Reads icase (.opt r) c d
  | optNone {r c} : Reads icase (.opt r) c c
  | starNil {r c} : Reads icase (.star r) c c
  | starCons {r c d e} : Reads icase r c d → d.rest.length < c.rest.length →
      Reads icase (.star r) d e → Reads icase (.star r) c e
  | group {n r c d} : Reads icase r c d → Reads icase (.group n r) c (c.capture n d)

namespace Reads

variable {icase : Bool} {r s : Ere} {c d : Cursor}

@[simp] theorem empty_iff : Reads icase .empty c d ↔ d = c := by
  constructor
  · rintro ⟨⟩
    rfl
  · rintro rfl
    exact .empty

@[simp] theorem bol_iff : Reads icase .bol c d ↔ c.before = [] ∧ d = c := by
  constructor
  · rintro ⟨h⟩
    exact ⟨‹_›, rfl⟩
  · rintro ⟨h, rfl⟩
    exact .bol h

@[simp] theorem eol_iff : Reads icase .eol c d ↔ c.rest = [] ∧ d = c := by
  constructor
  · rintro ⟨⟩
    exact ⟨‹_›, rfl⟩
  · rintro ⟨h, rfl⟩
    exact .eol h

theorem set_iff {s : Bracket} : Reads icase (.set s) c d ↔
    ∃ b rest, c.rest = b :: rest ∧ s.accepts icase b ∧ d = c.advance [b] rest := by
  constructor
  · intro h
    cases h with
    | set hrest hb => exact ⟨_, _, hrest, hb, rfl⟩
  · rintro ⟨b, rest, hrest, hb, rfl⟩
    exact .set hrest hb

@[simp] theorem cat_iff {e : Cursor} :
    Reads icase (.cat r s) c e ↔ ∃ d, Reads icase r c d ∧ Reads icase s d e := by
  constructor
  · intro h
    cases h with
    | cat hr hs => exact ⟨_, hr, hs⟩
  · rintro ⟨d, hr, hs⟩
    exact .cat hr hs

@[simp] theorem opt_iff : Reads icase (.opt r) c d ↔ Reads icase r c d ∨ d = c := by
  constructor
  · intro h
    cases h with
    | optSome hr => exact .inl hr
    | optNone => exact .inr rfl
  · rintro (hr | rfl)
    · exact .optSome hr
    · exact .optNone

theorem star_iff {e : Cursor} : Reads icase (.star r) c e ↔
    e = c ∨ ∃ d, Reads icase r c d ∧ d.rest.length < c.rest.length ∧ Reads icase (.star r) d e := by
  constructor
  · intro h
    cases h with
    | starNil => exact .inl rfl
    | starCons hr hlt hs => exact .inr ⟨_, hr, hlt, hs⟩
  · rintro (rfl | ⟨d, hr, hlt, hs⟩)
    · exact .starNil
    · exact .starCons hr hlt hs

@[simp] theorem group_iff {n : ℕ} {e : Cursor} :
    Reads icase (.group n r) c e ↔ ∃ d, Reads icase r c d ∧ e = c.capture n d := by
  constructor
  · intro h
    cases h with
    | group hr => exact ⟨_, hr, rfl⟩
  · rintro ⟨d, hr, rfl⟩
    exact .group hr

end Reads

/-! ## §4 All matches -/

/-- The matches of `r*` by up to `n` matches of `r`, longer ones first. -/
def starRuns (step : Cursor → List Cursor) : ℕ → Cursor → List Cursor
  | 0, c => [c]
  | n + 1, c =>
    ((step c).filter fun d => d.rest.length < c.rest.length).flatMap (starRuns step n) ++ [c]

/-- The positions that an expression can read up to, greedy choices first. -/
def Ere.runs (icase : Bool) : Ere → Cursor → List Cursor
  | .empty, c => [c]
  | .bol, c => if c.before = [] then [c] else []
  | .eol, c => if c.rest = [] then [c] else []
  | .set s, c =>
    match c.rest with
    | [] => []
    | b :: rest => if s.accepts icase b then [c.advance [b] rest] else []
  | .cat r s, c => (r.runs icase c).flatMap (s.runs icase)
  | .opt r, c => r.runs icase c ++ [c]
  | .star r, c => starRuns (r.runs icase) c.rest.length c
  | .group n r, c => (r.runs icase c).map (c.capture n)

/-- As many rounds as there are bytes are enough. -/
theorem mem_starRuns {icase : Bool} {r : Ere} {step : Cursor → List Cursor}
    (hstep : ∀ c d, d ∈ step c ↔ Reads icase r c d) {n : ℕ} {c e : Cursor}
    (hn : c.rest.length ≤ n) : e ∈ starRuns step n c ↔ Reads icase (.star r) c e := by
  induction n generalizing c with
  | zero =>
    rw [starRuns, List.mem_singleton, Reads.star_iff]
    constructor
    · exact .inl
    · rintro (rfl | ⟨d, -, hlt, -⟩)
      · rfl
      · omega
  | succ n ih =>
    rw [starRuns, List.mem_append, List.mem_singleton, Reads.star_iff, or_comm]
    refine or_congr_right ?_
    simp only [List.mem_flatMap, List.mem_filter, hstep, decide_eq_true_eq, and_assoc]
    refine exists_congr fun d => and_congr_right fun _ => and_congr_right fun hlt => ?_
    exact ih (by omega)

/-- `runs` lists exactly what the expression matches. -/
theorem mem_runs {icase : Bool} (r : Ere) {c d : Cursor} :
    d ∈ r.runs icase c ↔ Reads icase r c d := by
  induction r generalizing c d with
  | empty => rw [Ere.runs, List.mem_singleton, Reads.empty_iff]
  | bol => simp [Ere.runs]
  | eol => simp [Ere.runs]
  | set s =>
    rw [Ere.runs, Reads.set_iff]
    cases c.rest with
    | nil => simp
    | cons b rest => simp [and_assoc]
  | cat r s ihr ihs => simp [Ere.runs, ihr, ihs]
  | opt r ih => simp [Ere.runs, ih]
  | star r ih => exact mem_starRuns (fun _ _ => ih) le_rfl
  | group n r ih => simp [Ere.runs, ih, eq_comm]

/-! ## §5 `regexec` -/

/-- The positions at which a match may start. -/
def starts (text : List UInt8) : List Cursor :=
  (List.range (text.length + 1)).map fun i => ⟨text.take i, text.drop i, fun _ => none⟩

/-- `regexec`: the leftmost match, and of those that start there a longest. The result maps
    each group, and 0 for the whole match, to the offsets of what it captured; `none` is an
    `rm_so` of -1. -/
def Ere.regexec (icase : Bool) (r : Ere) (text : List UInt8) : Option (ℕ → Option (ℕ × ℕ)) :=
  (starts text).findSome? fun c =>
    ((r.runs icase c).argmax fun d => d.before.length).map fun d => (c.capture 0 d).sub

/-- What `regexec` reports is a match. -/
theorem regexec_sound {icase : Bool} {r : Ere} {text : List UInt8} {m : ℕ → Option (ℕ × ℕ)}
    (h : r.regexec icase text = some m) :
    ∃ c ∈ starts text, ∃ d, Reads icase r c d ∧ m = (c.capture 0 d).sub := by
  obtain ⟨c, hc, hm⟩ := List.exists_of_findSome?_eq_some h
  obtain ⟨d, hd, rfl⟩ := Option.map_eq_some_iff.mp hm
  exact ⟨c, hc, d, (mem_runs r).mp (List.argmax_mem hd), rfl⟩

/-- `regexec` finds a match if there is one. -/
theorem regexec_complete {icase : Bool} {r : Ere} {text : List UInt8} {c d : Cursor}
    (hc : c ∈ starts text) (h : Reads icase r c d) : (r.regexec icase text).isSome := by
  rw [Ere.regexec, List.findSome?_isSome_iff]
  refine ⟨c, hc, ?_⟩
  rw [Option.isSome_map, Option.isSome_iff_ne_none, Ne, List.argmax_eq_none]
  exact List.ne_nil_of_mem ((mem_runs r).mpr h)

/-- `regexec` decides whether there is a match. -/
theorem regexec_isSome_iff {icase : Bool} {r : Ere} {text : List UInt8} :
    (r.regexec icase text).isSome ↔ ∃ c ∈ starts text, ∃ d, Reads icase r c d := by
  constructor
  · intro h
    obtain ⟨m, hm⟩ := Option.isSome_iff_exists.mp h
    obtain ⟨c, hc, d, hread, -⟩ := regexec_sound hm
    exact ⟨c, hc, d, hread⟩
  · rintro ⟨c, hc, d, hread⟩
    exact regexec_complete hc hread

/-- A match that starts where no byte precedes starts at the beginning. -/
theorem eq_of_mem_starts {text : List UInt8} {c : Cursor} (hc : c ∈ starts text)
    (hbefore : c.before = []) : c = ⟨[], text, fun _ => none⟩ := by
  obtain ⟨i, -, rfl⟩ := List.mem_map.mp hc
  have hdrop := List.take_append_drop i text
  rw [show text.take i = [] from hbefore, List.nil_append] at hdrop
  rw [Cursor.mk.injEq]
  exact ⟨hbefore, hdrop, rfl⟩

theorem start_mem_starts (text : List UInt8) : ⟨[], text, fun _ => none⟩ ∈ starts text :=
  List.mem_map.mpr ⟨0, by simp, rfl⟩

/-- The cursors at which a match may start are the ways to cut the text in two. -/
theorem mem_starts_iff {text : List UInt8} {c : Cursor} :
    c ∈ starts text ↔ c.before ++ c.rest = text ∧ c.sub = fun _ => none := by
  constructor
  · intro hc
    obtain ⟨i, -, rfl⟩ := List.mem_map.mp hc
    exact ⟨List.take_append_drop i text, rfl⟩
  · obtain ⟨before, rest, sub⟩ := c
    rintro ⟨rfl, rfl⟩
    refine List.mem_map.mpr ⟨before.length, List.mem_range.mpr ?_, by simp⟩
    simp only [List.length_append]
    omega

/-- `regexec` reports a leftmost match, and none that starts there is longer. -/
theorem regexec_leftmost {icase : Bool} {r : Ere} {text : List UInt8} {m : ℕ → Option (ℕ × ℕ)}
    (h : r.regexec icase text = some m) :
    ∃ c ∈ starts text, ∃ d, Reads icase r c d ∧ m = (c.capture 0 d).sub ∧
      (∀ e, Reads icase r c e → e.before.length ≤ d.before.length) ∧
        ∀ c' ∈ starts text, c'.before.length < c.before.length → ∀ e, ¬ Reads icase r c' e := by
  obtain ⟨l₁, c, l₂, hl, hm, hnone⟩ := List.findSome?_eq_some_iff.mp h
  obtain ⟨d, hd, rfl⟩ := Option.map_eq_some_iff.mp hm
  have hc : c ∈ starts text := by simp [hl]
  refine ⟨c, hc, d, (mem_runs r).mp (List.argmax_mem hd), rfl, ?_, ?_⟩
  · intro e he
    exact List.le_of_mem_argmax (f := fun d : Cursor => d.before.length) ((mem_runs r).mpr he) hd
  · intro c' hc' hlt e he
    -- the cursors are listed by their positions
    have hsorted : (starts text).Pairwise fun c d => c.before.length < d.before.length := by
      rw [starts, List.pairwise_map]
      refine (List.pairwise_lt_range).imp_of_mem fun {i j} hi hj hij => ?_
      have hj' := List.mem_range.mp hj
      simp only [List.length_take]
      omega
    rw [hl] at hc' hsorted
    obtain hbefore | hbehind := List.mem_append.mp hc'
    · have hargmax := Option.map_eq_none_iff.mp (hnone c' hbefore)
      rw [List.argmax_eq_none] at hargmax
      have hrun := (mem_runs r).mpr he
      rw [hargmax] at hrun
      cases hrun
    · obtain rfl | htail := List.mem_cons.mp hbehind
      · exact absurd hlt (lt_irrefl _)
      · have hgt := (List.pairwise_cons.mp (List.pairwise_append.mp hsorted).2.1).1 c' htail
        omega

/-! ## §6 Expressions in a row -/

namespace Reads

variable {icase : Bool} {rs : List Ere} {c d : Cursor}

@[simp] theorem seq_nil_iff : Reads icase (.seq []) c d ↔ d = c := empty_iff

theorem seq_cons_iff {r : Ere} {e : Cursor} :
    Reads icase (.seq (r :: rs)) c e ↔ ∃ d, Reads icase r c d ∧ Reads icase (.seq rs) d e :=
  cat_iff

/-- A `*` behind a bracket expression matches any number of bytes that it accepts. -/
theorem star_set_iff {s : Bracket} : Reads icase (.star (.set s)) c d ↔
    ∃ w rest, c.rest = w ++ rest ∧ (∀ b ∈ w, s.accepts icase b) ∧ d = c.advance w rest := by
  constructor
  · intro h
    generalize hr : Ere.star (.set s) = r at h
    induction h with
    | @starNil r c => exact ⟨[], c.rest, rfl, by simp, (Cursor.advance_nil rfl).symm⟩
    | @starCons r c d e hread hlt _ _ ih =>
      obtain rfl : Ere.set s = r := Ere.star.inj hr
      obtain ⟨b, rest, hrest, hb, rfl⟩ := set_iff.mp hread
      obtain ⟨w, rest', hw, hall, rfl⟩ := ih rfl
      refine ⟨b :: w, rest', ?_, ?_, ?_⟩
      · rw [hrest, List.cons_append, List.cons_inj_right]
        exact hw
      · exact List.forall_mem_cons.mpr ⟨hb, hall⟩
      · rw [Cursor.advance_advance, List.singleton_append]
    | _ => cases hr
  · rintro ⟨w, rest, hrest, hall, rfl⟩
    induction w generalizing c with
    | nil =>
      rw [List.nil_append] at hrest
      rw [Cursor.advance_nil hrest]
      exact .starNil
    | cons b w ih =>
      obtain ⟨hb, hall⟩ := List.forall_mem_cons.mp hall
      have hread : Reads icase (.set s) c (c.advance [b] (w ++ rest)) := .set hrest hb
      have htail := ih (c := c.advance [b] (w ++ rest)) rfl hall
      rw [Cursor.advance_advance, List.singleton_append] at htail
      exact .starCons hread (by simp [hrest, Cursor.advance]) htail

/-- The bytes are those of the string, up to case if `icase`. -/
def Spells (icase : Bool) (w s : List UInt8) : Prop :=
  List.Forall₂ (fun b c => (Bracket.one c).accepts icase b) w s

/-- A literal reads bytes that spell it. -/
theorem seq_lit_append_iff {s : List UInt8} {e : Cursor} :
    Reads icase (.seq (Ere.lit s ++ rs)) c e ↔
      ∃ w rest, c.rest = w ++ rest ∧ Spells icase w s ∧
        Reads icase (.seq rs) (c.advance w rest) e := by
  induction s generalizing c with
  | nil =>
    constructor
    · intro h
      rw [Ere.lit, List.map_nil, List.nil_append] at h
      exact ⟨[], c.rest, rfl, .nil, by rwa [Cursor.advance_nil rfl]⟩
    · rintro ⟨w, rest, hrest, ⟨⟩, h⟩
      rw [List.nil_append] at hrest
      rwa [Cursor.advance_nil hrest] at h
  | cons b s ih =>
    have hlit : Ere.lit (b :: s) ++ rs = .set (.one b) :: (Ere.lit s ++ rs) := rfl
    rw [hlit, seq_cons_iff]
    constructor
    · rintro ⟨d, hset, htail⟩
      obtain ⟨a, rest, hrest, ha, rfl⟩ := set_iff.mp hset
      obtain ⟨w, rest', hw, hspells, hread⟩ := ih.mp htail
      refine ⟨a :: w, rest', ?_, .cons ha hspells, ?_⟩
      · rw [hrest, List.cons_append, List.cons_inj_right]
        exact hw
      · rwa [Cursor.advance_advance, List.singleton_append] at hread
    · rintro ⟨w, rest, hrest, hspells, hread⟩
      cases hspells with
      | @cons a _ w _ ha hspells =>
        refine ⟨c.advance [a] (w ++ rest), .set hrest ha, ih.mpr ⟨w, rest, rfl, hspells, ?_⟩⟩
        rwa [Cursor.advance_advance, List.singleton_append]

/-- A group of any number of bytes. -/
theorem seq_group_star_iff {s : Bracket} {n : ℕ} {e : Cursor} :
    Reads icase (.seq (.group n (.seq [.star (.set s)]) :: rs)) c e ↔
      ∃ w rest, c.rest = w ++ rest ∧ (∀ b ∈ w, s.accepts icase b) ∧
        Reads icase (.seq rs) (c.capture n (c.advance w rest)) e := by
  simp only [seq_cons_iff, group_iff, star_set_iff, seq_nil_iff]
  constructor
  · rintro ⟨-, ⟨-, ⟨-, ⟨w, rest, hrest, hw, rfl⟩, rfl⟩, rfl⟩, htail⟩
    exact ⟨w, rest, hrest, hw, htail⟩
  · rintro ⟨w, rest, hrest, hw, htail⟩
    exact ⟨_, ⟨_, ⟨_, ⟨w, rest, hrest, hw, rfl⟩, rfl⟩, rfl⟩, htail⟩

/-- A group of one or more bytes. -/
theorem seq_group_plus_iff {s : Bracket} {n : ℕ} {e : Cursor} :
    Reads icase (.seq (.group n (.seq [.set s, .star (.set s)]) :: rs)) c e ↔
      ∃ w rest, c.rest = w ++ rest ∧ w ≠ [] ∧ (∀ b ∈ w, s.accepts icase b) ∧
        Reads icase (.seq rs) (c.capture n (c.advance w rest)) e := by
  simp only [seq_cons_iff, group_iff, set_iff, star_set_iff, seq_nil_iff]
  constructor
  · rintro ⟨-, ⟨-, ⟨-, ⟨b, _, hrest, hb, rfl⟩, -, ⟨w, rest, rfl, hw, rfl⟩, rfl⟩, rfl⟩, htail⟩
    rw [Cursor.advance_advance, List.singleton_append] at htail
    exact ⟨b :: w, rest, hrest, List.cons_ne_nil b w, List.forall_mem_cons.mpr ⟨hb, hw⟩, htail⟩
  · rintro ⟨w, rest, hrest, hne, hw, htail⟩
    cases w with
    | nil => exact absurd rfl hne
    | cons b w =>
      obtain ⟨hb, hw⟩ := List.forall_mem_cons.mp hw
      refine ⟨_, ⟨_, ⟨_, ⟨b, w ++ rest, hrest, hb, rfl⟩, _, ⟨w, rest, rfl, hw, rfl⟩, rfl⟩, rfl⟩, ?_⟩
      rwa [Cursor.advance_advance, List.singleton_append]

/-- A group of at most one byte. -/
theorem seq_group_opt_iff {s : Bracket} {n : ℕ} {e : Cursor} :
    Reads icase (.seq (.group n (.seq [.opt (.set s)]) :: rs)) c e ↔
      ∃ w rest, c.rest = w ++ rest ∧ w.length ≤ 1 ∧ (∀ b ∈ w, s.accepts icase b) ∧
        Reads icase (.seq rs) (c.capture n (c.advance w rest)) e := by
  simp only [seq_cons_iff, group_iff, opt_iff, set_iff, seq_nil_iff]
  constructor
  · rintro ⟨_, ⟨_, ⟨_, ⟨b, rest, hrest, hb, rfl⟩ | rfl, rfl⟩, rfl⟩, htail⟩
    · exact ⟨[b], rest, hrest, le_rfl, by simpa using hb, htail⟩
    · refine ⟨[], _, rfl, Nat.zero_le 1, by simp, ?_⟩
      rwa [Cursor.advance_nil rfl]
  · rintro ⟨w, rest, hrest, hle, hw, htail⟩
    refine ⟨_, ⟨_, ⟨_, ?_, rfl⟩, rfl⟩, htail⟩
    match w, hle with
    | [], _ => exact .inr (Cursor.advance_nil hrest)
    | [b], _ => exact .inl ⟨b, rest, hrest, hw b List.mem_cons_self, rfl⟩

end Reads

end Equic.Foundation
