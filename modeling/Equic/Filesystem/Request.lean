import Equic.Foundation.Ere
import Mathlib.Data.List.DropRight

/-!
# Requests for files

In Filesystem Mode a request is a text. `parse_request` looks for a GET line with an
extended regular expression that is neither anchored nor confined to one line: the path is
all that stands between the first "GET " and the last " HTTP/1" that ends a line
(`parseRequest_eq_some_iff`). `hq_server_on_read` wants the three letters in front and takes
the rest without its line end (`hqRequest_eq_some_iff`).
-/

namespace Equic.Filesystem

open Equic.Foundation

/-! ## §1 `parse_request` -/

/-- What a C string function sees of a buffer that ends with a NUL. -/
def cString (buf : List UInt8) : List UInt8 := buf.takeWhile (· ≠ 0)

/-- "\r\n" -/
def crlf : List UInt8 := [13, 10]

/-- `.` matches every byte, the line end included. -/
def anyByte : Bracket := ⟨true, []⟩

/-- `[01]` -/
def zeroOrOne : Bracket := ⟨false, [(48, 49)]⟩

/-- "GET (.*) HTTP/1.[01]\r\n" -/
def getLine : Ere :=
  .seq (Ere.lit (cstr "GET ") ++ .group 1 (.seq [.star (.set anyByte)]) ::
    (Ere.lit (cstr " HTTP/1") ++ .set anyByte :: .set zeroOrOne :: Ere.lit crlf))

/-- `parse_request`: the path, if the request could be parsed. -/
def parseRequest (reqBuf : List UInt8) : Option (List UInt8) := do
  let str := cString reqBuf
  let m ← getLine.regexec false str
  let (so, eo) ← m 1
  return (str.drop so).take (eo - so)

/-- `[[:alnum:].]` -/
def hostByte : Bracket := ⟨false, [(48, 57), (65, 90), (97, 122), (46, 46)]⟩

/-- "\r\nHost: *([[:alnum:].][[:alnum:].]*)\r\n" -/
def hostLine : Ere :=
  .seq (Ere.lit (crlf ++ cstr "Host:") ++ .star (.set (.one 32)) ::
    .group 1 (.seq [.set hostByte, .star (.set hostByte)]) :: Ere.lit crlf)

/-- The host that `push_promise` finds in the request. -/
def hostOf (reqBuf : List UInt8) : Option (List UInt8) := do
  let str := cString reqBuf
  let m ← hostLine.regexec true str
  let (so, eo) ← m 1
  return (str.drop so).take (eo - so)

/-! ## §2 `hq_server_on_read` -/

/-- The loop over `end`, which stops at the first byte of the path. -/
def trimEnd : List UInt8 → List UInt8
  | [] => []
  | b :: bs => b :: bs.rdropWhile fun e => e = 0 || e = 13 || e = 10

/-- The request behind the label of `hq_server_on_read`: the path, if it is accepted. -/
def hqRequest (reqBuf : List UInt8) : Option (List UInt8) :=
  let method := (cString reqBuf).takeWhile (· ≠ 32)
  if method.length = (cString reqBuf).length then none
  else if method.length = 3 ∧ method.map toLower = cstr "get" then
    some (cString (trimEnd (reqBuf.drop 4)))
  else none

/-! ## §3 What the GET line matches -/

/-- The end of a request line. -/
def IsVersion (w : List UInt8) : Prop :=
  ∃ c d, (d = 48 ∨ d = 49) ∧ w = cstr " HTTP/1" ++ [c, d] ++ crlf

theorem IsVersion.length {w : List UInt8} (h : IsVersion w) : w.length = 11 := by
  obtain ⟨c, d, -, rfl⟩ := h
  rfl

theorem zeroOrOne_accepts {b : UInt8} : zeroOrOne.accepts false b = true ↔ b = 48 ∨ b = 49 := by
  have hiff : zeroOrOne.accepts false b = true ↔ 48 ≤ b ∧ b ≤ 49 := by
    simp [Bracket.accepts, zeroOrOne, Bracket.lists]
  rw [hiff]
  constructor
  · rintro ⟨hlo, hhi⟩
    have hlo' : 48 ≤ b.toNat := hlo
    have hhi' : b.toNat ≤ 49 := hhi
    obtain h | h : b.toNat = 48 ∨ b.toNat = 49 := by omega
    · exact .inl (UInt8.toNat_inj.mp h)
    · exact .inr (UInt8.toNat_inj.mp h)
  · rintro (rfl | rfl) <;> decide

/-- Without regard to case only the string itself spells it. -/
theorem spells_false_iff {w s : List UInt8} : Reads.Spells false w s ↔ w = s := by
  constructor
  · intro h
    induction h with
    | nil => rfl
    | @cons b c w s hb _ ih =>
      have hrange : c ≤ b ∧ b ≤ c := by
        simpa [Bracket.accepts, Bracket.one, Bracket.lists] using hb
      rw [UInt8.le_antisymm hrange.2 hrange.1, ih]
  · rintro rfl
    induction w with
    | nil => exact .nil
    | cons b w ih =>
      refine .cons ?_ ih
      simp [Bracket.accepts, Bracket.one, Bracket.lists]

theorem reads_lit_iff {icase : Bool} {s : List UInt8} {c d : Cursor} :
    Reads icase (.seq (Ere.lit s)) c d ↔
      ∃ w rest, c.rest = w ++ rest ∧ Reads.Spells icase w s ∧ d = c.advance w rest := by
  rw [← List.append_nil (Ere.lit s), Reads.seq_lit_append_iff]
  simp

theorem length_cstr_get : (cstr "GET ").length = 4 := rfl

/-- The whole expression, with what it captures. -/
theorem reads_getLine_iff {c d : Cursor} : Reads false getLine c d ↔
    ∃ path w rest, c.rest = cstr "GET " ++ path ++ w ++ rest ∧ IsVersion w ∧
      d = ⟨c.before ++ cstr "GET " ++ path ++ w, rest,
        Function.update c.sub 1
          (some (c.before.length + 4, c.before.length + 4 + path.length))⟩ := by
  simp only [getLine, Reads.seq_lit_append_iff, Reads.seq_group_star_iff, spells_false_iff]
  simp only [Reads.seq_cons_iff, Reads.set_iff, reads_lit_iff, spells_false_iff]
  constructor
  · rintro ⟨get, rest₁, hget, rfl, path, rest₂, hpath, -, version, rest₃, hversion, rfl, -,
      ⟨a, rest₄, ha, -, rfl⟩, -, ⟨b, rest₅, hb, hone, rfl⟩, -, rest₆, hend, rfl, rfl⟩
    simp only [Cursor.capture, Cursor.advance] at hpath hversion ha hb hend
    subst hpath hversion ha hb hend
    refine ⟨path, cstr " HTTP/1" ++ [a, b] ++ crlf, rest₆, ?_, ⟨a, b, ?_, rfl⟩, ?_⟩
    · rw [hget]
      simp
    · exact zeroOrOne_accepts.mp hone
    · simp only [Cursor.capture, Cursor.advance, List.append_assoc, List.length_append,
        length_cstr_get, Nat.add_assoc, List.cons_append, List.nil_append]
  · rintro ⟨path, w, rest, hrest, ⟨a, b, hone, rfl⟩, rfl⟩
    refine ⟨cstr "GET ", path ++ cstr " HTTP/1" ++ a :: b :: (crlf ++ rest), by simpa using hrest,
      rfl, path, cstr " HTTP/1" ++ a :: b :: (crlf ++ rest), by simp [Cursor.advance], ?_,
      cstr " HTTP/1", a :: b :: (crlf ++ rest), rfl, rfl, _, ⟨a, b :: (crlf ++ rest), rfl, ?_, rfl⟩,
      _, ⟨b, crlf ++ rest, rfl, ?_, rfl⟩, crlf, rest, rfl, rfl, ?_⟩
    · exact fun _ _ => rfl
    · rfl
    · exact zeroOrOne_accepts.mpr hone
    · simp only [Cursor.capture, Cursor.advance, List.append_assoc, List.length_append,
        length_cstr_get, Nat.add_assoc, List.cons_append, List.nil_append]

/-! ## §4 The path of a request -/

/-- The path stands between the first "GET " of the text and its last version. -/
def RequestPath (text path : List UInt8) : Prop :=
  ∃ pre w post, text = pre ++ cstr "GET " ++ path ++ w ++ post ∧ IsVersion w ∧
    (∀ pre' rest, text = pre' ++ cstr "GET " ++ rest → pre.length ≤ pre'.length) ∧
      ∀ pre' w' post', text = pre' ++ w' ++ post' → IsVersion w' → post.length ≤ post'.length

/-- There is at most one. -/
theorem RequestPath.unique {text path path' : List UInt8} (h : RequestPath text path)
    (h' : RequestPath text path') : path = path' := by
  obtain ⟨pre, w, post, htext, hw, hfirst, hlast⟩ := h
  obtain ⟨pre', w', post', htext', hw', hfirst', hlast'⟩ := h'
  have hpre : pre.length = pre'.length :=
    le_antisymm (hfirst pre' (path' ++ w' ++ post') (by simp [htext']))
      (hfirst' pre (path ++ w ++ post) (by simp [htext]))
  have hpost : post.length = post'.length :=
    le_antisymm (hlast _ w' post' htext' hw') (hlast' _ w post htext hw)
  have hsame : pre ++ cstr "GET " ++ path ++ w ++ post =
      pre' ++ cstr "GET " ++ path' ++ w' ++ post' := htext.symm.trans htext'
  obtain ⟨hsame, -⟩ := List.append_inj' hsame hpost
  obtain ⟨hsame, -⟩ := List.append_inj' hsame (hw.length.trans hw'.length.symm)
  exact (List.append_inj hsame (by simp [hpre])).2

/-- Two ways to cut a text, the first of which ends first. -/
theorem exists_append_of_cut {text a b c d : List UInt8} (h : text = a ++ b) (h' : text = c ++ d)
    (hle : a.length ≤ c.length) : ∃ mid, c = a ++ mid ∧ b = mid ++ d := by
  have hprefix : a <+: c := List.prefix_of_prefix_length_le ⟨b, h.symm⟩ ⟨d, h'.symm⟩ hle
  obtain ⟨mid, rfl⟩ := hprefix
  refine ⟨mid, rfl, ?_⟩
  rw [h, List.append_assoc, List.append_cancel_left_eq] at h'
  exact h'

/-- What the expression finds is the path. -/
theorem requestPath_of_regexec {text : List UInt8} {m : ℕ → Option (ℕ × ℕ)}
    (h : getLine.regexec false text = some m) :
    ∃ so eo, m 1 = some (so, eo) ∧ RequestPath text ((text.drop so).take (eo - so)) := by
  obtain ⟨c, hc, d, hread, rfl, hlongest, hleftmost⟩ := regexec_leftmost h
  obtain ⟨path, w, rest, hrest, hw, rfl⟩ := reads_getLine_iff.mp hread
  obtain ⟨htext, hsub⟩ := mem_starts_iff.mp hc
  rw [hrest] at htext
  refine ⟨c.before.length + 4, c.before.length + 4 + path.length, ?_, c.before, w, rest, ?_, hw,
    ?_, ?_⟩
  · simp [Cursor.capture]
  · have hdrop : text.drop (c.before.length + 4) = path ++ (w ++ rest) := by
      have hcut : text = c.before ++ cstr "GET " ++ (path ++ (w ++ rest)) := by simp [← htext]
      rw [hcut, ← length_cstr_get, ← List.length_append, List.drop_left]
    rw [hdrop, Nat.add_sub_cancel_left, List.take_left, ← htext]
    simp
  · -- a "GET " further left would match too
    intro pre' rest' hpre'
    by_contra hlt
    have hcut : text = c.before ++ cstr "GET " ++ path ++ (w ++ rest) := by simp [← htext]
    obtain ⟨path', hpath', -⟩ := exists_append_of_cut hpre' hcut (by
      simp only [List.length_append]
      omega)
    refine hleftmost ⟨pre', cstr "GET " ++ path' ++ w ++ rest, fun _ => none⟩
      (mem_starts_iff.mpr ⟨?_, rfl⟩) (Nat.lt_of_not_le hlt) _
      (reads_getLine_iff.mpr ⟨path', w, rest, rfl, hw, rfl⟩)
    rw [hcut, hpath']
    simp
  · -- a version further right would make a longer match
    intro pre' w' post' hpost' hw'
    by_contra hlt
    have hcut : text = c.before ++ cstr "GET " ++ (path ++ w ++ rest) := by simp [← htext]
    have hcut' : text = pre' ++ (w' ++ post') := by simp [hpost']
    have hlen := congrArg List.length (hcut.symm.trans hcut')
    simp only [List.length_append, hw.length, hw'.length] at hlen
    obtain ⟨path', rfl, htail⟩ := exists_append_of_cut hcut hcut' (by
      simp only [List.length_append]
      omega)
    have hmore := hlongest _ (reads_getLine_iff.mpr ⟨path', w', post', ?_, hw', rfl⟩)
    · simp only [List.length_append, hw.length, hw'.length] at hmore hlen
      omega
    · rw [hrest, List.append_assoc, List.append_assoc, ← List.append_assoc path, htail]
      simp

/-- **`parse_request` is exact**: the path is what stands between the first "GET " and the
    last version of the request, whatever is in between. -/
theorem parseRequest_eq_some_iff (reqBuf path : List UInt8) :
    parseRequest reqBuf = some path ↔ RequestPath (cString reqBuf) path := by
  constructor
  · intro h
    obtain ⟨m, hm, h⟩ := Option.bind_eq_some_iff.mp h
    obtain ⟨so, eo, hgroup, hpath⟩ := requestPath_of_regexec hm
    obtain ⟨_, hgroup', h⟩ := Option.bind_eq_some_iff.mp h
    obtain rfl := Option.some.inj (hgroup.symm.trans hgroup')
    obtain rfl := Option.some.inj h
    exact hpath
  · intro h
    have hsome : (getLine.regexec false (cString reqBuf)).isSome := by
      obtain ⟨pre, w, post, htext, hw, -⟩ := h
      refine regexec_complete (c := ⟨pre, cstr "GET " ++ path ++ w ++ post, fun _ => none⟩)
        (mem_starts_iff.mpr ⟨by simp [htext], rfl⟩)
        (reads_getLine_iff.mpr ⟨path, w, post, rfl, hw, rfl⟩)
    obtain ⟨m, hm⟩ := Option.isSome_iff_exists.mp hsome
    obtain ⟨so, eo, hgroup, hpath⟩ := requestPath_of_regexec hm
    rw [parseRequest, hm, Option.bind_eq_bind, Option.bind_some, hgroup, h.unique hpath]
    rfl

theorem cString_eq_self_iff (buf : List UInt8) : cString buf = buf ↔ 0 ∉ buf := by
  rw [cString, List.takeWhile_eq_self_iff]
  constructor
  · intro h h0
    simpa using h 0 h0
  · intro h b hb
    have hne : b ≠ 0 := fun hzero => h (hzero ▸ hb)
    simpa using hne

/-- **No path is refused**, whatever bytes it has and wherever it leads. -/
theorem parseRequest_get (path : List UInt8) (hpath : 0 ∉ path) :
    parseRequest (cstr "GET " ++ path ++ cstr " HTTP/1.1" ++ crlf) = some path := by
  have hnul : (0 : UInt8) ∉ cstr "GET " ++ path ++ cstr " HTTP/1.1" ++ crlf := by
    have hrest : (0 : UInt8) ∉ cstr "GET " ∧ (0 : UInt8) ∉ cstr " HTTP/1.1" ++ crlf := by decide
    simp only [List.append_assoc, List.mem_append, not_or] at hrest ⊢
    exact ⟨hrest.1, hpath, hrest.2⟩
  rw [parseRequest_eq_some_iff, (cString_eq_self_iff _).mpr hnul]
  refine ⟨[], cstr " HTTP/1.1" ++ crlf, [], by simp, ⟨46, 49, .inr rfl, rfl⟩, ?_, ?_⟩
  · exact fun _ _ _ => Nat.zero_le _
  · exact fun _ _ _ _ _ => Nat.zero_le _

/-! ## §5 The host of a request -/

/-- A host line: its head in any case, blanks and a name. -/
structure IsHostLine (head blanks name : List UInt8) : Prop where
  head : Reads.Spells true head (crlf ++ cstr "Host:")
  blanks : ∀ b ∈ blanks, b = 32
  name_ne : name ≠ []
  name : ∀ b ∈ name, hostByte.accepts true b = true

theorem blank_accepts {b : UInt8} : (Bracket.one 32).accepts true b = true ↔ b = 32 := by
  have hbytes : ∀ i : Fin 256, (Bracket.one 32).accepts true (UInt8.ofFin i) = true →
      UInt8.ofFin i = 32 := by decide +kernel
  constructor
  · intro h
    exact hbytes b.toFin h
  · rintro rfl
    decide

/-- "\r\n" has no cases. -/
theorem spells_crlf_iff {w : List UInt8} : Reads.Spells true w crlf ↔ w = crlf := by
  have hbytes : ∀ i : Fin 256,
      ((Bracket.one 13).accepts true (UInt8.ofFin i) = true → UInt8.ofFin i = 13) ∧
        ((Bracket.one 10).accepts true (UInt8.ofFin i) = true → UInt8.ofFin i = 10) := by
    decide +kernel
  constructor
  · intro h
    obtain _ | ⟨ha, _ | ⟨hb, ⟨⟩⟩⟩ := h
    rename_i a b
    have hcr : a = 13 := (hbytes a.toFin).1 ha
    have hlf : b = 10 := (hbytes b.toFin).2 hb
    rw [hcr, hlf]
    rfl
  · rintro rfl
    exact .cons (by decide) (.cons (by decide) .nil)

theorem reads_hostLine_iff {c d : Cursor} : Reads true hostLine c d ↔
    ∃ head blanks name rest, c.rest = head ++ blanks ++ name ++ crlf ++ rest ∧
      IsHostLine head blanks name ∧
      d = ⟨c.before ++ head ++ blanks ++ name ++ crlf, rest, Function.update c.sub 1
        (some (c.before.length + head.length + blanks.length,
          c.before.length + head.length + blanks.length + name.length))⟩ := by
  simp only [hostLine, Reads.seq_lit_append_iff]
  simp only [Reads.seq_cons_iff (r := .star _), Reads.star_set_iff, Reads.seq_group_plus_iff,
    reads_lit_iff, spells_crlf_iff, blank_accepts]
  constructor
  · rintro ⟨head, rest₁, hhead, hspells, -, ⟨blanks, rest₂, hblanks, hall, rfl⟩, name, rest₃, hname,
      hne, hbytes, -, rest₄, hend, rfl, rfl⟩
    simp only [Cursor.capture, Cursor.advance] at hblanks hname hend
    subst hblanks hname hend
    refine ⟨head, blanks, name, rest₄, ?_, ⟨hspells, hall, hne, hbytes⟩, ?_⟩
    · rw [hhead]
      simp
    · simp only [Cursor.capture, Cursor.advance, List.append_assoc, List.length_append,
        Nat.add_assoc]
  · rintro ⟨head, blanks, name, rest, hrest, hline, rfl⟩
    refine ⟨head, blanks ++ name ++ crlf ++ rest, by simpa using hrest, hline.head, _,
      ⟨blanks, name ++ crlf ++ rest, by simp [Cursor.advance], hline.blanks, rfl⟩, name,
      crlf ++ rest, by simp [Cursor.advance], hline.name_ne, hline.name, crlf, rest, rfl, rfl, ?_⟩
    simp only [Cursor.capture, Cursor.advance, List.append_assoc, List.length_append,
      Nat.add_assoc]

/-- **`push_promise` finds a host exactly if there is a host line**, and the host is its
    name. -/
theorem hostOf_spec (reqBuf : List UInt8) :
    ((hostOf reqBuf).isSome ↔ ∃ pre head blanks name post,
      cString reqBuf = pre ++ head ++ blanks ++ name ++ crlf ++ post ∧
        IsHostLine head blanks name) ∧
    ∀ host, hostOf reqBuf = some host → ∃ pre head blanks post,
      cString reqBuf = pre ++ head ++ blanks ++ host ++ crlf ++ post ∧
        IsHostLine head blanks host := by
  have hfound : ∀ m, hostLine.regexec true (cString reqBuf) = some m →
      ∃ so eo pre head blanks name post, m 1 = some (so, eo) ∧
        ((cString reqBuf).drop so).take (eo - so) = name ∧
        cString reqBuf = pre ++ head ++ blanks ++ name ++ crlf ++ post ∧
          IsHostLine head blanks name := by
    intro m hm
    obtain ⟨c, hc, d, hread, rfl, -⟩ := regexec_leftmost hm
    obtain ⟨head, blanks, name, rest, hrest, hline, rfl⟩ := reads_hostLine_iff.mp hread
    obtain ⟨htext, -⟩ := mem_starts_iff.mp hc
    rw [hrest] at htext
    have hcut : cString reqBuf = c.before ++ head ++ blanks ++ (name ++ (crlf ++ rest)) := by
      simp [← htext]
    refine ⟨c.before.length + head.length + blanks.length,
      c.before.length + head.length + blanks.length + name.length, c.before, head, blanks, name,
      rest, by simp [Cursor.capture], ?_, by simp [hcut], hline⟩
    rw [hcut, ← List.length_append, ← List.length_append, List.drop_left,
      Nat.add_sub_cancel_left, List.take_left]
  have hname : ∀ host, hostOf reqBuf = some host → ∃ pre head blanks post,
      cString reqBuf = pre ++ head ++ blanks ++ host ++ crlf ++ post ∧
        IsHostLine head blanks host := by
    intro host h
    obtain ⟨m, hm, h⟩ := Option.bind_eq_some_iff.mp h
    obtain ⟨so, eo, pre, head, blanks, name, post, hgroup, rfl, htext, hline⟩ := hfound m hm
    obtain ⟨_, hgroup', h⟩ := Option.bind_eq_some_iff.mp h
    obtain rfl := Option.some.inj (hgroup.symm.trans hgroup')
    obtain rfl := Option.some.inj h
    exact ⟨pre, head, blanks, post, htext, hline⟩
  refine ⟨⟨fun h => ?_, ?_⟩, hname⟩
  · obtain ⟨host, hhost⟩ := Option.isSome_iff_exists.mp h
    obtain ⟨pre, head, blanks, post, htext, hline⟩ := hname host hhost
    exact ⟨pre, head, blanks, host, post, htext, hline⟩
  · rintro ⟨pre, head, blanks, name, post, htext, hline⟩
    have hsome : (hostLine.regexec true (cString reqBuf)).isSome :=
      regexec_complete (c := ⟨pre, head ++ blanks ++ name ++ crlf ++ post, fun _ => none⟩)
        (mem_starts_iff.mpr ⟨by simp [htext], rfl⟩)
        (reads_hostLine_iff.mpr ⟨head, blanks, name, post, rfl, hline, rfl⟩)
    obtain ⟨m, hm⟩ := Option.isSome_iff_exists.mp hsome
    obtain ⟨so, eo, -, -, -, -, -, hgroup, -⟩ := hfound m hm
    rw [hostOf, hm, Option.bind_eq_bind, Option.bind_some, hgroup]
    rfl

/-! ## §6 hq requests -/

/-- The bytes that end an hq request. -/
def IsEnd (b : UInt8) : Prop := b = 0 ∨ b = 13 ∨ b = 10

/-- What the loop over `end` leaves of `q ++ eol`. -/
structure TrimsTo (eol q : List UInt8) : Prop where
  ends : ∀ b ∈ eol, IsEnd b
  /-- The first byte is never trimmed. -/
  first : q = [] → eol = []
  last : ∀ a b, q = a ++ [b] → a ≠ [] → ¬ IsEnd b

/-- `rdropWhile` removes a suffix on which the predicate holds, and no byte before it. -/
theorem rdropWhile_eq_iff {α : Type*} {p : α → Bool} {l q : List α} :
    l.rdropWhile p = q ↔
      ∃ eol, l = q ++ eol ∧ (∀ b ∈ eol, p b) ∧ ∀ a b, q = a ++ [b] → ¬ p b := by
  constructor
  · rintro rfl
    induction l using List.reverseRecOn with
    | nil => exact ⟨[], rfl, by simp, by simp⟩
    | append_singleton l x ih =>
      by_cases hx : p x
      · obtain ⟨eol, hl, heol, hlast⟩ := ih
        rw [List.rdropWhile_concat_pos p l x hx]
        refine ⟨eol ++ [x], ?_, ?_, hlast⟩
        · rw [← List.append_assoc, ← hl]
        · simpa [or_imp, forall_and, hx] using heol
      · rw [List.rdropWhile_concat_neg p l x hx]
        refine ⟨[], by simp, by simp, fun a b h => ?_⟩
        obtain ⟨-, hxb⟩ := List.append_inj' h rfl
        rwa [← List.singleton_inj.mp hxb]
  · rintro ⟨eol, rfl, heol, hlast⟩
    induction eol using List.reverseRecOn with
    | nil =>
      rw [List.append_nil, List.rdropWhile_eq_self_iff]
      intro hne
      exact hlast _ _ (List.dropLast_append_getLast hne).symm
    | append_singleton eol x ih =>
      rw [← List.append_assoc, List.rdropWhile_concat_pos p _ x (heol x (by simp))]
      exact ih fun b hb => heol b (List.mem_append_left _ hb)

theorem trimEnd_eq_iff (rest q : List UInt8) :
    trimEnd rest = q ↔ ∃ eol, rest = q ++ eol ∧ TrimsTo eol q := by
  have hend : ∀ b : UInt8, (b = 0 || b = 13 || b = 10) = true ↔ IsEnd b := by
    intro b
    simp [IsEnd, or_assoc]
  cases rest with
  | nil =>
    constructor
    · rintro rfl
      refine ⟨[], rfl, by simp, fun _ => rfl, fun a b h _ => ?_⟩
      simp [trimEnd] at h
    · rintro ⟨eol, h, -⟩
      exact (List.append_eq_nil_iff.mp h.symm).1.symm
  | cons c bs =>
    constructor
    · rintro rfl
      obtain ⟨eol, heq, heol, hlast⟩ := rdropWhile_eq_iff.mp
        (rfl : bs.rdropWhile (fun e => e = 0 || e = 13 || e = 10) = _)
      refine ⟨eol, by rw [trimEnd, List.cons_append, ← heq], fun b hb => (hend b).mp (heol b hb),
        by rintro ⟨⟩, fun a b h ha => ?_⟩
      rw [← hend b]
      cases a with
      | nil => exact absurd rfl ha
      | cons a as => exact hlast as b (List.cons.inj h).2
    · rintro ⟨eol, h, htrims⟩
      cases q with
      | nil =>
        rw [htrims.first rfl] at h
        cases h
      | cons d q =>
        obtain ⟨rfl, rfl⟩ := List.cons.inj h
        rw [trimEnd, List.cons_inj_right, rdropWhile_eq_iff]
        refine ⟨eol, rfl, fun b hb => (hend b).mpr (htrims.ends b hb), fun a b hab => ?_⟩
        rw [hend b]
        exact htrims.last (c :: a) b (by rw [hab, List.cons_append]) (by simp)

/-- What `strchr` finds. -/
theorem exists_cons_of_takeWhile {c : UInt8} {l : List UInt8}
    (h : (l.takeWhile (· ≠ c)).length ≠ l.length) :
    ∃ rest, l = l.takeWhile (· ≠ c) ++ c :: rest := by
  induction l with
  | nil => exact absurd rfl h
  | cons b l ih =>
    by_cases hb : b = c
    · subst hb
      exact ⟨l, by simp⟩
    · have htake : (b :: l).takeWhile (· ≠ c) = b :: l.takeWhile (· ≠ c) := by simp [hb]
      rw [htake] at h ⊢
      obtain ⟨rest, hrest⟩ := ih (by simpa using h)
      exact ⟨rest, by rw [List.cons_append, ← hrest]⟩

theorem takeWhile_ne_append {c : UInt8} {w : List UInt8} (hw : ∀ b ∈ w, b ≠ c)
    (rest : List UInt8) : (w ++ rest).takeWhile (· ≠ c) = w ++ rest.takeWhile (· ≠ c) :=
  List.takeWhile_append_of_pos fun b hb => by simpa using hw b hb

theorem drop_method {get : List UInt8} (hlen : get.length = 3) (rest : List UInt8) :
    (get ++ 32 :: rest).drop 4 = rest := by
  have hcut : get ++ 32 :: rest = get ++ [32] ++ rest := by simp
  rw [hcut, List.drop_left' (by simp [hlen])]

/-- **`hq_server_on_read` is exact**: a request is accepted if it begins with GET, in any
    case, and a blank; the path is the rest up to the line end, and up to a NUL. -/
theorem hqRequest_eq_some_iff (text path : List UInt8) :
    hqRequest text = some path ↔ ∃ get q eol, text = get ++ 32 :: (q ++ eol) ∧
      get.map toLower = cstr "get" ∧ TrimsTo eol q ∧ path = cString q := by
  unfold hqRequest
  constructor
  · intro h
    dsimp only at h
    split at h
    · cases h
    · rename_i hspace
      split at h
      · rename_i hget
        -- the text begins with the method and a blank
        obtain rfl := Option.some.inj h
        obtain ⟨rest, hrest⟩ := exists_cons_of_takeWhile hspace
        obtain ⟨tail, htail⟩ : ∃ tail, text = cString text ++ tail :=
          ⟨_, (List.takeWhile_append_dropWhile).symm⟩
        generalize (cString text).takeWhile (· ≠ 32) = get at hget hrest
        rw [hrest] at htail
        have hdrop : text.drop 4 = rest ++ tail := by
          rw [htail, List.append_assoc, List.cons_append]
          exact drop_method hget.1 _
        obtain ⟨eol, heol, htrims⟩ := (trimEnd_eq_iff (text.drop 4) _).mp rfl
        refine ⟨get, _, eol, ?_, hget.2, htrims, rfl⟩
        rw [← heol, hdrop, htail]
        simp
      · cases h
  · rintro ⟨get, q, eol, rfl, hget, htrims, rfl⟩
    have hlen : get.length = 3 := (List.length_map ..).symm.trans (congrArg List.length hget)
    have hletters : ∀ i : Fin 256, toLower (UInt8.ofFin i) ∈ cstr "get" →
        UInt8.ofFin i ≠ 0 ∧ UInt8.ofFin i ≠ 32 := by decide +kernel
    have hall : ∀ b ∈ get, b ≠ 0 ∧ b ≠ 32 := by
      intro b hb
      refine hletters b.toFin ?_
      rw [← hget]
      exact List.mem_map_of_mem hb
    have hstr : cString (get ++ 32 :: (q ++ eol)) = get ++ 32 :: cString (q ++ eol) := by
      rw [cString, takeWhile_ne_append fun b hb => (hall b hb).1]
      rfl
    have hmethod : (cString (get ++ 32 :: (q ++ eol))).takeWhile (· ≠ 32) = get := by
      rw [hstr, takeWhile_ne_append fun b hb => (hall b hb).2]
      simp
    have htrim : trimEnd (q ++ eol) = q := (trimEnd_eq_iff _ _).mpr ⟨eol, rfl, htrims⟩
    dsimp only
    rw [hmethod, if_neg, if_pos ⟨hlen, hget⟩, drop_method hlen, htrim]
    rw [hstr]
    simp

end Equic.Filesystem
