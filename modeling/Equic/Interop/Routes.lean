import Equic.Foundation.Ere
import Equic.Interop.HeaderSet

/-!
# The route table

`find_handler` tries the entries of `req_maps` in order. Eight of them are expressions for
generated-file requests, which differ in their prefix and in the number of push parameters.
`Fields` cuts a path into the parts that these expressions name. A path can be cut in at
most one way (`Fields.Fits.eq`), so at most one of the eight matches, with captures that the
parts determine.
-/

namespace Equic.Interop

open Equic.Foundation

/-! ## §1 The table -/

/-- `enum interop_handler` -/
inductive InteropHandler where
  | error
  | indexHtml
  | md5sum
  | verHead
  | genFile
  | echo
  deriving DecidableEq, Repr

/-- `struct req_map`; with `RM_COMPILED` it has a `re`. -/
structure ReqMap where
  method : Method
  path : String
  handler : InteropHandler
  status : String
  /-- `RM_WANTBODY` -/
  wantBody : Bool
  /-- `RM_REGEX` -/
  isRegex : Bool
  re : Option Ere

/-- An entry whose path is compared as it is. -/
def literalMap (method : Method) (path : String) (handler : InteropHandler) (wantBody : Bool) :
    ReqMap where
  method := method
  path := path
  handler := handler
  status := "200"
  wantBody := wantBody
  isRegex := false
  re := none

/-- An entry for generated files. -/
def genFileMap (path : String) : ReqMap where
  method := .get
  path := path
  handler := .genFile
  status := "200"
  wantBody := false
  isRegex := true
  re := none

/-- `req_maps` -/
def reqMaps : List ReqMap := [
  literalMap .get "/" .indexHtml false,
  literalMap .get "/index.html" .indexHtml false,
  literalMap .post "/cgi-bin/md5sum.cgi" .md5sum true,
  literalMap .post "/cgi-bin/verify-headers.cgi" .verHead true,
  genFileMap "^/([0-9][0-9]*)([KMG]?)$",
  genFileMap "^/([0-9][0-9]*)([KMG]?)\\?push=([^&]*)$",
  genFileMap "^/([0-9][0-9]*)([KMG]?)\\?push=([^&]*)&push=([^&]*)$",
  genFileMap "^/([0-9][0-9]*)([KMG]?)\\?push=([^&]*)&push=([^&]*)&push=([^&]*)$",
  genFileMap "^/file-([0-9][0-9]*)([KMG]?)$",
  genFileMap "^/file-([0-9][0-9]*)([KMG]?)\\?push=([^&]*)$",
  genFileMap "^/file-([0-9][0-9]*)([KMG]?)\\?push=([^&]*)&push=([^&]*)$",
  genFileMap "^/file-([0-9][0-9]*)([KMG]?)\\?push=([^&]*)&push=([^&]*)&push=([^&]*)$"]

/-- `init_map_regexes` -/
def initMapRegexes (maps : List ReqMap) : List ReqMap :=
  maps.map fun map => if map.isRegex then { map with re := regcomp map.path } else map

/-- `0 == strcasecmp(a, b)` -/
def strcasecmpEq (a b : List UInt8) : Bool := a.map toLower = b.map toLower

/-- One round of the loop of `find_handler`. A comparison does not write to `matches`. -/
def ReqMap.hit (path : List UInt8) (map : ReqMap) : Option (ReqMap × (ℕ → Option (ℕ × ℕ))) :=
  match map.re with
  | some re => (re.regexec true path).map fun m => (map, m)
  | none => if strcasecmpEq path (cstr map.path) then some (map, fun _ => none) else none

/-- `find_handler`: the entry and `matches`. The method is not looked at. -/
def findHandler (maps : List ReqMap) (_method : Method) (path : List UInt8) :
    Option (ReqMap × (ℕ → Option (ℕ × ℕ))) :=
  maps.findSome? (ReqMap.hit path)

/-! ## §2 The expressions for generated files -/

/-- `[0-9]` -/
def digit : Bracket := ⟨false, [(48, 57)]⟩

/-- `[KMG]` -/
def unitLetter : Bracket := ⟨false, [(75, 75), (77, 77), (71, 71)]⟩

/-- `[^&]` -/
def notAmp : Bracket := ⟨true, [(38, 38)]⟩

/-- What stands before each of `k` push parameters. -/
def pushSeps : ℕ → List (List UInt8)
  | 0 => []
  | k + 1 => cstr "?push=" :: List.replicate k (cstr "&push=")

/-- The push parameters as groups from `n` on, and `$`. -/
def pushItems : ℕ → List (List UInt8) → List Ere
  | _, [] => [.eol]
  | n, sep :: seps =>
    Ere.lit sep ++ .group n (.seq [.star (.set notAmp)]) :: pushItems (n + 1) seps

/-- The expression with prefix `pre` and `k` push parameters. -/
def genFileRe (pre : List UInt8) (k : ℕ) : Ere :=
  .seq (.bol :: (Ere.lit pre ++
    .group 1 (.seq [.set digit, .star (.set digit)]) ::
    .group 2 (.seq [.opt (.set unitLetter)]) :: pushItems 3 (pushSeps k)))

/-- The compiled entry with prefix `pre` and `k` push parameters. -/
def compiledGenFile (path : String) (pre : List UInt8) (k : ℕ) : ReqMap :=
  { genFileMap path with re := some (genFileRe pre k) }

/-- All patterns compile, and to what. -/
theorem initMapRegexes_reqMaps : initMapRegexes reqMaps = [
    literalMap .get "/" .indexHtml false,
    literalMap .get "/index.html" .indexHtml false,
    literalMap .post "/cgi-bin/md5sum.cgi" .md5sum true,
    literalMap .post "/cgi-bin/verify-headers.cgi" .verHead true,
    compiledGenFile "^/([0-9][0-9]*)([KMG]?)$" (cstr "/") 0,
    compiledGenFile "^/([0-9][0-9]*)([KMG]?)\\?push=([^&]*)$" (cstr "/") 1,
    compiledGenFile "^/([0-9][0-9]*)([KMG]?)\\?push=([^&]*)&push=([^&]*)$" (cstr "/") 2,
    compiledGenFile "^/([0-9][0-9]*)([KMG]?)\\?push=([^&]*)&push=([^&]*)&push=([^&]*)$"
      (cstr "/") 3,
    compiledGenFile "^/file-([0-9][0-9]*)([KMG]?)$" (cstr "/file-") 0,
    compiledGenFile "^/file-([0-9][0-9]*)([KMG]?)\\?push=([^&]*)$" (cstr "/file-") 1,
    compiledGenFile "^/file-([0-9][0-9]*)([KMG]?)\\?push=([^&]*)&push=([^&]*)$"
      (cstr "/file-") 2,
    compiledGenFile "^/file-([0-9][0-9]*)([KMG]?)\\?push=([^&]*)&push=([^&]*)&push=([^&]*)$"
      (cstr "/file-") 3] := by
  rfl

/-! ## §3 The parts of a path -/

/-- The parts of a path: prefix, number, suffix, and each push parameter with what stands
    before it. -/
structure Fields where
  pre : List UInt8
  number : List UInt8
  suffix : List UInt8
  pushes : List (List UInt8 × List UInt8)

/-- Push parameters as text. -/
def pushText : List (List UInt8 × List UInt8) → List UInt8
  | [] => []
  | (sep, value) :: pushes => sep ++ (value ++ pushText pushes)

/-- The path. -/
def Fields.text (f : Fields) : List UInt8 :=
  f.pre ++ (f.number ++ (f.suffix ++ pushText f.pushes))

/-- The push parameters are as the separators demand. -/
inductive PushesFit : List (List UInt8) → List (List UInt8 × List UInt8) → Prop
  | nil : PushesFit [] []
  | cons {sep seps w value pushes} : Reads.Spells true w sep →
      (∀ b ∈ value, notAmp.accepts true b) → PushesFit seps pushes →
      PushesFit (sep :: seps) ((w, value) :: pushes)

/-- The parts are as the expression with prefix `pre` and `k` push parameters demands. -/
structure Fields.Fits (pre : List UInt8) (k : ℕ) (f : Fields) : Prop where
  pre : Reads.Spells true f.pre pre
  number_ne : f.number ≠ []
  number : ∀ b ∈ f.number, digit.accepts true b
  suffix_le : f.suffix.length ≤ 1
  suffix : ∀ b ∈ f.suffix, unitLetter.accepts true b
  pushes : PushesFit (pushSeps k) f.pushes

/-! ## §4 What the expressions capture -/

/-- The position behind the push parameters, which are groups from `n` on. -/
def pushEnd (n : ℕ) (c : Cursor) : List (List UInt8 × List UInt8) → Cursor
  | [] => c
  | (sep, value) :: pushes =>
    let c₁ := c.advance sep (value ++ pushText pushes)
    pushEnd (n + 1) (Cursor.capture n c₁ (c₁.advance value (pushText pushes))) pushes

/-- The beginning of the path. -/
def Fields.start (f : Fields) : Cursor := ⟨[], f.text, fun _ => none⟩

/-- The position behind the prefix. -/
def Fields.afterPre (f : Fields) : Cursor :=
  f.start.advance f.pre (f.number ++ (f.suffix ++ pushText f.pushes))

/-- The position behind the number. -/
def Fields.afterNumber (f : Fields) : Cursor :=
  f.afterPre.capture 1 (f.afterPre.advance f.number (f.suffix ++ pushText f.pushes))

/-- The position behind the suffix. -/
def Fields.afterSuffix (f : Fields) : Cursor :=
  f.afterNumber.capture 2 (f.afterNumber.advance f.suffix (pushText f.pushes))

/-- `matches`, as `regexec` fills it. -/
def Fields.matches (f : Fields) : ℕ → Option (ℕ × ℕ) :=
  (f.start.capture 0 (pushEnd 3 f.afterSuffix f.pushes)).sub

/-- The push parameters and `$`. -/
theorem reads_pushItems_iff {n : ℕ} {seps : List (List UInt8)} {c e : Cursor} :
    Reads true (.seq (pushItems n seps)) c e ↔
      ∃ pushes, PushesFit seps pushes ∧ c.rest = pushText pushes ∧ e = pushEnd n c pushes := by
  induction seps generalizing n c with
  | nil =>
    simp only [pushItems, Reads.seq_cons_iff, Reads.eol_iff, Reads.seq_nil_iff]
    constructor
    · rintro ⟨d, ⟨hrest, rfl⟩, rfl⟩
      exact ⟨[], .nil, hrest, rfl⟩
    · rintro ⟨pushes, ⟨⟩, hrest, rfl⟩
      exact ⟨_, ⟨hrest, rfl⟩, rfl⟩
  | cons sep seps ih =>
    rw [pushItems, Reads.seq_lit_append_iff]
    simp only [Reads.seq_group_star_iff, ih]
    constructor
    · rintro ⟨w, rest, hrest, hspells, v, rest', hrest', hv, pushes, hfit, htail, rfl⟩
      obtain rfl : rest = v ++ rest' := hrest'
      obtain rfl : rest' = pushText pushes := htail
      exact ⟨(w, v) :: pushes, .cons hspells hv hfit, hrest, rfl⟩
    · rintro ⟨pushes, hfit, hrest, rfl⟩
      cases hfit with
      | @cons _ _ w v pushes hspells hv hfit =>
        exact ⟨w, v ++ pushText pushes, hrest, hspells, v, pushText pushes, rfl, hv, pushes, hfit,
          rfl, rfl⟩

/-- The whole expression matches a path exactly if the path has parts that fit. -/
theorem reads_genFileRe_iff {pre : List UInt8} {k : ℕ} {path : List UInt8} {e : Cursor} :
    Reads true (genFileRe pre k) ⟨[], path, fun _ => none⟩ e ↔
      ∃ f : Fields, f.Fits pre k ∧ f.text = path ∧ e = pushEnd 3 f.afterSuffix f.pushes := by
  rw [genFileRe, Reads.seq_cons_iff]
  simp only [Reads.bol_iff, true_and, exists_eq_left, Reads.seq_lit_append_iff,
    Reads.seq_group_plus_iff, Reads.seq_group_opt_iff, reads_pushItems_iff]
  constructor
  · rintro ⟨p, _, rfl, hp, number, _, rfl, hne, hnumber, suffix, _, rfl, hle, hsuffix, pushes,
      hfit, rfl, rfl⟩
    exact ⟨⟨p, number, suffix, pushes⟩, ⟨hp, hne, hnumber, hle, hsuffix, hfit⟩, rfl, rfl⟩
  · rintro ⟨f, ⟨hp, hne, hnumber, hle, hsuffix, hfit⟩, rfl, rfl⟩
    exact ⟨f.pre, _, rfl, hp, f.number, _, rfl, hne, hnumber, f.suffix, _, rfl, hle, hsuffix,
      f.pushes, hfit, rfl, rfl⟩

/-- Push parameters leave the groups before them alone. -/
theorem pushEnd_sub {n i : ℕ} (hi : i < n) (c : Cursor)
    (pushes : List (List UInt8 × List UInt8)) : (pushEnd n c pushes).sub i = c.sub i := by
  induction pushes generalizing n c with
  | nil => rfl
  | cons push pushes ih =>
    rw [pushEnd, ih (Nat.lt_succ_of_lt hi)]
    exact Cursor.capture_sub_of_ne hi.ne _ _

/-- The first group is the number. -/
theorem Fields.matches_one (f : Fields) :
    f.matches 1 = some (f.pre.length, f.pre.length + f.number.length) := by
  rw [Fields.matches, Cursor.capture_sub_of_ne (by decide), pushEnd_sub (by decide),
    Fields.afterSuffix, Cursor.capture_sub_of_ne (by decide), ← List.length_append]
  exact Cursor.capture_sub_self 1 f.afterPre _

/-- The second group is the suffix. -/
theorem Fields.matches_two (f : Fields) :
    f.matches 2 = some (f.pre.length + f.number.length,
      f.pre.length + f.number.length + f.suffix.length) := by
  rw [Fields.matches, Cursor.capture_sub_of_ne (by decide), pushEnd_sub (by decide),
    ← List.length_append, ← List.length_append]
  exact Cursor.capture_sub_self _ _ _

/-- What `regexec` reports. -/
theorem regexec_genFileRe {pre : List UInt8} {k : ℕ} {path : List UInt8}
    {m : ℕ → Option (ℕ × ℕ)} (h : (genFileRe pre k).regexec true path = some m) :
    ∃ f : Fields, f.Fits pre k ∧ f.text = path ∧ m = f.matches := by
  obtain ⟨c, hc, d, hread, rfl⟩ := regexec_sound h
  have hbefore : c.before = [] := by
    rw [genFileRe, Reads.seq_cons_iff] at hread
    obtain ⟨_, hbol, _⟩ := hread
    exact (Reads.bol_iff.mp hbol).1
  obtain rfl := eq_of_mem_starts hc hbefore
  obtain ⟨f, hfits, rfl, rfl⟩ := reads_genFileRe_iff.mp hread
  exact ⟨f, hfits, rfl, rfl⟩

theorem regexec_genFileRe_isSome {pre : List UInt8} {k : ℕ} {f : Fields} (hf : f.Fits pre k) :
    ((genFileRe pre k).regexec true f.text).isSome :=
  regexec_complete (start_mem_starts _) (reads_genFileRe_iff.mpr ⟨f, hf, rfl, rfl⟩)

/-! ## §5 A path has its parts in one way only -/

/-- Nothing at the beginning of the text belongs to the bracket expression. -/
def Stops (s : Bracket) (text : List UInt8) : Prop :=
  ∀ b rest, text = b :: rest → s.accepts true b = false

/-- A span ends where the bracket expression stops. -/
theorem span_unique {s : Bracket} {w w' x x' : List UInt8} (hw : ∀ b ∈ w, s.accepts true b)
    (hw' : ∀ b ∈ w', s.accepts true b) (hx : Stops s x) (hx' : Stops s x')
    (h : w ++ x = w' ++ x') : w = w' ∧ x = x' := by
  induction w generalizing w' with
  | nil =>
    cases w' with
    | nil => exact ⟨rfl, h⟩
    | cons b w' =>
      have hstop := hx b (w' ++ x') h
      rw [hw' b List.mem_cons_self] at hstop
      cases hstop
  | cons a w ih =>
    cases w' with
    | nil =>
      have hstop := hx' a (w ++ x) h.symm
      rw [hw a List.mem_cons_self] at hstop
      cases hstop
    | cons b w' =>
      rw [List.cons_append, List.cons_append, List.cons.injEq] at h
      obtain ⟨rfl, h⟩ := h
      obtain ⟨rfl, rfl⟩ := ih (fun b hb => hw b (List.mem_cons_of_mem _ hb))
        (fun b hb => hw' b (List.mem_cons_of_mem _ hb)) h
      exact ⟨rfl, rfl⟩

/-- A property of bytes is checked by going through them. -/
theorem forall_byte {p : UInt8 → Prop} (h : ∀ n < 256, p (UInt8.ofNat n)) (b : UInt8) : p b := by
  have hb := h b.toNat b.toNat_lt
  rwa [UInt8.ofNat_toNat] at hb

theorem digit_of_unitLetter (b : UInt8) :
    unitLetter.accepts true b → digit.accepts true b = false := by
  revert b
  exact forall_byte (by decide +kernel)

theorem accepts_of_questionMark (b : UInt8) : (Bracket.one 63).accepts true b →
    unitLetter.accepts true b = false ∧ digit.accepts true b = false := by
  revert b
  exact forall_byte (by decide +kernel)

theorem accepts_of_ampersand (b : UInt8) : (Bracket.one 38).accepts true b →
    notAmp.accepts true b = false ∧ unitLetter.accepts true b = false ∧
      digit.accepts true b = false := by
  revert b
  exact forall_byte (by decide +kernel)

/-- Push parameters stop what no separator begins with. -/
theorem PushesFit.stops {s : Bracket} {seps : List (List UInt8)}
    {pushes : List (List UInt8 × List UInt8)} (h : PushesFit seps pushes)
    (hseps : ∀ sep ∈ seps, ∃ c tail, sep = c :: tail ∧
      ∀ b, (Bracket.one c).accepts true b → s.accepts true b = false) :
    Stops s (pushText pushes) := by
  cases h with
  | nil => rintro b rest ⟨⟩
  | @cons sep _ w value pushes hspells =>
    obtain ⟨c, tail, rfl, hc⟩ := hseps sep List.mem_cons_self
    cases hspells with
    | @cons a _ w _ ha =>
      intro b rest htext
      rw [pushText, List.cons_append, List.cons.injEq] at htext
      obtain ⟨rfl, -⟩ := htext
      exact hc a ha

theorem mem_pushSeps {k : ℕ} {sep : List UInt8} (h : sep ∈ pushSeps k) :
    sep = 63 :: cstr "push=" ∨ sep = 38 :: cstr "push=" := by
  cases k with
  | zero => cases h
  | succ k =>
    rcases List.mem_cons.mp h with rfl | h
    · exact .inl rfl
    · exact .inr (List.eq_of_mem_replicate h)

theorem length_pushSeps (k : ℕ) : (pushSeps k).length = k := by
  cases k with
  | zero => rfl
  | succ k => rw [pushSeps, List.length_cons, List.length_replicate]

/-- Separators that allow only one way to cut: they are of one length, and those behind the
    first one begin with an ampersand. -/
structure Separating (seps : List (List UInt8)) : Prop where
  length : ∀ sep ∈ seps, sep.length = 6
  amp : ∀ sep ∈ seps.tail, sep = 38 :: cstr "push="

theorem Separating.tail {sep : List UInt8} {seps : List (List UInt8)}
    (h : Separating (sep :: seps)) : Separating seps where
  length := fun s hs => h.length s (List.mem_cons_of_mem _ hs)
  amp := fun s hs => h.amp s (List.mem_of_mem_tail hs)

theorem separating_pushSeps (k : ℕ) : Separating (pushSeps k) where
  length := by
    intro sep hsep
    obtain rfl | rfl := mem_pushSeps hsep <;> rfl
  amp := by
    intro sep hsep
    cases k with
    | zero => cases hsep
    | succ k => exact List.eq_of_mem_replicate hsep

theorem PushesFit.stops_unitLetter {k : ℕ} {pushes : List (List UInt8 × List UInt8)}
    (h : PushesFit (pushSeps k) pushes) : Stops unitLetter (pushText pushes) := by
  refine h.stops fun sep hsep => ?_
  obtain rfl | rfl := mem_pushSeps hsep
  · exact ⟨_, _, rfl, fun b hb => (accepts_of_questionMark b hb).1⟩
  · exact ⟨_, _, rfl, fun b hb => (accepts_of_ampersand b hb).2.1⟩

theorem PushesFit.stops_digit {k : ℕ} {pushes : List (List UInt8 × List UInt8)}
    (h : PushesFit (pushSeps k) pushes) : Stops digit (pushText pushes) := by
  refine h.stops fun sep hsep => ?_
  obtain rfl | rfl := mem_pushSeps hsep
  · exact ⟨_, _, rfl, fun b hb => (accepts_of_questionMark b hb).2⟩
  · exact ⟨_, _, rfl, fun b hb => (accepts_of_ampersand b hb).2.2⟩

/-- Push parameters are cut in one way only. -/
theorem PushesFit.eq {seps seps' : List (List UInt8)}
    {pushes pushes' : List (List UInt8 × List UInt8)} (h : PushesFit seps pushes)
    (h' : PushesFit seps' pushes') (hseps : Separating seps) (hseps' : Separating seps')
    (heq : pushText pushes = pushText pushes') : pushes = pushes' := by
  have hstops : ∀ {sep seps pushes}, Separating (sep :: seps) → PushesFit seps pushes →
      Stops notAmp (pushText pushes) := by
    intro sep seps pushes hsep hfit
    exact hfit.stops fun s hs => ⟨_, _, hsep.amp s hs, fun b hb => (accepts_of_ampersand b hb).1⟩
  induction h generalizing seps' pushes' with
  | nil =>
    cases h' with
    | nil => rfl
    | cons hspells =>
      have hlen := hspells.length_eq.trans (hseps'.length _ List.mem_cons_self)
      have htext := congrArg List.length heq
      simp only [pushText, List.length_nil, List.length_append] at htext
      omega
  | cons hspells hvalue hfit ih =>
    have hlen := hspells.length_eq.trans (hseps.length _ List.mem_cons_self)
    cases h' with
    | nil =>
      have htext := congrArg List.length heq
      simp only [pushText, List.length_nil, List.length_append] at htext
      omega
    | cons hspells' hvalue' hfit' =>
      have hlen' := hspells'.length_eq.trans (hseps'.length _ List.mem_cons_self)
      obtain ⟨rfl, hrest⟩ := List.append_inj heq (hlen.trans hlen'.symm)
      obtain ⟨hval, hpushes⟩ := span_unique hvalue hvalue' (hstops hseps hfit)
        (hstops hseps' hfit') hrest
      rw [hval, ih hfit' hseps.tail hseps'.tail hpushes]

/-- There are as many push parameters as separators. -/
theorem PushesFit.length_eq {seps : List (List UInt8)} {pushes : List (List UInt8 × List UInt8)}
    (h : PushesFit seps pushes) : pushes.length = seps.length := by
  induction h with
  | nil => rfl
  | cons _ _ _ ih => rw [List.length_cons, List.length_cons, ih]

/-- The prefixes of the table. -/
def IsPre (pre : List UInt8) : Prop := pre = cstr "/" ∨ pre = cstr "/file-"

/-- Behind the slash stands a digit or the `f` of `/file-`. -/
theorem Fields.Fits.second {pre : List UInt8} (hpre : IsPre pre) {k : ℕ} {f : Fields}
    (hf : f.Fits pre k) : ∃ a b rest, f.text = a :: b :: rest ∧
      ((pre = cstr "/" ∧ digit.accepts true b) ∨
        (pre = cstr "/file-" ∧ (Bracket.one 102).accepts true b)) := by
  obtain ⟨p, number, suffix, pushes⟩ := f
  rcases hpre with rfl | rfl
  · obtain ⟨a, rfl⟩ := List.length_eq_one_iff.mp (hf.pre.length_eq : p.length = 1)
    cases number with
    | nil => exact absurd rfl hf.number_ne
    | cons b number => exact ⟨a, b, _, rfl, .inl ⟨rfl, hf.number b List.mem_cons_self⟩⟩
  · have hspells : Reads.Spells true p [47, 102, 105, 108, 101, 45] := hf.pre
    cases hspells with
    | @cons a _ p _ _ hspells =>
      cases hspells with
      | @cons b _ p _ hb => exact ⟨a, b, _, rfl, .inr ⟨rfl, hb⟩⟩

theorem digit_of_f (b : UInt8) :
    (Bracket.one 102).accepts true b → digit.accepts true b = false := by
  revert b
  exact forall_byte (by decide +kernel)

/-- No path fits both prefixes. -/
theorem Fields.Fits.pre_eq {pre pre' : List UInt8} (hpre : IsPre pre) (hpre' : IsPre pre')
    {k k' : ℕ} {f g : Fields} (hf : f.Fits pre k) (hg : g.Fits pre' k') (heq : f.text = g.text) :
    pre = pre' := by
  obtain ⟨a, b, rest, htext, hb⟩ := hf.second hpre
  obtain ⟨a', b', rest', htext', hb'⟩ := hg.second hpre'
  rw [heq, htext', List.cons.injEq, List.cons.injEq] at htext
  obtain ⟨-, rfl, -⟩ := htext
  rcases hb with ⟨rfl, hb⟩ | ⟨rfl, hb⟩ <;> rcases hb' with ⟨rfl, hb'⟩ | ⟨rfl, hb'⟩
  · rfl
  · exact absurd hb (by simp [digit_of_f b' hb'])
  · exact absurd hb' (by simp [digit_of_f b' hb])
  · rfl

/-- The number ends where the suffix or, without one, the push parameters begin. -/
theorem Fields.Fits.stops {pre : List UInt8} {k : ℕ} {f : Fields} (hf : f.Fits pre k) :
    Stops digit (f.suffix ++ pushText f.pushes) := by
  obtain ⟨p, number, suffix, pushes⟩ := f
  cases suffix with
  | nil => exact hf.pushes.stops_digit
  | cons a suffix =>
    intro b rest htext
    rw [List.cons_append, List.cons.injEq] at htext
    obtain ⟨rfl, -⟩ := htext
    exact digit_of_unitLetter a (hf.suffix a List.mem_cons_self)

/-- **Unambiguity.** The prefix, the number of push parameters and the parts are determined
    by the path. -/
theorem Fields.Fits.eq {pre pre' : List UInt8} {k k' : ℕ} {f g : Fields} (hpre : IsPre pre)
    (hpre' : IsPre pre') (hf : f.Fits pre k) (hg : g.Fits pre' k')
    (heq : f.text = g.text) : pre = pre' ∧ k = k' ∧ f = g := by
  obtain rfl := hf.pre_eq hpre hpre' hg heq
  obtain ⟨p, number, suffix, pushes⟩ := f
  obtain ⟨p', number', suffix', pushes'⟩ := g
  -- the prefixes have the same length, then each span ends at the first byte it cannot take
  obtain ⟨rfl, heq⟩ := List.append_inj heq (hf.pre.length_eq.trans hg.pre.length_eq.symm)
  obtain ⟨rfl, heq⟩ := span_unique hf.number hg.number hf.stops hg.stops heq
  obtain ⟨rfl, heq⟩ := span_unique hf.suffix hg.suffix hf.pushes.stops_unitLetter
    hg.pushes.stops_unitLetter heq
  obtain rfl := hf.pushes.eq hg.pushes (separating_pushSeps k) (separating_pushSeps k') heq
  have hlen : (pushSeps k).length = (pushSeps k').length :=
    hf.pushes.length_eq.symm.trans hg.pushes.length_eq
  rw [length_pushSeps, length_pushSeps] at hlen
  exact ⟨rfl, hlen, rfl⟩

/-! ## §6 Routing -/

/-- The paths of the literal entries. -/
def literalPaths : List String :=
  ["/", "/index.html", "/cgi-bin/md5sum.cgi", "/cgi-bin/verify-headers.cgi"]

/-- What the entries of the table are. -/
theorem mem_initMapRegexes {map : ReqMap} (h : map ∈ initMapRegexes reqMaps) :
    (∃ method path handler wantBody, path ∈ literalPaths ∧
      map = literalMap method path handler wantBody) ∨
      ∃ path pre k, IsPre pre ∧ k ≤ 3 ∧ map = compiledGenFile path pre k := by
  simp only [initMapRegexes_reqMaps, List.mem_cons, List.not_mem_nil, or_false] at h
  rcases h with h | h | h | h | h | h | h | h | h | h | h | h
  · exact .inl ⟨_, _, _, _, by simp [literalPaths], h⟩
  · exact .inl ⟨_, _, _, _, by simp [literalPaths], h⟩
  · exact .inl ⟨_, _, _, _, by simp [literalPaths], h⟩
  · exact .inl ⟨_, _, _, _, by simp [literalPaths], h⟩
  · exact .inr ⟨_, _, _, .inl rfl, by omega, h⟩
  · exact .inr ⟨_, _, _, .inl rfl, by omega, h⟩
  · exact .inr ⟨_, _, _, .inl rfl, by omega, h⟩
  · exact .inr ⟨_, _, _, .inl rfl, by omega, h⟩
  · exact .inr ⟨_, _, _, .inr rfl, by omega, h⟩
  · exact .inr ⟨_, _, _, .inr rfl, by omega, h⟩
  · exact .inr ⟨_, _, _, .inr rfl, by omega, h⟩
  · exact .inr ⟨_, _, _, .inr rfl, by omega, h⟩

/-- For each prefix and up to three push parameters the table has an entry. -/
theorem compiledGenFile_mem {pre : List UInt8} (hpre : IsPre pre) {k : ℕ} (hk : k ≤ 3) :
    ∃ path, compiledGenFile path pre k ∈ initMapRegexes reqMaps := by
  rw [initMapRegexes_reqMaps]
  have hcases : k = 0 ∨ k = 1 ∨ k = 2 ∨ k = 3 := by omega
  rcases hpre with rfl | rfl
  · rcases hcases with rfl | rfl | rfl | rfl
    · exact ⟨_, List.mem_of_getElem? (i := 4) rfl⟩
    · exact ⟨_, List.mem_of_getElem? (i := 5) rfl⟩
    · exact ⟨_, List.mem_of_getElem? (i := 6) rfl⟩
    · exact ⟨_, List.mem_of_getElem? (i := 7) rfl⟩
  · rcases hcases with rfl | rfl | rfl | rfl
    · exact ⟨_, List.mem_of_getElem? (i := 8) rfl⟩
    · exact ⟨_, List.mem_of_getElem? (i := 9) rfl⟩
    · exact ⟨_, List.mem_of_getElem? (i := 10) rfl⟩
    · exact ⟨_, List.mem_of_getElem? (i := 11) rfl⟩

theorem toLower_of_digit (b : UInt8) :
    digit.accepts true b → toLower b ≠ 105 ∧ toLower b ≠ 99 := by
  revert b
  exact forall_byte (by decide +kernel)

theorem toLower_of_f (b : UInt8) :
    (Bracket.one 102).accepts true b → toLower b ≠ 105 ∧ toLower b ≠ 99 := by
  revert b
  exact forall_byte (by decide +kernel)

/-- No literal entry matches a path for a generated file. -/
theorem hit_literalMap {pre : List UInt8} (hpre : IsPre pre) {k : ℕ} {f : Fields}
    (hf : f.Fits pre k) {method : Method} {path : String} {handler : InteropHandler}
    {wantBody : Bool} (hpath : path ∈ literalPaths) :
    (literalMap method path handler wantBody).hit f.text = none := by
  obtain ⟨a, b, rest, htext, hb⟩ := hf.second hpre
  have hlower : toLower b ≠ 105 ∧ toLower b ≠ 99 := by
    rcases hb with ⟨-, hb⟩ | ⟨-, hb⟩
    · exact toLower_of_digit b hb
    · exact toLower_of_f b hb
  have hne : strcasecmpEq f.text (cstr path) = false := by
    rw [strcasecmpEq, decide_eq_false_iff_not, htext, List.map_cons, List.map_cons]
    intro heq
    -- the literals have nothing, an `i` or a `c` behind the slash
    simp only [literalPaths, List.mem_cons, List.not_mem_nil, or_false] at hpath
    rcases hpath with rfl | rfl | rfl | rfl
    · cases congrArg List.length heq
    · exact hlower.1 (List.cons.inj (List.cons.inj heq).2).1
    · exact hlower.2 (List.cons.inj (List.cons.inj heq).2).1
    · exact hlower.2 (List.cons.inj (List.cons.inj heq).2).1
  simp only [ReqMap.hit, literalMap, hne, Bool.false_eq_true, if_false]

/-- An entry for generated files matches exactly the paths with its prefix and its number of
    push parameters. -/
theorem hit_compiledGenFile {pre pre' : List UInt8} (hpre : IsPre pre) (hpre' : IsPre pre')
    {k k' : ℕ} {f : Fields} (hf : f.Fits pre k) (path : String) :
    (compiledGenFile path pre' k').hit f.text =
      if pre = pre' ∧ k = k' then some (compiledGenFile path pre' k', f.matches) else none := by
  have hhit : (compiledGenFile path pre' k').hit f.text =
      ((genFileRe pre' k').regexec true f.text).map fun m => (compiledGenFile path pre' k', m) :=
    rfl
  rw [hhit]
  cases hm : (genFileRe pre' k').regexec true f.text with
  | none =>
    have hother : ¬ (pre = pre' ∧ k = k') := by
      rintro ⟨rfl, rfl⟩
      have hsome := regexec_genFileRe_isSome hf
      rw [hm] at hsome
      cases hsome
    rw [if_neg hother, Option.map_none]
  | some m =>
    obtain ⟨g, hg, htext, rfl⟩ := regexec_genFileRe hm
    obtain ⟨rfl, rfl, rfl⟩ := hf.eq hpre hpre' hg htext.symm
    rw [if_pos ⟨rfl, rfl⟩, Option.map_some]

/-- **Routing of generated files.** A path with parts that fit is routed to the entry for its
    prefix and its number of push parameters, and `matches` are its parts. -/
theorem findHandler_genFile {pre : List UInt8} (hpre : IsPre pre) {k : ℕ} (hk : k ≤ 3)
    {f : Fields} (hf : f.Fits pre k) (method : Method) :
    ∃ path, findHandler (initMapRegexes reqMaps) method f.text =
      some (compiledGenFile path pre k, f.matches) := by
  have hfound : (findHandler (initMapRegexes reqMaps) method f.text).isSome := by
    obtain ⟨path, hmem⟩ := compiledGenFile_mem hpre hk
    rw [findHandler, List.findSome?_isSome_iff]
    refine ⟨_, hmem, ?_⟩
    rw [hit_compiledGenFile hpre hpre hf, if_pos ⟨rfl, rfl⟩]
    rfl
  obtain ⟨⟨map, m⟩, hfind⟩ := Option.isSome_iff_exists.mp hfound
  obtain ⟨map', hmem, hhit⟩ := List.exists_of_findSome?_eq_some hfind
  -- whichever entry it is, it is one that matches
  obtain ⟨method', path, handler, wantBody, hpath, rfl⟩ | ⟨path, pre', k', hpre', -, rfl⟩ :=
    mem_initMapRegexes hmem
  · rw [hit_literalMap hpre hf hpath] at hhit
    cases hhit
  · rw [hit_compiledGenFile hpre hpre' hf, Option.ite_none_right_eq_some] at hhit
    obtain ⟨⟨rfl, rfl⟩, hhit⟩ := hhit
    exact ⟨path, hfind.trans hhit.symm⟩

/-- A path with more than three push parameters has no route. -/
theorem findHandler_eq_none {pre : List UInt8} (hpre : IsPre pre) {k : ℕ} (hk : 3 < k)
    {f : Fields} (hf : f.Fits pre k) (method : Method) :
    findHandler (initMapRegexes reqMaps) method f.text = none := by
  rw [findHandler, List.findSome?_eq_none_iff]
  intro map hmem
  obtain ⟨method', path, handler, wantBody, hpath, rfl⟩ | ⟨path, pre', k', hpre', hk', rfl⟩ :=
    mem_initMapRegexes hmem
  · exact hit_literalMap hpre hf hpath
  · rw [hit_compiledGenFile hpre hpre' hf, if_neg]
    rintro ⟨-, rfl⟩
    omega

end Equic.Interop
