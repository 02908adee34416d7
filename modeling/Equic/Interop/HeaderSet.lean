import Equic.Foundation.Buffer
import Mathlib.Algebra.Group.Nat.Defs
import Mathlib.Data.Int.Notation
import Mathlib.Data.List.TakeWhile

/-!
# Assembling a header set

`interop_server_hset_add_header` builds a request from the decoded headers: it keeps the
three pseudo-headers it needs and appends every header to `qif_str`. It refuses a second
`:path` and a second `:method`. The branch for `:authority` lacks that test, so a list with
several of them is accepted; and `strndup` ends a value at its first NUL. These are the
two ways in which what is assembled is not what the list says (`assembles_iff`).
-/

namespace Equic.Interop

open Equic.Foundation

/-! ## §1 Requests -/

/-- `enum method` -/
inductive Method where
  | unset
  | get
  | post
  | unsupported
  deriving DecidableEq, Repr

/-- `PH_AUTHORITY` -/
def phAuthority : UInt32 := 1

/-- `PH_METHOD` -/
def phMethod : UInt32 := 2

/-- `PH_PATH` -/
def phPath : UInt32 := 4

/-- `struct req`; a string that is NULL is `none`. -/
structure Req where
  method : Method
  pseudoHeaders : UInt32
  path : Option (List UInt8)
  methodStr : Option (List UInt8)
  authorityStr : Option (List UInt8)
  qifStr : List UInt8
  qifSz : ℕ
  deriving DecidableEq, Repr

/-- `interop_server_hset_create` -/
def interopServerHsetCreate : Req where
  method := .unset
  pseudoHeaders := 0
  path := none
  methodStr := none
  authorityStr := none
  qifStr := []
  qifSz := 0

/-- A decoded header: name and value lie in `decode_buf`, which bounds their lengths. -/
structure XHeader where
  name : List UInt8
  value : List UInt8
  fits : name.length + value.length ≤ 64 * 1024
  deriving DecidableEq, Repr

/-- ":path" -/
def pathName : List UInt8 := [58, 112, 97, 116, 104]

/-- ":method" -/
def methodName : List UInt8 := [58, 109, 101, 116, 104, 111, 100]

/-- ":authority" -/
def authorityName : List UInt8 := [58, 97, 117, 116, 104, 111, 114, 105, 116, 121]

/-- "GET" -/
def getStr : List UInt8 := [71, 69, 84]

/-- "POST" -/
def postStr : List UInt8 := [80, 79, 83, 84]

/-- `0 == strncmp(a, b, n)`; a string ends where its list does. -/
def strncmpEq : ℕ → List UInt8 → List UInt8 → Bool
  | 0, _, _ => true
  | n + 1, a, b =>
    let (ca, cb) := (a.headD 0, b.headD 0)
    if ca ≠ cb then false
    else if ca = 0 then true
    else strncmpEq n a.tail b.tail

/-- `len == name_len && 0 == strncmp(name, header, len)` -/
def isHeader (header name : List UInt8) : Bool :=
  name.length = header.length && strncmpEq header.length name header

/-- `strndup(value, value_len)`: a copy up to the first NUL. -/
def strndup (value : List UInt8) : List UInt8 := value.takeWhile (· ≠ 0)

/-- The two calls of `strcmp` that classify a method. -/
def methodOf (methodStr : List UInt8) : Method :=
  if methodStr = getStr then .get
  else if methodStr = postStr then .post
  else .unsupported

/-- The part of `interop_server_hset_add_header` that appends to `qif_str`. -/
def appendQif (junk : ℕ → UInt8) (req : Req) (x : XHeader) : Req :=
  let nameLen := x.name.length
  let valueLen := x.value.length
  let qif := realloc junk req.qifStr (req.qifSz + nameLen + valueLen + 2)
  let qif := overwrite qif req.qifSz x.name
  let qif := overwrite qif (req.qifSz + nameLen) [9]
  let qif := overwrite qif (req.qifSz + nameLen + 1) x.value
  let qif := overwrite qif (req.qifSz + nameLen + 1 + valueLen) [10]
  -- the lengths are unsigned, and added up as such
  { req with qifStr := qif, qifSz := req.qifSz + (nameLen + valueLen + 2) % 2 ^ 32 }

/-- `interop_server_hset_add_header`; `none` is the final call without a header, and an
    error is a return value other than 0. -/
def interopServerHsetAddHeader (junk : ℕ → UInt8) (req : Req) : Option XHeader → Except ℤ Req
  | none =>
    if req.pseudoHeaders = phAuthority ||| phMethod ||| phPath then .ok req else .error 1
  | some x =>
    let req := appendQif junk req x
    if isHeader pathName x.name then
      if req.path.isSome then .error 1
      else .ok { req with
        path := some (strndup x.value)
        pseudoHeaders := req.pseudoHeaders ||| phPath }
    else if isHeader methodName x.name then
      if req.method ≠ .unset then .error 1
      else .ok { req with
        methodStr := some (strndup x.value)
        method := methodOf (strndup x.value)
        pseudoHeaders := req.pseudoHeaders ||| phMethod }
    else if isHeader authorityName x.name then
      .ok { req with
        authorityStr := some (strndup x.value)
        pseudoHeaders := req.pseudoHeaders ||| phAuthority }
    else .ok req

/-- The headers of a list in order. A call that does not return 0 is the last one. -/
def addHeaders (junk : ℕ → UInt8) : Req → List XHeader → Except ℤ Req
  | req, [] => .ok req
  | req, x :: xs => (interopServerHsetAddHeader junk req (some x)).bind fun req =>
    addHeaders junk req xs

/-- A whole header set: the list, and the final call. -/
def assemble (junk : ℕ → UInt8) (xs : List XHeader) : Except ℤ Req :=
  (addHeaders junk interopServerHsetCreate xs).bind fun req =>
    interopServerHsetAddHeader junk req none

/-! ## §2 Names -/

/-- The C string comparison, on a name without NUL, is equality. -/
theorem strncmpEq_iff {a b : List UInt8} (hlen : a.length = b.length) (hb : 0 ∉ b) :
    strncmpEq b.length a b = true ↔ a = b := by
  induction b generalizing a with
  | nil => simp [strncmpEq, List.length_eq_zero_iff.mp hlen]
  | cons cb b ih =>
    cases a with
    | nil => simp at hlen
    | cons ca a =>
      have htail := ih (by simpa using hlen) fun h => hb (List.mem_cons_of_mem cb h)
      have hcb : cb ≠ 0 := fun h => hb (h ▸ List.mem_cons_self)
      by_cases hc : ca = cb
      · subst hc
        simp [strncmpEq, hcb, htail]
      · simp [strncmpEq, hc]

theorem isHeader_iff {header name : List UInt8} (h : 0 ∉ header) :
    isHeader header name = true ↔ name = header := by
  by_cases hlen : name.length = header.length
  · simp [isHeader, hlen, strncmpEq_iff hlen h]
  · have hne : name ≠ header := fun heq => hlen (congrArg List.length heq)
    simp [isHeader, hlen, hne]

/-- A value without NUL is copied whole. -/
theorem strndup_eq_iff (value : List UInt8) : strndup value = value ↔ 0 ∉ value := by
  rw [strndup, List.takeWhile_eq_self_iff]
  constructor
  · intro h hmem
    simpa using h 0 hmem
  · intro h b hb
    have hne : b ≠ 0 := fun heq => h (heq ▸ hb)
    simpa using hne

/-! ## §3 What a request holds after some headers -/

/-- The values of the headers with a name, in order. -/
def valuesOf (header : List UInt8) (xs : List XHeader) : List (List UInt8) :=
  (xs.filter fun x => x.name = header).map XHeader.value

/-- Name, tab, value and newline of every header. -/
def serialize (xs : List XHeader) : List UInt8 :=
  xs.flatMap fun x => x.name ++ [9] ++ x.value ++ [10]

theorem valuesOf_append (header : List UInt8) (xs ys : List XHeader) :
    valuesOf header (xs ++ ys) = valuesOf header xs ++ valuesOf header ys := by
  simp [valuesOf]

theorem valuesOf_singleton (header : List UInt8) (x : XHeader) :
    valuesOf header [x] = if x.name = header then [x.value] else [] := by
  by_cases h : x.name = header <;> simp [valuesOf, h]

/-- The four writes fill the new part of the buffer with one serialized header. -/
theorem appendQif_eq (junk : ℕ → UInt8) {req : Req} (x : XHeader)
    (hsz : req.qifSz = req.qifStr.length) :
    appendQif junk req x = { req with
      qifStr := req.qifStr ++ serialize [x]
      qifSz := (req.qifStr ++ serialize [x]).length } := by
  have hfits := x.fits
  have hsmall : (x.name.length + x.value.length + 2) % 2 ^ 32 =
      x.name.length + x.value.length + 2 := Nat.mod_eq_of_lt (by omega)
  have hgrow : req.qifStr.length ≤ req.qifStr.length + x.name.length + x.value.length + 2 := by
    omega
  obtain ⟨rest, hrealloc, hrest⟩ := realloc_eq_append junk hgrow
  -- after each write the offset of the next one is the length of what is there
  have h₁ := overwrite_append req.qifStr rest x.name
  have h₂ := overwrite_append (req.qifStr ++ x.name) (rest.drop x.name.length) [9]
  have h₃ := overwrite_append (req.qifStr ++ x.name ++ [9]) ((rest.drop x.name.length).drop 1)
    x.value
  have h₄ := overwrite_append (req.qifStr ++ x.name ++ [9] ++ x.value)
    (((rest.drop x.name.length).drop 1).drop x.value.length) [10]
  simp only [List.length_append, List.length_singleton] at h₂ h₃ h₄
  have hfull : ((((rest.drop x.name.length).drop 1).drop x.value.length).drop 1) = [] := by
    apply List.drop_eq_nil_of_le
    simp only [List.length_drop]
    omega
  rw [appendQif, hsz, hrealloc, h₁, h₂, h₃, h₄, hsmall, hfull]
  simp only [serialize, List.flatMap_cons, List.flatMap_nil, List.append_nil, List.length_append,
    List.append_assoc, List.length_singleton]
  congr 1
  omega

/-- The bits of the pseudo-headers present. -/
def maskOf (path method authority : Bool) : UInt32 :=
  (if path then phPath else 0) ||| (if method then phMethod else 0) |||
    (if authority then phAuthority else 0)

theorem maskOf_or_path (path method authority : Bool) :
    maskOf path method authority ||| phPath = maskOf true method authority := by
  cases path <;> cases method <;> cases authority <;> rfl

theorem maskOf_or_method (path method authority : Bool) :
    maskOf path method authority ||| phMethod = maskOf path true authority := by
  cases path <;> cases method <;> cases authority <;> rfl

theorem maskOf_or_authority (path method authority : Bool) :
    maskOf path method authority ||| phAuthority = maskOf path method true := by
  cases path <;> cases method <;> cases authority <;> rfl

/-- The pseudo-header fields after the values `ps` of `:path`, `ms` of `:method` and `hs` of
    `:authority`, none of which was refused. -/
structure HoldsPseudo (ps ms hs : List (List UInt8)) (req : Req) : Prop where
  path : req.path = ps.getLast?.map strndup
  path_le : ps.length ≤ 1
  methodStr : req.methodStr = ms.getLast?.map strndup
  method_le : ms.length ≤ 1
  method : req.method = (req.methodStr.map methodOf).getD .unset
  authority : req.authorityStr = hs.getLast?.map strndup
  mask : req.pseudoHeaders =
    maskOf req.path.isSome req.methodStr.isSome req.authorityStr.isSome

/-- A request assembled from `xs`, none of which was refused. -/
structure Assembled (xs : List XHeader) (req : Req) : Prop where
  pseudo : HoldsPseudo (valuesOf pathName xs) (valuesOf methodName xs)
    (valuesOf authorityName xs) req
  qif : req.qifStr = serialize xs
  qifSz : req.qifSz = req.qifStr.length

/-- A second `:path` or a second `:method`. -/
def Duplicate (xs : List XHeader) : Prop :=
  1 < (valuesOf pathName xs).length ∨ 1 < (valuesOf methodName xs).length

theorem Duplicate.append {xs : List XHeader} (h : Duplicate xs) (ys : List XHeader) :
    Duplicate (xs ++ ys) := by
  unfold Duplicate at h ⊢
  simp only [valuesOf_append, List.length_append]
  omega

theorem assembled_create : Assembled [] interopServerHsetCreate where
  pseudo := ⟨rfl, Nat.zero_le _, rfl, Nat.zero_le _, rfl, rfl, rfl⟩
  qif := rfl
  qifSz := rfl

/-! ## §4 One header -/

theorem methodOf_ne_unset (m : List UInt8) : methodOf m ≠ .unset := by
  unfold methodOf
  split_ifs <;> simp

namespace HoldsPseudo

variable {ps ms hs : List (List UInt8)} {req : Req} (h : HoldsPseudo ps ms hs req)

include h

theorem path_isSome_iff : req.path.isSome = true ↔ ps ≠ [] := by
  rw [h.path, Option.isSome_map, List.getLast?_isSome]

theorem method_ne_unset_iff : req.method ≠ .unset ↔ ms ≠ [] := by
  have hsome : req.methodStr.isSome = true ↔ ms ≠ [] := by
    rw [h.methodStr, Option.isSome_map, List.getLast?_isSome]
  rw [← hsome, h.method]
  cases req.methodStr with
  | none => simp
  | some m => simp [methodOf_ne_unset]

theorem authority_isSome_iff : req.authorityStr.isSome = true ↔ hs ≠ [] := by
  rw [h.authority, Option.isSome_map, List.getLast?_isSome]

/-- The bits are all set exactly if no pseudo-header is missing. -/
theorem mask_full_iff :
    req.pseudoHeaders = phAuthority ||| phMethod ||| phPath ↔ ps ≠ [] ∧ ms ≠ [] ∧ hs ≠ [] := by
  have hmethod : req.methodStr.isSome = true ↔ ms ≠ [] := by
    rw [h.methodStr, Option.isSome_map, List.getLast?_isSome]
  rw [← h.path_isSome_iff, ← hmethod, ← h.authority_isSome_iff, h.mask]
  cases req.path.isSome <;> cases req.methodStr.isSome <;> cases req.authorityStr.isSome <;> decide

theorem addPath (hps : ps = []) (v : List UInt8) :
    HoldsPseudo (ps ++ [v]) ms hs { req with
      path := some (strndup v), pseudoHeaders := req.pseudoHeaders ||| phPath } := by
  subst hps
  refine ⟨rfl, le_rfl, h.methodStr, h.method_le, h.method, h.authority, ?_⟩
  dsimp only
  rw [h.mask]
  exact maskOf_or_path _ _ _

theorem addMethod (hms : ms = []) (v : List UInt8) :
    HoldsPseudo ps (ms ++ [v]) hs { req with
      methodStr := some (strndup v), method := methodOf (strndup v)
      pseudoHeaders := req.pseudoHeaders ||| phMethod } := by
  subst hms
  refine ⟨h.path, h.path_le, rfl, le_rfl, rfl, h.authority, ?_⟩
  dsimp only
  rw [h.mask]
  exact maskOf_or_method _ _ _

/-- Unlike the other two, a later `:authority` replaces an earlier one. -/
theorem addAuthority (v : List UInt8) :
    HoldsPseudo ps ms (hs ++ [v]) { req with
      authorityStr := some (strndup v), pseudoHeaders := req.pseudoHeaders ||| phAuthority } := by
  refine ⟨h.path, h.path_le, h.methodStr, h.method_le, h.method, by simp, ?_⟩
  dsimp only
  rw [h.mask]
  exact maskOf_or_authority _ _ _

end HoldsPseudo

theorem nul_notMem_names : 0 ∉ pathName ∧ 0 ∉ methodName ∧ 0 ∉ authorityName := by decide

section Step

variable {xs : List XHeader} (x : XHeader)

theorem valuesOf_snoc_self {header : List UInt8} (hx : x.name = header) :
    valuesOf header (xs ++ [x]) = valuesOf header xs ++ [x.value] := by
  rw [valuesOf_append, valuesOf_singleton, if_pos hx]

theorem valuesOf_snoc_of_ne {header : List UInt8} (hx : x.name ≠ header) :
    valuesOf header (xs ++ [x]) = valuesOf header xs := by
  rw [valuesOf_append, valuesOf_singleton, if_neg hx, List.append_nil]

/-- A header that was there before is there twice. -/
theorem one_lt_valuesOf_snoc {header : List UInt8} (hx : x.name = header)
    (hbefore : valuesOf header xs ≠ []) : 1 < (valuesOf header (xs ++ [x])).length := by
  have hpos := List.length_pos_iff.mpr hbefore
  rw [valuesOf_snoc_self x hx, List.length_append, List.length_singleton]
  omega

/-- `qif_str` grows whatever becomes of the header. -/
theorem Assembled.appendQif (junk : ℕ → UInt8) {req : Req} (h : Assembled xs req) :
    (Interop.appendQif junk req x).qifStr = serialize (xs ++ [x]) ∧
      (Interop.appendQif junk req x).qifSz = (Interop.appendQif junk req x).qifStr.length ∧
      HoldsPseudo (valuesOf pathName xs) (valuesOf methodName xs) (valuesOf authorityName xs)
        (Interop.appendQif junk req x) := by
  rw [appendQif_eq junk x h.qifSz]
  refine ⟨by simp [h.qif, serialize], rfl, ?_⟩
  exact ⟨h.pseudo.path, h.pseudo.path_le, h.pseudo.methodStr, h.pseudo.method_le,
    h.pseudo.method, h.pseudo.authority, h.pseudo.mask⟩

/-- One more header is assembled, or refused as a duplicate. -/
theorem Assembled.addHeader (junk : ℕ → UInt8) {req : Req} (h : Assembled xs req) :
    (∃ req', interopServerHsetAddHeader junk req (some x) = .ok req' ∧ Assembled (xs ++ [x]) req') ∨
      (interopServerHsetAddHeader junk req (some x) = .error 1 ∧ Duplicate (xs ++ [x])) := by
  obtain ⟨hpathName, hmethodName, hauthorityName⟩ := nul_notMem_names
  simp only [interopServerHsetAddHeader, isHeader_iff hpathName, isHeader_iff hmethodName,
    isHeader_iff hauthorityName]
  obtain ⟨hqif, hqifSz, hpseudo⟩ := h.appendQif x junk
  by_cases hpath : x.name = pathName
  · rw [if_pos hpath]
    split_ifs with hsome
    · exact .inr ⟨rfl, .inl (one_lt_valuesOf_snoc x hpath (hpseudo.path_isSome_iff.mp hsome))⟩
    · have hfirst : valuesOf pathName xs = [] := by
        by_contra hne
        exact hsome (hpseudo.path_isSome_iff.mpr hne)
      refine .inl ⟨_, rfl, ?_, hqif, hqifSz⟩
      rw [valuesOf_snoc_self x hpath, valuesOf_snoc_of_ne x (by rw [hpath]; decide),
        valuesOf_snoc_of_ne x (by rw [hpath]; decide)]
      exact hpseudo.addPath hfirst x.value
  · rw [if_neg hpath]
    by_cases hmethod : x.name = methodName
    · rw [if_pos hmethod]
      split_ifs with hset
      · exact .inr
          ⟨rfl, .inr (one_lt_valuesOf_snoc x hmethod (hpseudo.method_ne_unset_iff.mp hset))⟩
      · have hfirst : valuesOf methodName xs = [] := by
          by_contra hne
          exact hset (hpseudo.method_ne_unset_iff.mpr hne)
        refine .inl ⟨_, rfl, ?_, hqif, hqifSz⟩
        rw [valuesOf_snoc_self x hmethod, valuesOf_snoc_of_ne x hpath,
          valuesOf_snoc_of_ne x (by rw [hmethod]; decide)]
        exact hpseudo.addMethod hfirst x.value
    · rw [if_neg hmethod]
      refine .inl ?_
      by_cases hauthority : x.name = authorityName
      · rw [if_pos hauthority]
        refine ⟨_, rfl, ?_, hqif, hqifSz⟩
        rw [valuesOf_snoc_self x hauthority, valuesOf_snoc_of_ne x hpath,
          valuesOf_snoc_of_ne x hmethod]
        exact hpseudo.addAuthority x.value
      · rw [if_neg hauthority]
        refine ⟨_, rfl, ?_, hqif, hqifSz⟩
        rw [valuesOf_snoc_of_ne x hauthority, valuesOf_snoc_of_ne x hpath,
          valuesOf_snoc_of_ne x hmethod]
        exact hpseudo

end Step

/-! ## §5 Header lists -/

/-- A list of headers is assembled, or refused at a duplicate. -/
theorem Assembled.addHeaders (junk : ℕ → UInt8) {xs : List XHeader} {req : Req}
    (h : Assembled xs req) (ys : List XHeader) :
    (∃ req', addHeaders junk req ys = .ok req' ∧ Assembled (xs ++ ys) req') ∨
      (addHeaders junk req ys = .error 1 ∧ Duplicate (xs ++ ys)) := by
  induction ys generalizing xs req with
  | nil => exact .inl ⟨req, rfl, by simpa using h⟩
  | cons y ys ih =>
    rw [List.append_cons]
    obtain ⟨req', hok, h'⟩ | ⟨herr, hdup⟩ := h.addHeader y junk
    · rw [Interop.addHeaders, hok]
      exact ih h'
    · refine .inr ⟨?_, hdup.append ys⟩
      rw [Interop.addHeaders, herr]
      rfl

/-- The outcome for a whole list: it is accepted exactly with one `:path`, one `:method` and
    at least one `:authority`. -/
theorem assemble_cases (junk : ℕ → UInt8) (xs : List XHeader) :
    (∃ req, assemble junk xs = .ok req ∧ Assembled xs req ∧
      (valuesOf pathName xs).length = 1 ∧ (valuesOf methodName xs).length = 1 ∧
      1 ≤ (valuesOf authorityName xs).length) ∨
    (assemble junk xs = .error 1 ∧ ¬ ((valuesOf pathName xs).length = 1 ∧
      (valuesOf methodName xs).length = 1 ∧ 1 ≤ (valuesOf authorityName xs).length)) := by
  obtain ⟨req, hok, h⟩ | ⟨herr, hdup⟩ := assembled_create.addHeaders junk xs
  · rw [List.nil_append] at h
    have hle := h.pseudo.path_le
    have hle' := h.pseudo.method_le
    have hmask := h.pseudo.mask_full_iff
    simp only [← List.length_pos_iff] at hmask
    rw [assemble, hok]
    by_cases hfull : req.pseudoHeaders = phAuthority ||| phMethod ||| phPath
    · obtain ⟨hpath, hmethod, hauthority⟩ := hmask.mp hfull
      refine .inl ⟨req, ?_, h, by omega, by omega, hauthority⟩
      show (if _ then _ else _) = _
      rw [if_pos hfull]
    · refine .inr ⟨?_, fun ⟨hpath, hmethod, hauthority⟩ => hfull (hmask.mpr ?_)⟩
      · show (if _ then _ else _) = _
        rw [if_neg hfull]
      · omega
  · refine .inr ⟨?_, fun ⟨hpath, hmethod, _⟩ => ?_⟩
    · rw [assemble, herr]
      rfl
    · rw [List.nil_append] at hdup
      rcases hdup with hdup | hdup <;> omega

/-- A list is accepted with one `:path`, one `:method` and at least one `:authority`. -/
theorem exists_assemble_iff (junk : ℕ → UInt8) (xs : List XHeader) :
    (∃ req, assemble junk xs = .ok req) ↔
      (valuesOf pathName xs).length = 1 ∧ (valuesOf methodName xs).length = 1 ∧
        1 ≤ (valuesOf authorityName xs).length := by
  obtain ⟨req, hok, -, hcounts⟩ | ⟨herr, hcounts⟩ := assemble_cases junk xs
  · exact iff_of_true ⟨req, hok⟩ hcounts
  · refine iff_of_false ?_ hcounts
    rintro ⟨req, hok⟩
    cases herr.symm.trans hok

theorem assembled_of_ok {junk : ℕ → UInt8} {xs : List XHeader} {req : Req}
    (hok : assemble junk xs = .ok req) : Assembled xs req := by
  obtain ⟨req', hok', h, -⟩ | ⟨herr, -⟩ := assemble_cases junk xs
  · obtain rfl : req = req' := Except.ok.inj (hok.symm.trans hok')
    exact h
  · cases herr.symm.trans hok

/-- Exactly one of each of the three pseudo-headers. -/
def WellFormed (xs : List XHeader) : Prop :=
  (valuesOf pathName xs).length = 1 ∧ (valuesOf methodName xs).length = 1 ∧
    (valuesOf authorityName xs).length = 1

/-- Assembly accepts a list exactly if it is well-formed, and then the request is what the
    list says. -/
structure Assembles (junk : ℕ → UInt8) (xs : List XHeader) : Prop where
  accepted_iff : (∃ req, assemble junk xs = .ok req) ↔ WellFormed xs
  request : WellFormed xs → ∀ req, assemble junk xs = .ok req → ∀ path method authority,
    valuesOf pathName xs = [path] → valuesOf methodName xs = [method] →
      valuesOf authorityName xs = [authority] →
        req.path = some path ∧ req.methodStr = some method ∧ req.authorityStr = some authority ∧
          req.method = methodOf method ∧ req.qifStr = serialize xs ∧
            req.qifSz = (serialize xs).length

/-- The lists on which the missing test and the C strings do no harm: not with one `:path`,
    one `:method` and several `:authority`, and if well-formed without a NUL in the value of
    a pseudo-header. -/
def PlainAuthority (xs : List XHeader) : Prop :=
  ¬ ((valuesOf pathName xs).length = 1 ∧ (valuesOf methodName xs).length = 1 ∧
      1 < (valuesOf authorityName xs).length) ∧
    (WellFormed xs → ∀ header ∈ [pathName, methodName, authorityName],
      ∀ value ∈ valuesOf header xs, 0 ∉ value)

/-- What is assembled from one value of each pseudo-header. -/
theorem Assembled.fields {xs : List XHeader} {req : Req} (h : Assembled xs req)
    {path method authority : List UInt8} (hpath : valuesOf pathName xs = [path])
    (hmethod : valuesOf methodName xs = [method])
    (hauthority : valuesOf authorityName xs = [authority]) :
    req.path = some (strndup path) ∧ req.methodStr = some (strndup method) ∧
      req.authorityStr = some (strndup authority) ∧ req.method = methodOf (strndup method) := by
  have hpseudo := h.pseudo
  rw [hpath, hmethod, hauthority] at hpseudo
  refine ⟨hpseudo.path, hpseudo.methodStr, hpseudo.authority, ?_⟩
  rw [hpseudo.method, hpseudo.methodStr]
  rfl

/-- The request is what the list says exactly if no value has a NUL. -/
theorem Assembled.request_iff {xs : List XHeader} {req : Req} (h : Assembled xs req)
    {path method authority : List UInt8} (hpath : valuesOf pathName xs = [path])
    (hmethod : valuesOf methodName xs = [method])
    (hauthority : valuesOf authorityName xs = [authority]) :
    (req.path = some path ∧ req.methodStr = some method ∧ req.authorityStr = some authority ∧
      req.method = methodOf method ∧ req.qifStr = serialize xs ∧
        req.qifSz = (serialize xs).length) ↔
      0 ∉ path ∧ 0 ∉ method ∧ 0 ∉ authority := by
  obtain ⟨hp, hm, ha, hclass⟩ := h.fields hpath hmethod hauthority
  rw [← strndup_eq_iff path, ← strndup_eq_iff method, ← strndup_eq_iff authority]
  constructor
  · rintro ⟨hp', hm', ha', -⟩
    exact ⟨Option.some.inj (hp.symm.trans hp'), Option.some.inj (hm.symm.trans hm'),
      Option.some.inj (ha.symm.trans ha')⟩
  · rintro ⟨hpathNul, hmethodNul, hauthorityNul⟩
    rw [hpathNul] at hp
    rw [hmethodNul] at hm hclass
    rw [hauthorityNul] at ha
    exact ⟨hp, hm, ha, hclass, h.qif, by rw [h.qifSz, h.qif]⟩

/-- Acceptance is right except where the authorities are several. -/
theorem accepted_iff_wellFormed (junk : ℕ → UInt8) (xs : List XHeader) :
    ((∃ req, assemble junk xs = .ok req) ↔ WellFormed xs) ↔
      ¬ ((valuesOf pathName xs).length = 1 ∧ (valuesOf methodName xs).length = 1 ∧
        1 < (valuesOf authorityName xs).length) := by
  rw [exists_assemble_iff, WellFormed]
  omega

/-- **Header-set assembly.** A list of headers is accepted exactly if it is well-formed, with
    the request that it says, if and only if it has neither a repeated `:authority` next to
    one `:path` and one `:method` nor a NUL in a well-formed list's pseudo-header. -/
theorem assembles_iff (junk : ℕ → UInt8) (xs : List XHeader) :
    Assembles junk xs ↔ PlainAuthority xs := by
  constructor
  · intro h
    refine ⟨(accepted_iff_wellFormed junk xs).mp h.accepted_iff, fun hwell => ?_⟩
    obtain ⟨req, hok⟩ := h.accepted_iff.mpr hwell
    obtain ⟨path, hpath⟩ := List.length_eq_one_iff.mp hwell.1
    obtain ⟨method, hmethod⟩ := List.length_eq_one_iff.mp hwell.2.1
    obtain ⟨authority, hauthority⟩ := List.length_eq_one_iff.mp hwell.2.2
    have hnul := ((assembled_of_ok hok).request_iff hpath hmethod hauthority).mp
      (h.request hwell req hok path method authority hpath hmethod hauthority)
    simp [hpath, hmethod, hauthority, hnul]
  · rintro ⟨hsingle, hnul⟩
    refine ⟨(accepted_iff_wellFormed junk xs).mpr hsingle, ?_⟩
    intro hwell req hok path method authority hpath hmethod hauthority
    have hplain := hnul hwell
    simp only [List.mem_cons, List.not_mem_nil, or_false, forall_eq_or_imp, forall_eq, hpath,
      hmethod, hauthority] at hplain
    exact ((assembled_of_ok hok).request_iff hpath hmethod hauthority).mpr hplain

/-- A GET of "/" with two authorities, "a" and "b". -/
def twoAuthorities : List XHeader :=
  [⟨methodName, getStr, by decide⟩, ⟨pathName, [47], by decide⟩,
    ⟨authorityName, [97], by decide⟩, ⟨authorityName, [98], by decide⟩]

/-- The list is accepted although it is not well-formed. -/
theorem twoAuthorities_not_assembles : ¬ Assembles (fun _ => 0) twoAuthorities := by
  intro h
  have hwell : WellFormed twoAuthorities := h.accepted_iff.mp ⟨_, rfl⟩
  exact absurd hwell.2.2 (by decide)

end Equic.Interop
