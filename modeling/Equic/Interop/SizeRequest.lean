import Equic.Interop.OnRead

/-!
# Size requests

A path of the form `/N` or `/file-N`, with a unit and push parameters if wanted, asks for a
response of a given size. `http_server_interop_on_read` shifts the number by the unit and
then compares with the limit, so it compares what is left of the size modulo 2^64.
`yieldsSize_iff` says for which numbers that is a difference.
-/

namespace Equic.Interop

open Equic.Foundation

/-! ## §1 Requests -/

/-- The units of a size. -/
inductive SizeUnit where
  | kilo
  | mega
  | giga
  deriving DecidableEq, Repr

namespace SizeUnit

/-- The bits that a number in the unit is shifted by. -/
def bits : SizeUnit → ℕ
  | kilo => 10
  | mega => 20
  | giga => 30

/-- The letter in either case. -/
def letter : SizeUnit → Bool → UInt8
  | kilo, false => 75
  | kilo, true => 107
  | mega, false => 77
  | mega, true => 109
  | giga, false => 71
  | giga, true => 103

end SizeUnit

/-- A well-formed size request. -/
structure SizeRequest where
  /-- `/file-` rather than `/`. -/
  isFile : Bool
  number : List UInt8
  number_ne : number ≠ []
  number_digits : ∀ b ∈ number, isDigit b
  unit : Option SizeUnit
  /-- The unit is in lower case. -/
  isLower : Bool
  pushes : List (List UInt8)
  pushes_amp : ∀ value ∈ pushes, 38 ∉ value

namespace SizeRequest

/-- What stands before the number. -/
def pre (r : SizeRequest) : List UInt8 := if r.isFile then cstr "/file-" else cstr "/"

/-- The unit as text. -/
def suffix (r : SizeRequest) : List UInt8 :=
  match r.unit with
  | none => []
  | some unit => [unit.letter r.isLower]

/-- The parts of the path. -/
def fields (r : SizeRequest) : Fields where
  pre := r.pre
  number := r.number
  suffix := r.suffix
  pushes := (pushSeps r.pushes.length).zip r.pushes

/-- The path. -/
def path (r : SizeRequest) : List UInt8 := r.fields.text

/-- The request, apart from its path the given one. -/
def toReq (r : SizeRequest) (req : Req) : Req := { req with method := .get, path := some r.path }

/-- The bits that the unit stands for. -/
def bits (r : SizeRequest) : ℕ := (r.unit.map SizeUnit.bits).getD 0

/-- The size that is asked for, of any magnitude. -/
def size (r : SizeRequest) : ℕ := numeral r.number * 2 ^ r.bits

/-- The size is within the limit, or the number exceeds a `long`, or what is left of the size
    modulo 2^64 exceeds the limit. -/
def Visible (r : SizeRequest) : Prop :=
  numeral r.number ≤ 2 ^ (31 - r.bits) ∨ 2 ^ 63 ≤ numeral r.number ∨
    2 ^ (31 - r.bits) < numeral r.number % 2 ^ (64 - r.bits)

/-- The table has an entry for so many push parameters, and the size is visible. -/
def Harmless (r : SizeRequest) : Prop := r.pushes.length ≤ 3 ∧ r.Visible

end SizeRequest

/-- The requested size or an error. -/
structure YieldsSize (size : ℕ) (st : InteropStream) : Prop where
  served : size ≤ 2 ^ 31 →
    st.interopHandler = .genFile ∧ ∃ gfc, st.interopU = .gfc gfc ∧ gfc.remain = size
  refused : 2 ^ 31 < size → st.interopHandler = .error ∧ st.respStatus = some "406"

/-! ## §2 The path is routed -/

theorem accepts_one (b : UInt8) : (Bracket.one b).accepts true b := by
  revert b
  exact forall_byte (by decide +kernel)

theorem accepts_digit (b : UInt8) : isDigit b → digit.accepts true b := by
  revert b
  exact forall_byte (by decide +kernel)

theorem not_isDigit (b : UInt8) : digit.accepts true b = false → isDigit b = false := by
  revert b
  exact forall_byte (by decide +kernel)

theorem accepts_notAmp (b : UInt8) : b ≠ 38 → notAmp.accepts true b := by
  revert b
  exact forall_byte (by decide +kernel)

theorem accepts_letter (unit : SizeUnit) (isLower : Bool) :
    unitLetter.accepts true (unit.letter isLower) := by
  cases unit <;> cases isLower <;> decide

theorem spells_self (s : List UInt8) : Reads.Spells true s s :=
  List.forall₂_same.mpr fun b _ => accepts_one b

theorem pushesFit_zip {seps values : List (List UInt8)} (hlen : seps.length = values.length)
    (hvalues : ∀ value ∈ values, 38 ∉ value) : PushesFit seps (seps.zip values) := by
  induction seps generalizing values with
  | nil => exact .nil
  | cons sep seps ih =>
    cases values with
    | nil => cases hlen
    | cons value values =>
      obtain ⟨hvalue, hvalues⟩ := List.forall_mem_cons.mp hvalues
      refine .cons (spells_self sep) (fun b hb => ?_) (ih (Nat.succ.inj hlen) hvalues)
      exact accepts_notAmp b fun h => hvalue (h ▸ hb)

namespace SizeRequest

theorem isPre (r : SizeRequest) : IsPre r.pre := by
  rw [pre]
  split
  · exact .inr rfl
  · exact .inl rfl

/-- A size request has parts that fit. -/
theorem fits (r : SizeRequest) : r.fields.Fits r.pre r.pushes.length where
  pre := spells_self r.pre
  number_ne := r.number_ne
  number := fun b hb => accepts_digit b (r.number_digits b hb)
  suffix_le := by
    rw [fields, suffix]
    cases r.unit with
    | none => exact Nat.zero_le 1
    | some unit => exact le_rfl
  suffix := by
    rw [fields, suffix]
    cases r.unit with
    | none => simp
    | some unit => exact List.forall_mem_singleton.mpr (accepts_letter unit r.isLower)
  pushes := pushesFit_zip (length_pushSeps _) r.pushes_amp

/-- What is left of the size: the number saturates, and the shift is modulo 2^64. -/
def remain (r : SizeRequest) : ℕ := min (numeral r.number) (2 ^ 63 - 1) * 2 ^ r.bits % 2 ^ 64

theorem strtol_path (r : SizeRequest) :
    strtol (r.path.drop r.pre.length) = min (numeral r.number : ℤ) (2 ^ 63 - 1) := by
  have hdrop : r.path.drop r.pre.length =
      r.number ++ (r.suffix ++ pushText r.fields.pushes) := List.drop_left
  rw [hdrop]
  exact strtol_append r.number_digits r.number_ne
    fun b tail h => not_isDigit b (r.fits.stops b tail h)

/-- The letter of the unit is where the second group begins. -/
theorem path_unit (r : SizeRequest) {unit : SizeUnit} (hunit : r.unit = some unit) :
    r.path[r.pre.length + r.number.length]? = some (unit.letter r.isLower) := by
  have hpath : r.path =
      (r.pre ++ r.number) ++ (unit.letter r.isLower :: pushText r.fields.pushes) := by
    rw [path, Fields.text, fields, suffix, hunit, List.append_assoc]
    rfl
  rw [hpath, ← List.length_append, List.getElem?_append_right le_rfl, Nat.sub_self]
  rfl

/-- What `http_server_interop_on_read` computes. -/
theorem requestedSize_path (r : SizeRequest) :
    requestedSize r.path r.fields.matches = r.remain := by
  have hso : rmSo r.fields.matches 1 = r.pre.length := by
    rw [rmSo, Fields.matches_one]
    rfl
  have hremain : (strtol (r.path.drop r.pre.length) % 2 ^ 64).toNat =
      min (numeral r.number) (2 ^ 63 - 1) := by
    rw [strtol_path]
    omega
  rw [requestedSize, hso, hremain, Fields.matches_two]
  cases hunit : r.unit with
  | none =>
    -- the second group is empty
    have hsuffix : r.fields.suffix.length = 0 := by rw [fields, suffix, hunit]; rfl
    have hbits : r.bits = 0 := by rw [bits, hunit]; rfl
    dsimp only
    rw [hsuffix, if_neg (by omega), remain, hbits, pow_zero, mul_one]
    exact (Nat.mod_eq_of_lt (by omega)).symm
  | some unit =>
    have hsuffix : r.fields.suffix.length = 1 := by rw [fields, suffix, hunit]; rfl
    have hbits : r.bits = unit.bits := by rw [bits, hunit]; rfl
    have hletter : r.path[r.fields.pre.length + r.fields.number.length]? =
        some (unit.letter r.isLower) := r.path_unit hunit
    dsimp only
    rw [hsuffix, if_pos (by omega), hletter, remain, hbits, ← Nat.shiftLeft_eq]
    cases unit <;> cases r.isLower <;> rfl

end SizeRequest

/-! ## §3 The response -/

namespace SizeRequest

variable (r : SizeRequest) (req : Req) (st : InteropStream)

/-- The stream after the callback. -/
def answered : InteropStream :=
  interopOnReadHeaders (initMapRegexes reqMaps) (some (r.toReq req)) st

/-- The request reaches the branch for generated files. -/
theorem answered_eq (hpushes : r.pushes.length ≤ 3) : ∃ path, r.answered req st =
    InteropStream.prepare { st with headersRead := true, req := some (r.toReq req) } (r.toReq req)
      r.path (compiledGenFile path r.pre r.pushes.length) r.fields.matches := by
  obtain ⟨path, hfind⟩ := findHandler_genFile r.isPre hpushes r.fits .get
  refine ⟨path, ?_⟩
  have hget : ¬ Method.get = .unset := by decide
  have hget' : ¬ Method.get = .unsupported := by decide
  simp only [answered, interopOnReadHeaders, toReq, if_neg hget, if_neg hget', SizeRequest.path,
    hfind]

/-- The file is generated if what is left of the size is within the limit. -/
theorem answered_genFile (hpushes : r.pushes.length ≤ 3) (h : r.remain ≤ 2 ^ 31) :
    (r.answered req st).interopHandler = .genFile ∧
      ∃ gfc, (r.answered req st).interopU = .gfc gfc ∧ gfc.remain = r.remain := by
  obtain ⟨path, hanswered⟩ := r.answered_eq req st hpushes
  have hlimit : ¬ r.remain > sizeLimit := not_lt.mpr h
  rw [hanswered]
  simp only [InteropStream.prepare, compiledGenFile, genFileMap, requestedSize_path, if_neg hlimit]
  exact ⟨rfl, _, rfl, rfl⟩

/-- Otherwise the answer is the 406 error. -/
theorem answered_error (hpushes : r.pushes.length ≤ 3) (h : 2 ^ 31 < r.remain) :
    (r.answered req st).interopHandler = .error ∧ (r.answered req st).respStatus = some "406" := by
  obtain ⟨path, hanswered⟩ := r.answered_eq req st hpushes
  have hlimit : r.remain > sizeLimit := h
  rw [hanswered]
  simp only [InteropStream.prepare, compiledGenFile, genFileMap, requestedSize_path, if_pos hlimit]
  exact ⟨rfl, rfl⟩

/-- For too many push parameters there is no route. -/
theorem answered_notFound (hpushes : 3 < r.pushes.length) :
    (r.answered req st).interopHandler = .error ∧ (r.answered req st).respStatus = some "404" := by
  have hfind := findHandler_eq_none r.isPre hpushes r.fits .get
  have hget : ¬ Method.get = .unset := by decide
  have hget' : ¬ Method.get = .unsupported := by decide
  simp only [answered, interopOnReadHeaders, toReq, if_neg hget, if_neg hget', SizeRequest.path,
    hfind]
  exact ⟨rfl, rfl⟩

end SizeRequest

/-! ## §4 When the check sees the size -/

namespace SizeRequest

theorem bits_le (r : SizeRequest) : r.bits ≤ 30 := by
  rw [bits]
  cases r.unit with
  | none => exact Nat.zero_le 30
  | some unit => cases unit <;> decide

/-- The limit in the unit. -/
theorem size_le_iff (r : SizeRequest) : r.size ≤ 2 ^ 31 ↔ numeral r.number ≤ 2 ^ (31 - r.bits) := by
  have hbits := r.bits_le
  have hpow : 2 ^ 31 = 2 ^ (31 - r.bits) * 2 ^ r.bits := by rw [← pow_add]; congr 1; omega
  rw [size, hpow, Nat.mul_le_mul_right_iff (Nat.two_pow_pos _)]

/-- Within the limit nothing is lost. -/
theorem remain_eq (r : SizeRequest) (h : r.size ≤ 2 ^ 31) : r.remain = r.size := by
  have hnumber : numeral r.number ≤ r.size := Nat.le_mul_of_pos_right _ (Nat.two_pow_pos _)
  have hmin : min (numeral r.number) (2 ^ 63 - 1) = numeral r.number := by omega
  rw [remain, hmin]
  exact Nat.mod_eq_of_lt (lt_of_le_of_lt h (by norm_num))

/-- A shift loses the upper bits of the number. -/
theorem lt_remain_iff (r : SizeRequest) (h : numeral r.number < 2 ^ 63) :
    2 ^ 31 < r.remain ↔ 2 ^ (31 - r.bits) < numeral r.number % 2 ^ (64 - r.bits) := by
  have hbits := r.bits_le
  have hmin : min (numeral r.number) (2 ^ 63 - 1) = numeral r.number := by omega
  have hlimit : 2 ^ 31 = 2 ^ (31 - r.bits) * 2 ^ r.bits := by rw [← pow_add]; congr 1; omega
  have hword : 2 ^ 64 = 2 ^ (64 - r.bits) * 2 ^ r.bits := by rw [← pow_add]; congr 1; omega
  rw [remain, hmin, hword, Nat.mul_mod_mul_right, hlimit,
    Nat.mul_lt_mul_right (Nat.two_pow_pos _)]

/-- A saturated number is refused whatever the unit. -/
theorem lt_remain_of_saturated (r : SizeRequest) (h : 2 ^ 63 ≤ numeral r.number) :
    2 ^ 31 < r.remain := by
  have hmin : min (numeral r.number) (2 ^ 63 - 1) = 2 ^ 63 - 1 := by omega
  rw [remain, hmin, bits]
  cases r.unit with
  | none => decide
  | some unit => cases unit <;> decide

/-- The check decides right about a visible size. -/
theorem visible_iff (r : SizeRequest) : r.Visible ↔ r.size ≤ 2 ^ 31 ∨ 2 ^ 31 < r.remain := by
  rw [Visible, size_le_iff]
  refine or_congr_right ?_
  rcases Nat.lt_or_ge (numeral r.number) (2 ^ 63) with hlt | hge
  · rw [r.lt_remain_iff hlt]
    exact or_iff_right (by omega)
  · exact iff_of_true (.inl hge) (r.lt_remain_of_saturated hge)

end SizeRequest

/-- **Size requests.** For every size request, whatever else the header set holds: the
    response has exactly the requested size if that is within the limit, and is the 406 error
    otherwise, if and only if the table has an entry for so many push parameters and the size
    is visible. -/
theorem yieldsSize_iff (r : SizeRequest) (req : Req) (st : InteropStream) :
    YieldsSize r.size (interopOnReadHeaders (initMapRegexes reqMaps) (some (r.toReq req)) st) ↔
      r.Harmless := by
  rw [SizeRequest.Harmless, r.visible_iff]
  change YieldsSize r.size (r.answered req st) ↔ _
  rcases Nat.lt_or_ge 3 r.pushes.length with hmany | hpushes
  · -- neither a file nor the right error
    refine iff_of_false (fun h => ?_) fun h => absurd h.1 (not_le.mpr hmany)
    obtain ⟨hhandler, hstatus⟩ := r.answered_notFound req st hmany
    rcases Nat.lt_or_ge (2 ^ 31) r.size with hsize | hsize
    · exact absurd (hstatus.symm.trans (h.refused hsize).2) (by decide)
    · exact absurd (hhandler.symm.trans (h.served hsize).1) (by decide)
  rw [and_iff_right hpushes]
  rcases Nat.lt_or_ge (2 ^ 31) r.remain with hlt | hle
  · refine iff_of_true ⟨fun hsize => ?_, fun _ => r.answered_error req st hpushes hlt⟩ (.inr hlt)
    rw [r.remain_eq hsize] at hlt
    exact absurd hsize (not_le.mpr hlt)
  · obtain ⟨hhandler, gfc, hgfc, hremain⟩ := r.answered_genFile req st hpushes hle
    constructor
    · intro h
      refine .inl (not_lt.mp fun hsize => ?_)
      exact absurd (hhandler.symm.trans (h.refused hsize).1) (by decide)
    · rintro (hsize | hlt)
      · refine ⟨fun _ => ⟨hhandler, gfc, hgfc, ?_⟩, fun hgt => absurd hsize (not_le.mpr hgt)⟩
        rw [hremain, r.remain_eq hsize]
      · exact absurd hle (not_le.mpr hlt)

/-- `/18014398509481984K`: the number is 2^54. -/
def hugeRequest : SizeRequest where
  isFile := false
  number := cstr "18014398509481984"
  number_ne := List.cons_ne_nil 49 (cstr "8014398509481984")
  number_digits := List.all_eq_true.mp rfl
  unit := some .kilo
  isLower := false
  pushes := []
  pushes_amp := List.forall_mem_nil _

/-- Of 2^64 bytes none is left. -/
theorem hugeRequest_not_yieldsSize :
    ¬ YieldsSize hugeRequest.size (interopOnReadHeaders (initMapRegexes reqMaps)
      (some (hugeRequest.toReq interopServerHsetCreate)) .new) := by
  intro h
  have hsize : 2 ^ 31 < hugeRequest.size := by decide +kernel
  obtain ⟨hhandler, -⟩ :=
    hugeRequest.answered_genFile interopServerHsetCreate .new (by decide) (by decide +kernel)
  have herror := (h.refused hsize).1
  cases hhandler.symm.trans herror

end Equic.Interop
