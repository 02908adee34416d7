import Equic.Foundation.Buffer
import Equic.Foundation.Runs

/-!
# The verify-headers service

The `IOH_VER_HEAD` branch of `http_server_interop_on_read` reads a request body that is
supposed to equal the serialized headers of its request. It asks for the bytes that are
missing and, when none is, for one more. After a read it counts the bytes that it asked
for, not those that it got, so a read that returns less leaves a gap of uninitialized
memory that is taken for read.
-/

namespace Equic.Interop

open Equic.Foundation

/-! ## §1 The read callback -/

/-- What the callback reports before it switches to writing. -/
inductive Verdict where
  /-- "request headers and payload check out" -/
  | checkOut
  /-- "request headers and payload are different" -/
  | different
  /-- "request body too short (does not match headers)" -/
  | tooShort
  /-- "request body too long (does not match headers)" -/
  | tooLong
  deriving DecidableEq, Repr

/-- `struct ver_head_ctx`, and what is left of the body. -/
structure VerHead where
  /-- `req_body`, `none` for NULL. -/
  reqBody : Option (List UInt8)
  reqSz : ℕ
  unread : List UInt8
  /-- The report, after which the stream is switched to writing. -/
  verdict : Option Verdict
  deriving DecidableEq, Repr

/-- What a read of up to `count` bytes may return: some of the next bytes, or nothing at
    the end of the body. -/
def mayReturn (unread : List UInt8) (count nr : ℕ) : Bool :=
  if unread = [] then nr = 0 else 0 < nr && nr ≤ count && nr ≤ unread.length

/-- The branch of `http_server_interop_on_read`, of which the read returns `nr` bytes;
    `fresh` is what memory holds where `malloc` allocates. -/
def onReadVerHead (qifStr fresh : List UInt8) (s : VerHead) (nr : ℕ) : Option VerHead :=
  let qifSz := qifStr.length
  let reqBody := s.reqBody.getD fresh
  let need := qifSz - s.reqSz
  if s.verdict.isSome then none
  else if need > 0 then
    if mayReturn s.unread need nr then
      if nr > 0 then some {
        reqBody := some (overwrite reqBody s.reqSz (s.unread.take nr))
        reqSz := s.reqSz + need
        unread := s.unread.drop nr
        verdict := none }
      else some { s with reqBody := some reqBody, verdict := some .tooShort }
    else none
  else
    if mayReturn s.unread 1 nr then
      let verdict : Verdict :=
        if nr = 0 then
          -- `memcmp` over `qif_sz` bytes
          if qifStr = reqBody.take qifSz then .checkOut else .different
        else .tooLong
      some { s with
        reqBody := some reqBody
        unread := s.unread.drop nr
        verdict := some verdict }
    else none

/-- Before the first read; the context is all zeros. -/
def VerHead.initial (body : List UInt8) : VerHead where
  reqBody := none
  reqSz := 0
  unread := body
  verdict := none

/-- The report is right, and what counts as read is the beginning of the body. -/
structure VerifiesBody (qifStr body : List UInt8) (s : VerHead) : Prop where
  verdict : ∀ v, s.verdict = some v → (v = .checkOut ↔ body = qifStr)
  read : (s.reqBody.getD []).take s.reqSz = body.take s.reqSz

/-- The first read, if it returns anything, returns everything that it was asked for. -/
def FirstReadFull (qifStr body : List UInt8) (reads : List ℕ) : Prop :=
  ∀ nr, reads.head? = some nr → 0 < nr → nr ≤ body.length → nr ≤ qifStr.length →
    nr = qifStr.length

/-! ## §2 Runs with a full first read -/

section Runs

variable {qifStr body fresh : List UInt8}

theorem verifiesBody_initial : VerifiesBody qifStr body (VerHead.initial body) where
  verdict := by rintro v ⟨⟩
  read := rfl

/-- Nothing happens after the report. -/
theorem statesAlong_of_verdict {s : VerHead} (hs : VerifiesBody qifStr body s)
    (hdone : s.verdict.isSome) (reads : List ℕ) :
    StatesAlong (onReadVerHead qifStr fresh) (VerifiesBody qifStr body) s reads := by
  cases reads with
  | nil => exact hs
  | cons nr reads =>
    refine ⟨hs, fun s' hstep => ?_⟩
    simp [onReadVerHead, hdone] at hstep

/-- The buffer `buf` holds all bytes that `qif_str` calls for, and they come from the body. -/
structure ReadyToProbe (qifStr body fresh buf : List UInt8) (s : VerHead) : Prop where
  reqBody : s.reqBody.getD fresh = buf
  length : buf.length = qifStr.length
  reqSz : s.reqSz = qifStr.length
  body : body = buf ++ s.unread
  verdict : s.verdict = none

/-- The next read then decides. -/
theorem ReadyToProbe.step {buf : List UInt8} {s s' : VerHead} {nr : ℕ}
    (hs : ReadyToProbe qifStr body fresh buf s) (h : onReadVerHead qifStr fresh s nr = some s') :
    VerifiesBody qifStr body s' ∧ s'.verdict.isSome := by
  obtain ⟨hbuf, hlen, hsz, hbody, hverdict⟩ := hs
  have hneed : ¬ qifStr.length - s.reqSz > 0 := by omega
  simp only [onReadVerHead, hverdict, Option.isSome_none, Bool.false_eq_true, if_false, hneed, hbuf,
    Option.ite_none_right_eq_some, Option.some.injEq] at h
  obtain ⟨hreturn, rfl⟩ := h
  have hread : buf.take s.reqSz = body.take s.reqSz := by
    rw [hbody, List.take_append_of_le_length (by omega)]
  refine ⟨⟨?_, hread⟩, rfl⟩
  rintro v hv
  obtain rfl := Option.some.inj hv
  by_cases hend : s.unread = []
  · -- the end of the body: what was read is compared
    have hnr : nr = 0 := by simpa [mayReturn, hend] using hreturn
    rw [hend, List.append_nil] at hbody
    rw [if_pos hnr, List.take_of_length_le hlen.le, hbody]
    by_cases heq : qifStr = buf
    · simp [heq]
    · simp [heq, Ne.symm heq]
  · have hnr : nr ≠ 0 := by
      simp only [mayReturn, hend, if_false, Bool.and_eq_true, decide_eq_true_eq] at hreturn
      omega
    rw [if_neg hnr]
    refine iff_of_false (by simp) fun heq => ?_
    -- a body with more bytes is longer than `qif_str`
    have hlength := congrArg List.length (hbody.symm.trans heq)
    rw [List.length_append] at hlength
    have hpos := List.length_pos_iff.mpr hend
    omega

theorem ReadyToProbe.statesAlong {buf : List UInt8} {s : VerHead}
    (hs : ReadyToProbe qifStr body fresh buf s) (hverifies : VerifiesBody qifStr body s)
    (reads : List ℕ) :
    StatesAlong (onReadVerHead qifStr fresh) (VerifiesBody qifStr body) s reads := by
  cases reads with
  | nil => exact hverifies
  | cons nr reads =>
    refine ⟨hverifies, fun s' hstep => ?_⟩
    obtain ⟨hs', hdone⟩ := hs.step hstep
    exact statesAlong_of_verdict hs' hdone reads

/-- A first read of `nr` bytes: `qif_str` many are taken for read. -/
theorem onReadVerHead_first {nr : ℕ} (hpos : 0 < nr) (hle : nr ≤ body.length)
    (hle' : nr ≤ qifStr.length) :
    onReadVerHead qifStr fresh (VerHead.initial body) nr = some {
      reqBody := some (body.take nr ++ fresh.drop nr)
      reqSz := qifStr.length
      unread := body.drop nr
      verdict := none } := by
  have hqif : 0 < qifStr.length := by omega
  have hbody : body ≠ [] := List.length_pos_iff.mp (by omega)
  have hlength : (body.take nr).length = nr := by simp [hle]
  simp only [onReadVerHead, VerHead.initial, mayReturn, Option.isSome_none, Bool.false_eq_true,
    if_false, Nat.sub_zero, hqif, if_true, hbody, hpos, hle, hle', decide_true, Bool.and_self,
    Option.getD_none, overwrite, List.take_zero, List.nil_append, Nat.zero_add, hlength]

/-- What the first read leaves behind, for a request with headers. -/
theorem onReadVerHead_initial {nr : ℕ} (hqif : 0 < qifStr.length) {s' : VerHead}
    (h : onReadVerHead qifStr fresh (VerHead.initial body) nr = some s') :
    (body = [] ∧ s'.verdict = some .tooShort ∧ s'.reqSz = 0) ∨
      (0 < nr ∧ nr ≤ body.length ∧ nr ≤ qifStr.length ∧ s' = {
        reqBody := some (body.take nr ++ fresh.drop nr)
        reqSz := qifStr.length
        unread := body.drop nr
        verdict := none }) := by
  by_cases hbody : body = []
  · subst hbody
    by_cases hnr : nr = 0
    · simp only [onReadVerHead, VerHead.initial, mayReturn, Option.isSome_none, Bool.false_eq_true,
        if_false, Nat.sub_zero, hqif, if_true, hnr, gt_iff_lt, decide_true, lt_self_iff_false,
        Option.some.injEq] at h
      subst h
      exact .inl ⟨rfl, rfl, rfl⟩
    · simp [onReadVerHead, VerHead.initial, mayReturn, hqif, hnr] at h
  · by_cases hreturn : 0 < nr ∧ nr ≤ qifStr.length ∧ nr ≤ body.length
    · obtain ⟨hpos, hle', hle⟩ := hreturn
      rw [onReadVerHead_first hpos hle hle', Option.some.injEq] at h
      exact .inr ⟨hpos, hle, hle', h.symm⟩
    · have hno : mayReturn body qifStr.length nr = false := by
        simp only [mayReturn, hbody, if_false, Bool.and_eq_false_iff, decide_eq_false_iff_not]
        omega
      simp [onReadVerHead, VerHead.initial, hqif, hno] at h

/-- After a full first read nothing can go wrong. -/
theorem statesAlong_of_firstReadFull (hfresh : fresh.length = qifStr.length) {reads : List ℕ}
    (hfull : FirstReadFull qifStr body reads) :
    StatesAlong (onReadVerHead qifStr fresh) (VerifiesBody qifStr body) (VerHead.initial body)
      reads := by
  rcases Nat.eq_zero_or_pos qifStr.length with hqif | hqif
  · -- no header at all: the first read is the one that decides
    have hnil : fresh = [] := List.length_eq_zero_iff.mp (hfresh.trans hqif)
    have hready : ReadyToProbe qifStr body fresh [] (VerHead.initial body) :=
      ⟨hnil, hqif.symm, hqif.symm, rfl, rfl⟩
    exact hready.statesAlong verifiesBody_initial reads
  · cases reads with
    | nil => exact verifiesBody_initial
    | cons nr reads =>
      refine ⟨verifiesBody_initial, fun s' hstep => ?_⟩
      obtain ⟨rfl, hshort, hsz⟩ | ⟨hpos, hle, hle', rfl⟩ := onReadVerHead_initial hqif hstep
      · refine statesAlong_of_verdict ⟨?_, by rw [hsz]; rfl⟩ (by rw [hshort]; rfl) reads
        rintro v hv
        obtain rfl := Option.some.inj (hshort.symm.trans hv)
        refine iff_of_false (by simp) ?_
        rintro rfl
        exact absurd hqif (lt_irrefl 0)
      · obtain rfl := hfull nr rfl hpos hle hle'
        have hdrop : fresh.drop qifStr.length = [] := List.drop_eq_nil_of_le hfresh.le
        have hlength : (body.take qifStr.length).length = qifStr.length := by simp [hle]
        rw [hdrop, List.append_nil]
        have hready : ReadyToProbe qifStr body fresh (body.take qifStr.length)
            ⟨some (body.take qifStr.length), qifStr.length, body.drop qifStr.length, none⟩ :=
          ⟨rfl, hlength, rfl, (List.take_append_drop _ _).symm, rfl⟩
        refine hready.statesAlong ⟨?_, ?_⟩ reads
        · rintro v ⟨⟩
        · exact List.take_of_length_le hlength.le

end Runs

/-! ## §3 When the service decides equality -/

/-- A first read that returns less leaves a gap that memory need not fill with the body. -/
theorem not_statesAlong_of_gap {qifStr body : List UInt8} {nr : ℕ} {reads : List ℕ}
    (hpos : 0 < nr) (hle : nr ≤ body.length) (hgap : nr < qifStr.length) :
    ¬ StatesAlong
      (onReadVerHead qifStr (List.replicate qifStr.length (body.getD nr 0 + 1)))
      (VerifiesBody qifStr body) (VerHead.initial body) (nr :: reads) := by
  rintro ⟨-, htail⟩
  have hread := (htail _ (onReadVerHead_first hpos hle hgap.le)).head.read
  -- look at the first byte of the gap
  have hbyte := congrArg (fun l => l[nr]?) hread
  have hlength : (body.take nr).length = nr := by simp [hle]
  have hjunk : (body.take nr ++ (List.replicate qifStr.length (body.getD nr 0 + 1)).drop nr)[nr]? =
      some (body.getD nr 0 + 1) := by
    rw [List.getElem?_append_right hlength.le, hlength, Nat.sub_self, List.drop_replicate]
    rw [List.getElem?_replicate, if_pos (by omega)]
  simp only [Option.getD_some, List.getElem?_take, hgap, if_true, hjunk] at hbyte
  rw [List.getD_eq_getElem?_getD] at hbyte
  cases hb : body[nr]? with
  | none =>
    rw [hb] at hbyte
    cases hbyte
  | some b =>
    rw [hb, Option.getD_some, Option.some.injEq] at hbyte
    simp at hbyte

/-- **The verify-headers service.** For every request with headers `qifStr`, every body and
    every way in which reads deliver it: whatever memory held, the service reports that the
    body checks out exactly if it equals the headers, and what it counts as read is the
    beginning of the body, if and only if the first read returns all the bytes it was asked
    for or nothing. -/
theorem verifiesBody_iff (qifStr body : List UInt8) (reads : List ℕ) :
    (∀ fresh, fresh.length = qifStr.length →
      StatesAlong (onReadVerHead qifStr fresh) (VerifiesBody qifStr body) (VerHead.initial body)
        reads) ↔
      FirstReadFull qifStr body reads := by
  constructor
  · rintro h nr hnr hpos hle hle'
    by_contra hne
    cases reads with
    | nil => cases hnr
    | cons nr' reads =>
      obtain rfl : nr' = nr := Option.some.inj hnr
      exact not_statesAlong_of_gap hpos hle (lt_of_le_of_ne hle' hne) (h _ (by simp))
  · exact fun hfull fresh hfresh => statesAlong_of_firstReadFull hfresh hfull

/-- Headers and body are the four bytes 1, 2, 3, 4, and come in two halves. -/
theorem twoHalves_not_verifiesBody :
    ¬ ∀ fresh, fresh.length = 4 →
      StatesAlong (onReadVerHead [1, 2, 3, 4] fresh) (VerifiesBody [1, 2, 3, 4] [1, 2, 3, 4])
        (VerHead.initial [1, 2, 3, 4]) [2, 1] := by
  intro h
  have hlast := ((h [0, 0, 0, 0] rfl).get_exec (by decide)).verdict .tooLong (by decide)
  exact absurd (hlast.mpr rfl) (by decide)

end Equic.Interop
