import Equic.Foundation.Cyclic
import Equic.Foundation.Loop
import Equic.Foundation.Runs

/-!
# Generated payload

A generated-file response repeats the text `on_being_idle` until `remain` bytes are sent.
lsquic takes the bytes through `idle_read` or, in the `-P` mode, through
`my_interop_preadv`, in pieces of its own choice.

`Produced` ties the two fields that are carried from call to call to the number of bytes
produced so far. One round of the loop of `idle_read` keeps it, so every call does, and
what a whole response consists of follows.
-/

namespace Equic.Interop

open Equic.Foundation

/-! ## §1 The two read paths -/

/-- `struct gen_file_ctx`. -/
structure GenFileCtx where
  pushPaths : List (List UInt8)
  remain : ℕ
  idleOff : ℕ
  deriving DecidableEq, Repr

/-- `idle_read` in its loop: what it has written to the buffer is `out`. -/
structure IdleLoop where
  gfc : GenFileCtx
  out : List UInt8

/-- `while (p < end && gfc->remain > 0)`, for a buffer of `count` bytes. -/
def idleCond (count : ℕ) (l : IdleLoop) : Bool := l.out.length < count && 0 < l.gfc.remain

/-- One round; `none` if the copy reads past the end of the text. -/
def idleBody (text : List UInt8) (count : ℕ) (l : IdleLoop) : Option IdleLoop :=
  -- `(unsigned) (end - p)`
  let space := (count - l.out.length) % 2 ^ 32
  let towrite := min space (text.length - l.gfc.idleOff)
  let towrite := if towrite > l.gfc.remain then l.gfc.remain else towrite
  if l.gfc.idleOff + towrite ≤ text.length then
    -- `idle_off` is an unsigned
    let idleOff := (l.gfc.idleOff + towrite) % 2 ^ 32
    some {
      gfc := { l.gfc with
        idleOff := if idleOff = text.length then 0 else idleOff
        remain := l.gfc.remain - towrite }
      out := l.out ++ (text.drop l.gfc.idleOff).take towrite }
  else none

/-- `idle_read` into a buffer of `count` bytes: the context after it and the bytes. -/
def idleRead (text : List UInt8) (fuel : ℕ) (gfc : GenFileCtx) (count : ℕ) :
    Option (GenFileCtx × List UInt8) :=
  (whileLoop (idleCond count) (idleBody text count) fuel ⟨gfc, []⟩).map fun l => (l.gfc, l.out)

/-- `my_interop_preadv` into several buffers. -/
def myInteropPreadv (text : List UInt8) (fuel : ℕ) :
    GenFileCtx → List ℕ → Option (GenFileCtx × List UInt8)
  | gfc, [] => some (gfc, [])
  | gfc, count :: counts => do
    let (gfc, out) ← idleRead text fuel gfc count
    let (gfc, out') ← myInteropPreadv text fuel gfc counts
    return (gfc, out ++ out')

/-- What lsquic calls during a write. -/
inductive IdleCall where
  | idleRead (count : ℕ)
  | preadv (counts : List ℕ)
  deriving DecidableEq, Repr

/-- The sizes of the buffers of a call. -/
def IdleCall.counts : IdleCall → List ℕ
  | .idleRead count => [count]
  | .preadv counts => counts

/-- One call, through either path. -/
def serveCall (text : List UInt8) (fuel : ℕ) (gfc : GenFileCtx) :
    IdleCall → Option (GenFileCtx × List UInt8)
  | .idleRead count => idleRead text fuel gfc count
  | .preadv counts => myInteropPreadv text fuel gfc counts

/-- Several calls in a row. -/
def serve (text : List UInt8) (fuel : ℕ) :
    GenFileCtx → List IdleCall → Option (GenFileCtx × List UInt8)
  | gfc, [] => some (gfc, [])
  | gfc, call :: calls => do
    let (gfc, out) ← serveCall text fuel gfc call
    let (gfc, out') ← serve text fuel gfc calls
    return (gfc, out ++ out')

/-! ## §2 What a call produces -/

/-- Of a response of `R` bytes the first `n` have been produced. -/
structure Produced (text : List UInt8) (R n : ℕ) (gfc : GenFileCtx) : Prop where
  le : n ≤ R
  remain : gfc.remain = R - n
  idleOff : gfc.idleOff = n % text.length

/-- The loop of a call that began after `n` bytes. -/
structure LoopProduced (text : List UInt8) (R n count : ℕ) (l : IdleLoop) : Prop where
  fits : l.out.length ≤ count
  out : l.out = segment text n l.out.length
  produced : Produced text R (n + l.out.length) l.gfc

section Calls

variable {text : List UInt8} (htext : 0 < text.length) {R : ℕ} (hR : R ≤ 2 ^ 31)

include htext hR

omit htext in
/-- Moving on by `k` bytes within one copy of the text. -/
theorem Produced.advance {n k : ℕ} {gfc : GenFileCtx} (h : Produced text R n gfc)
    (hfit : gfc.idleOff + k ≤ text.length) (hleft : k ≤ gfc.remain) :
    Produced text R (n + k) { gfc with
      idleOff := if (gfc.idleOff + k) % 2 ^ 32 = text.length then 0
        else (gfc.idleOff + k) % 2 ^ 32
      remain := gfc.remain - k } := by
  obtain ⟨hle, hremain, hoff⟩ := h
  refine ⟨by omega, by dsimp only; omega, ?_⟩
  -- the offset is at most the number of bytes produced, far from wrapping
  have hsmall : (gfc.idleOff + k) % 2 ^ 32 = gfc.idleOff + k := by
    apply Nat.mod_eq_of_lt
    have := Nat.mod_le n text.length
    omega
  have hnext : (n + k) % text.length = (gfc.idleOff + k) % text.length := by
    rw [hoff, Nat.mod_add_mod]
  dsimp only
  rw [hnext, hsmall]
  split
  · rename_i hend
    rw [hend, Nat.mod_self]
  · exact (Nat.mod_eq_of_lt (by omega)).symm

/-- One round makes progress and appends the next bytes of the endless text. -/
theorem LoopProduced.round {n count : ℕ} (hcount : count < 2 ^ 32) (l : IdleLoop)
    (hl : LoopProduced text R n count l) (hcond : idleCond count l = true) :
    ∃ l', idleBody text count l = some l' ∧ LoopProduced text R n count l' ∧
      count - l'.out.length < count - l.out.length := by
  simp only [idleCond, Bool.and_eq_true, decide_eq_true_eq] at hcond
  obtain ⟨hspace, hmore⟩ := hcond
  have hoff : l.gfc.idleOff < text.length := by
    rw [hl.produced.idleOff]
    exact Nat.mod_lt _ htext
  have hcast : (count - l.out.length) % 2 ^ 32 = count - l.out.length :=
    Nat.mod_eq_of_lt (by omega)
  -- the number of bytes that this round copies
  obtain ⟨k, hk⟩ : ∃ k, k = min (min (count - l.out.length) (text.length - l.gfc.idleOff))
      l.gfc.remain := ⟨_, rfl⟩
  have htowrite : (if min (count - l.out.length) (text.length - l.gfc.idleOff) > l.gfc.remain
      then l.gfc.remain else min (count - l.out.length) (text.length - l.gfc.idleOff)) = k := by
    rw [hk]
    split <;> omega
  have hfit : l.gfc.idleOff + k ≤ text.length := by omega
  have hpiece : (text.drop l.gfc.idleOff).take k = segment text (n + l.out.length) k := by
    rw [hl.produced.idleOff] at hfit ⊢
    exact (segment_eq_of_le hfit).symm
  have hlength : (l.out ++ (text.drop l.gfc.idleOff).take k).length = l.out.length + k := by
    rw [hpiece, List.length_append, length_segment]
  simp only [idleBody, hcast, htowrite, if_pos hfit]
  refine ⟨_, rfl, ⟨?_, ?_, ?_⟩, ?_⟩
  · dsimp only
    omega
  · dsimp only
    rw [hlength, hpiece, ← segment_append, ← hl.out]
  · dsimp only
    rw [hlength, ← Nat.add_assoc]
    exact hl.produced.advance hR hfit (by omega)
  · dsimp only
    omega

/-- **`idle_read`.** A call ends after at most as many rounds as its buffer has bytes, and
    produces what fits the buffer and is left of the response. -/
theorem idleRead_spec {n count fuel : ℕ} {gfc : GenFileCtx} (hcount : count < 2 ^ 32)
    (hfuel : count ≤ fuel) (hgfc : Produced text R n gfc) :
    ∃ gfc', idleRead text fuel gfc count = some (gfc', segment text n (min (R - n) count)) ∧
      Produced text R (n + min (R - n) count) gfc' := by
  have hstart : LoopProduced text R n count ⟨gfc, []⟩ := ⟨Nat.zero_le _, rfl, hgfc⟩
  obtain ⟨l, hloop, hl, hdone⟩ := whileLoop_rule (fun l => count - l.out.length)
    (LoopProduced.round htext hR hcount) hstart hfuel
  -- the loop stops when the buffer is full or the response complete
  have hlength : l.out.length = min (R - n) count := by
    have hfits := hl.fits
    have hle := hl.produced.le
    have hremain := hl.produced.remain
    simp only [idleCond, Bool.and_eq_false_iff, decide_eq_false_iff_not, not_lt] at hdone
    omega
  refine ⟨l.gfc, ?_, hlength ▸ hl.produced⟩
  rw [idleRead, hloop, ← hlength, ← hl.out]
  rfl

omit htext hR in
/-- What two reads in a row produce, of `a` and of `b` bytes. -/
theorem segment_two_reads (text : List UInt8) {n : ℕ} (hle : n ≤ R) (a b : ℕ) :
    segment text n (min (R - n) a) ++
        segment text (n + min (R - n) a) (min (R - (n + min (R - n) a)) b) =
      segment text n (min (R - n) (a + b)) ∧
    n + min (R - n) a + min (R - (n + min (R - n) a)) b = n + min (R - n) (a + b) := by
  have hsum : min (R - n) a + min (R - (n + min (R - n) a)) b = min (R - n) (a + b) := by omega
  rw [segment_append, Nat.add_assoc, hsum]
  exact ⟨rfl, rfl⟩

/-- **`my_interop_preadv`.** -/
theorem myInteropPreadv_spec {fuel : ℕ} (counts : List ℕ)
    (hcounts : ∀ count ∈ counts, count < 2 ^ 32 ∧ count ≤ fuel) {n : ℕ} {gfc : GenFileCtx}
    (hgfc : Produced text R n gfc) :
    ∃ gfc', myInteropPreadv text fuel gfc counts =
        some (gfc', segment text n (min (R - n) counts.sum)) ∧
      Produced text R (n + min (R - n) counts.sum) gfc' := by
  induction counts generalizing n gfc with
  | nil => exact ⟨gfc, by simp [myInteropPreadv], by simpa using hgfc⟩
  | cons count counts ih =>
    obtain ⟨hcount, hfuel⟩ := hcounts count List.mem_cons_self
    obtain ⟨gfc₁, hread, hgfc₁⟩ := idleRead_spec htext hR hcount hfuel hgfc
    obtain ⟨gfc₂, hrest, hgfc₂⟩ := ih (fun c hc => hcounts c (List.mem_cons_of_mem _ hc)) hgfc₁
    obtain ⟨hbytes, hposition⟩ := segment_two_reads text hgfc.le count counts.sum
    rw [List.sum_cons]
    refine ⟨gfc₂, ?_, hposition ▸ hgfc₂⟩
    rw [myInteropPreadv, hread, Option.bind_eq_bind, Option.bind_some]
    dsimp only
    rw [hrest, ← hbytes]
    rfl

/-- What several calls ask for. -/
def asked (calls : List IdleCall) : ℕ := (calls.map fun call => call.counts.sum).sum

/-- Every buffer of every call has less than 2^32 bytes, and fuel for them. -/
def SizesOk (fuel : ℕ) (calls : List IdleCall) : Prop :=
  ∀ call ∈ calls, ∀ count ∈ call.counts, count < 2 ^ 32 ∧ count ≤ fuel

/-- Either path produces what is asked for and is left of the response. -/
theorem serveCall_spec {fuel : ℕ} (call : IdleCall)
    (hcall : ∀ count ∈ call.counts, count < 2 ^ 32 ∧ count ≤ fuel) {n : ℕ} {gfc : GenFileCtx}
    (hgfc : Produced text R n gfc) :
    ∃ gfc', serveCall text fuel gfc call =
        some (gfc', segment text n (min (R - n) call.counts.sum)) ∧
      Produced text R (n + min (R - n) call.counts.sum) gfc' := by
  cases call with
  | idleRead count =>
    obtain ⟨hcount, hfuel⟩ := hcall count (List.mem_singleton.mpr rfl)
    have hsum : (IdleCall.idleRead count).counts.sum = count := by simp [IdleCall.counts]
    rw [hsum]
    exact idleRead_spec htext hR hcount hfuel hgfc
  | preadv counts => exact myInteropPreadv_spec htext hR counts hcall hgfc

/-- Several calls produce what they ask for and is left of the response. -/
theorem serve_spec {fuel : ℕ} (calls : List IdleCall) (hcalls : SizesOk fuel calls) {n : ℕ}
    {gfc : GenFileCtx} (hgfc : Produced text R n gfc) :
    ∃ gfc', serve text fuel gfc calls =
        some (gfc', segment text n (min (R - n) (asked calls))) ∧
      Produced text R (n + min (R - n) (asked calls)) gfc' := by
  induction calls generalizing n gfc with
  | nil => exact ⟨gfc, by simp [serve, asked], by simpa [asked] using hgfc⟩
  | cons call calls ih =>
    obtain ⟨gfc₁, hread, hgfc₁⟩ := serveCall_spec htext hR call
      (hcalls call List.mem_cons_self) hgfc
    obtain ⟨gfc₂, hrest, hgfc₂⟩ := ih (fun c hc => hcalls c (List.mem_cons_of_mem _ hc)) hgfc₁
    obtain ⟨hbytes, hposition⟩ :=
      segment_two_reads text hgfc.le call.counts.sum (asked calls)
    have hasked : asked (call :: calls) = call.counts.sum + asked calls := List.sum_cons
    rw [hasked]
    refine ⟨gfc₂, ?_, hposition ▸ hgfc₂⟩
    rw [serve, hread, Option.bind_eq_bind, Option.bind_some]
    dsimp only
    rw [hrest, ← hbytes]
    rfl

end Calls

/-! ## §3 A whole response -/

/-- A stream with a generated-file response. -/
structure IdleStream where
  gfc : GenFileCtx
  /-- `st_h->req->authority_str`, `none` for NULL. -/
  authorityStr : Option (List UInt8)
  /-- `SH_HEADERS_SENT` -/
  headersSent : Bool
  /-- The content-length in the headers sent. -/
  contentLength : Option ℕ
  /-- The paths that a push was promised for. -/
  pushed : List (List UInt8)
  /-- What lsquic has asked for, and what it got. -/
  asked : ℕ
  produced : List UInt8
  /-- `lsquic_stream_shutdown` and `lsquic_stream_close` were called. -/
  isShut : Bool
  isClosed : Bool

/-- What lsquic does in one `idle_on_write`: whether it takes the headers, and how it reads
    the payload. -/
structure IdleWrite where
  sendOk : Bool
  calls : List IdleCall

/-- The loop over `push_paths`: with an authority each of them is promised. -/
def promisePushes (s : IdleStream) : IdleStream :=
  if s.authorityStr.isSome then
    { s with pushed := s.pushed ++ s.gfc.pushPaths, gfc := { s.gfc with pushPaths := [] } }
  else s

/-- `idle_on_write`; `none` if a read does not end. -/
def idleOnWrite (text : List UInt8) (fuel : ℕ) (s : IdleStream) (w : IdleWrite) :
    Option IdleStream :=
  if s.headersSent then do
    let (gfc, out) ← serve text fuel s.gfc w.calls
    return { s with
      gfc := gfc
      asked := s.asked + asked w.calls
      produced := s.produced ++ out
      isShut := s.isShut || gfc.remain = 0 }
  else
    let s := promisePushes s
    if w.sendOk then some { s with headersSent := true, contentLength := some s.gfc.remain }
    else some { s with isClosed := true }

/-- The stream when `http_server_interop_on_read` has selected a response of `R` bytes. -/
def IdleStream.start (pushPaths : List (List UInt8)) (authorityStr : Option (List UInt8)) (R : ℕ) :
    IdleStream where
  gfc := { pushPaths := pushPaths, remain := R, idleOff := 0 }
  authorityStr := authorityStr
  headersSent := false
  contentLength := none
  pushed := []
  asked := 0
  produced := []
  isShut := false
  isClosed := false

/-- The reads of a sequence of write callbacks: the first one that lsquic takes the headers
    from makes none, nor does any before it. -/
def payloadCalls (headersSent : Bool) : List IdleWrite → List IdleCall
  | [] => []
  | w :: writes =>
    (if headersSent then w.calls else []) ++ payloadCalls (headersSent || w.sendOk) writes

/-- What has become of a response of `R` bytes after these write callbacks. -/
structure PayloadSoFar (text : List UInt8) (R : ℕ) (writes : List IdleWrite) (s : IdleStream) :
    Prop where
  /-- The headers are sent as soon as lsquic takes them. -/
  contentLength : s.contentLength = if writes.any IdleWrite.sendOk then some R else none
  produced : s.produced = segment text 0 (min R (asked (payloadCalls false writes)))
  idleOff_lt : s.gfc.idleOff < text.length
  remain : s.gfc.remain = R - s.produced.length
  /-- The headers precede the payload. -/
  announced : s.produced ≠ [] → s.contentLength.isSome
  complete : ∀ n, s.contentLength = some n → s.gfc.remain = 0 → n = s.produced.length

/-- The invariant of a response. -/
structure Responding (text : List UInt8) (R : ℕ) (s : IdleStream) : Prop where
  produced : s.produced = segment text 0 (min R s.asked)
  position : Produced text R (min R s.asked) s.gfc
  announced : s.contentLength = if s.headersSent then some R else none
  asked_zero : s.headersSent = false → s.asked = 0

/-- The record that a stream keeps, against the write callbacks so far. -/
structure Recorded (writes : List IdleWrite) (s : IdleStream) : Prop where
  headersSent : s.headersSent = writes.any IdleWrite.sendOk
  asked : s.asked = Interop.asked (payloadCalls false writes)

theorem Responding.payloadSoFar {text : List UInt8} (htext : 0 < text.length) {R : ℕ}
    {s : IdleStream} {writes : List IdleWrite} (hs : Responding text R s)
    (hrecorded : Recorded writes s) : PayloadSoFar text R writes s := by
  have hlength : s.produced.length = min R s.asked := by rw [hs.produced, length_segment]
  have hremain := hs.position.remain
  refine ⟨?_, ?_, ?_, by omega, fun hne => ?_, fun n hn hzero => ?_⟩
  · rw [hs.announced, hrecorded.headersSent]
  · rw [hs.produced, hrecorded.asked]
  · rw [hs.position.idleOff]
    exact Nat.mod_lt _ htext
  · rw [hs.announced]
    cases hsent : s.headersSent with
    | true => rfl
    | false =>
      have hnone : s.produced = [] := by rw [hs.produced, hs.asked_zero hsent]; simp
      exact absurd hnone hne
  · rw [hs.announced] at hn
    obtain ⟨-, rfl⟩ : s.headersSent = true ∧ R = n := by simpa using hn
    omega

/-- Promised pushes are no payload. -/
theorem Responding.promisePushes {text : List UInt8} {R : ℕ} {s : IdleStream}
    (hs : Responding text R s) :
    Responding text R (promisePushes s) ∧
      (Interop.promisePushes s).headersSent = s.headersSent := by
  unfold Interop.promisePushes
  split
  · have hposition := hs.position
    exact ⟨⟨hs.produced, ⟨hposition.le, hposition.remain, hposition.idleOff⟩, hs.announced,
      hs.asked_zero⟩, rfl⟩
  · exact ⟨hs, rfl⟩

/-- The first phase: no read is made. -/
theorem idleOnWrite_headers {text : List UInt8} {fuel : ℕ} {s : IdleStream} {w : IdleWrite}
    (h : s.headersSent = false) :
    idleOnWrite text fuel s w = some (
      if w.sendOk then
        { promisePushes s with
          headersSent := true, contentLength := some (promisePushes s).gfc.remain }
      else { promisePushes s with isClosed := true }) := by
  simp only [idleOnWrite, h, Bool.false_eq_true, if_false]
  split_ifs <;> rfl

/-- Every `idle_on_write` ends and keeps the invariant. -/
theorem responding_idleOnWrite {text : List UInt8} (htext : 0 < text.length) {R : ℕ}
    (hR : R ≤ 2 ^ 31) {fuel : ℕ} {s : IdleStream} {w : IdleWrite} (hw : SizesOk fuel w.calls)
    (hs : Responding text R s) :
    ∃ t, idleOnWrite text fuel s w = some t ∧ Responding text R t := by
  cases hsent : s.headersSent with
  | true =>
    obtain ⟨gfc, hserve, hgfc⟩ := serve_spec htext hR w.calls hw hs.position
    have hmore : min R s.asked + min (R - min R s.asked) (asked w.calls) =
        min R (s.asked + asked w.calls) := by omega
    have happend := segment_append text 0 (min R s.asked) (min (R - min R s.asked) (asked w.calls))
    rw [Nat.zero_add, hmore] at happend
    have hannounced := hs.announced
    rw [hsent] at hannounced
    refine ⟨_, by simp only [idleOnWrite, hsent, if_true, hserve]; rfl, ?_, ?_, hannounced, ?_⟩
    · dsimp only
      rw [hs.produced, happend]
    · rwa [← hmore]
    · rintro ⟨⟩
  | false =>
    -- headers, or nothing: no payload yet
    obtain ⟨hpushed, hsame⟩ := hs.promisePushes
    have hnone := hpushed.asked_zero (hsame.trans hsent)
    have hannounced := hpushed.announced
    rw [hsame, hsent] at hannounced
    refine ⟨_, idleOnWrite_headers hsent, ?_⟩
    split_ifs
    · have hremain : (promisePushes s).gfc.remain = R := by
        have := hpushed.position.remain
        omega
      exact ⟨hpushed.produced, hpushed.position, congrArg some hremain, fun _ => hnone⟩
    · refine ⟨hpushed.produced, hpushed.position, ?_, fun _ => hnone⟩
      dsimp only
      rw [hsame, hsent, hannounced]

/-- One more write: it reads exactly if the headers were sent before. -/
theorem payloadCalls_snoc (headersSent : Bool) (writes : List IdleWrite) (w : IdleWrite) :
    payloadCalls headersSent (writes ++ [w]) = payloadCalls headersSent writes ++
      if headersSent || writes.any IdleWrite.sendOk then w.calls else [] := by
  induction writes generalizing headersSent with
  | nil => simp [payloadCalls]
  | cons w' writes ih =>
    rw [List.cons_append, payloadCalls, ih, payloadCalls, List.append_assoc, List.any_cons,
      Bool.or_assoc]

theorem asked_append (calls calls' : List IdleCall) :
    asked (calls ++ calls') = asked calls + asked calls' := by
  rw [asked, List.map_append, List.sum_append]
  rfl

/-- A write callback keeps the record. -/
theorem recorded_idleOnWrite {text : List UInt8} {fuel : ℕ} {writes : List IdleWrite}
    {s t : IdleStream} {w : IdleWrite} (hs : Recorded writes s)
    (h : idleOnWrite text fuel s w = some t) : Recorded (writes ++ [w]) t := by
  cases hsent : s.headersSent with
  | true =>
    simp only [idleOnWrite, hsent, if_true] at h
    obtain ⟨⟨gfc, out⟩, -, ht⟩ := Option.bind_eq_some_iff.mp h
    obtain rfl := Option.some.inj ht
    have hany : writes.any IdleWrite.sendOk = true := hs.headersSent ▸ hsent
    refine ⟨?_, ?_⟩
    · rw [List.any_append, hany, Bool.true_or]
    · rw [payloadCalls_snoc, hany, Bool.or_true, if_pos rfl, asked_append, ← hs.asked]
  | false =>
    rw [idleOnWrite_headers hsent] at h
    obtain rfl := Option.some.inj h
    have hany : writes.any IdleWrite.sendOk = false := hs.headersSent ▸ hsent
    -- the pushes that are promised first change neither field
    have hsame : (promisePushes s).headersSent = s.headersSent ∧
        (promisePushes s).asked = s.asked := by
      unfold promisePushes
      split <;> exact ⟨rfl, rfl⟩
    have hno : payloadCalls false (writes ++ [w]) = payloadCalls false writes := by
      rw [payloadCalls_snoc, hany]
      simp
    cases hok : w.sendOk with
    | true =>
      refine ⟨?_, ?_⟩
      · simp [hany, hok]
      · rw [hno, if_pos rfl, ← hs.asked, ← hsame.2]
    | false =>
      refine ⟨?_, ?_⟩
      · rw [List.any_append, hany]
        simp [hok, hsame.1, hsent]
      · simp only [Bool.false_eq_true, if_false]
        rw [hno, ← hs.asked, ← hsame.2]

theorem mem_payloadCalls {headersSent : Bool} {writes : List IdleWrite} {call : IdleCall}
    (h : call ∈ payloadCalls headersSent writes) : ∃ w ∈ writes, call ∈ w.calls := by
  induction writes generalizing headersSent with
  | nil => cases h
  | cons w writes ih =>
    rcases List.mem_append.mp h with hhead | htail
    · refine ⟨w, List.mem_cons_self, ?_⟩
      cases headersSent with
      | true => exact hhead
      | false => cases hhead
    · obtain ⟨w', hw', hcall⟩ := ih htail
      exact ⟨w', List.mem_cons_of_mem w hw', hcall⟩

/-- **Generated payload is independent of chunking.** For every text, every size of a
    response up to 2^31 and every sequence of write callbacks, each of which reads with any
    buffers of less than 2^32 bytes through either path: every read ends, and the payload is
    what the reads return in a row; it is the beginning of the endless text, as long as the
    reads asked for and the size allows; the offset stays inside the text; and the
    content-length, sent before the first read, is the length of the payload when nothing
    remains. -/
theorem idle_payload (text : List UInt8) (htext : 0 < text.length) (R : ℕ) (hR : R ≤ 2 ^ 31)
    (pushPaths : List (List UInt8)) (authorityStr : Option (List UInt8)) (fuel : ℕ)
    (hfuel : 2 ^ 32 ≤ fuel) (writes : List IdleWrite)
    (hwrites : ∀ w ∈ writes, ∀ call ∈ w.calls, ∀ count ∈ call.counts, count < 2 ^ 32) :
    ∃ t gfc, exec (idleOnWrite text fuel) (IdleStream.start pushPaths authorityStr R) writes =
        some t ∧
      serve text fuel (IdleStream.start pushPaths authorityStr R).gfc (payloadCalls false writes) =
        some (gfc, t.produced) ∧
      PayloadSoFar text R writes t := by
  have hstart : Responding text R (IdleStream.start pushPaths authorityStr R) := by
    refine ⟨by simp [IdleStream.start], ⟨Nat.min_le_left _ _, ?_, ?_⟩, rfl, fun _ => rfl⟩ <;>
      simp [IdleStream.start]
  suffices hrun : ∀ s, Responding text R s →
      ∃ t, exec (idleOnWrite text fuel) s writes = some t ∧ Responding text R t by
    obtain ⟨t, ht, hresponding⟩ := hrun _ hstart
    have hrecorded : Recorded writes t := by
      refine exec_induction ⟨rfl, rfl⟩ ?_ ht
      exact fun writes s w s' _ hs hstep => recorded_idleOnWrite hs hstep
    have hpayload := hresponding.payloadSoFar htext hrecorded
    -- the reads in a row
    have hcalls : SizesOk fuel (payloadCalls false writes) := fun call hcall count hcount => by
      obtain ⟨w, hw, hcall'⟩ := mem_payloadCalls hcall
      have := hwrites w hw call hcall' count hcount
      omega
    have hzero : Produced text R 0 (IdleStream.start pushPaths authorityStr R).gfc :=
      ⟨Nat.zero_le R, rfl, rfl⟩
    obtain ⟨gfc, hserve, -⟩ := serve_spec htext hR _ hcalls hzero
    refine ⟨t, gfc, ht, ?_, hpayload⟩
    rw [hserve, hpayload.produced, Nat.sub_zero]
  clear hstart
  induction writes with
  | nil => exact fun s hs => ⟨s, rfl, hs⟩
  | cons w writes ih =>
    intro s hs
    have hw : SizesOk fuel w.calls := fun call hcall count hcount => by
      have := hwrites w List.mem_cons_self call hcall count hcount
      omega
    obtain ⟨s', hstep, hs'⟩ := responding_idleOnWrite htext hR hw hs
    obtain ⟨t, ht, hresponding⟩ := ih (fun w' hw' => hwrites w' (List.mem_cons_of_mem w hw')) s' hs'
    exact ⟨t, by rw [exec_cons, hstep]; exact ht, hresponding⟩

/-- A response of ten bytes from a text of three, read in pieces through both paths. -/
theorem idle_payload_tenBytes :
    ∃ t gfc, exec (idleOnWrite [1, 2, 3] (2 ^ 32)) (IdleStream.start [] none 10)
        [⟨true, []⟩, ⟨true, [.idleRead 4]⟩, ⟨true, [.preadv [1, 3], .idleRead 100]⟩] = some t ∧
      serve [1, 2, 3] (2 ^ 32) (IdleStream.start [] none 10).gfc
        (payloadCalls false
          [⟨true, []⟩, ⟨true, [.idleRead 4]⟩, ⟨true, [.preadv [1, 3], .idleRead 100]⟩]) =
        some (gfc, t.produced) ∧
      PayloadSoFar [1, 2, 3] 10
        [⟨true, []⟩, ⟨true, [.idleRead 4]⟩, ⟨true, [.preadv [1, 3], .idleRead 100]⟩] t :=
  idle_payload [1, 2, 3] (by decide) 10 (by decide) [] none (2 ^ 32) le_rfl _ (by
    simp [IdleCall.counts])

end Equic.Interop
