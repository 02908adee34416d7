import Equic.Foundation.Runs
import Mathlib.Algebra.Order.Ring.Nat
import Mathlib.Data.List.Flatten

/-!
# File responses in the `-P` mode

`http_server_on_write` hands a file to lsquic through `lsquic_stream_pwritev`, and through
`lsquic_stream_writef` when that takes nothing. Both read the file at `written`, which
moves only after the transfer of a call is complete.

`Sending` ties `written` to the bytes handed to the stream. A call that is served by
`my_preadv` keeps it whatever lsquic takes. A call that falls back to
`pwritev_fallback_read` keeps it only if the reader is asked at most once, for all that is
left of the file: its comparison of `ntoread` with `count` is the wrong way round.
-/

namespace Equic.Filesystem

open Equic.Foundation

/-! ## §1 The file and its two readers -/

/-- A regular file; `st_size` is an `off_t`. -/
structure File where
  content : List UInt8
  size_lt : content.length < 2 ^ 63

/-- `s_pwritev` as `-P` sets it: the cap of one write, negative for no cap. -/
structure Pwritev where
  cap : ℤ
  ne_zero : cap ≠ 0

/-- The settings that `http_server_on_write` reads. -/
structure Config where
  sPwritev : Pwritev
  delayRespSec : ℕ

/-- The stream and the fields of `struct lsquic_stream_ctx` that its writing side uses. -/
structure FileStream where
  /-- `SH_HEADERS_SENT`. -/
  headersSent : Bool
  /-- `SH_DELAYED`. -/
  delayed : Bool
  /-- `resume_resp` is an event. -/
  resumeResp : Bool
  written : ℕ
  fileSize : ℕ
  wantWrite : Bool
  wantRead : Bool
  isShut : Bool
  /-- All bytes that lsquic has taken for this stream. -/
  handed : List UInt8
  deriving DecidableEq, Repr

/-- How a read can fail: it asks for more bytes than its buffer holds, or the arguments of
    `preadv` are out of range. -/
inductive ReadError where
  | overrun (asked count : ℕ)
  | invalid
  deriving DecidableEq, Repr

/-- `st_h->file_size - st_h->written`, a `size_t`. -/
def FileStream.left (s : FileStream) : ℕ := (s.fileSize + 2 ^ 64 - s.written) % 2 ^ 64

/-- `bytes_left`, in the `-P` mode. -/
def bytesLeft (s : FileStream) : ℕ := s.left

/-- `preadv` of `n` bytes at `offset`. Offsets and sizes are signed. -/
def preadv (file : File) (offset n : ℕ) : Except ReadError (List UInt8) :=
  if offset < 2 ^ 63 ∧ n < 2 ^ 63 then .ok ((file.content.drop offset).take n)
  else .error .invalid

/-- `my_preadv` into buffers of the sizes `iov`. -/
def myPreadv (file : File) (s : FileStream) (iov : List ℕ) : Except ReadError (List UInt8) :=
  preadv file s.written iov.sum

/-- `pwritev_fallback_read` into a buffer of `count` bytes. -/
def pwritevFallbackRead (file : File) (s : FileStream) (count : ℕ) :
    Except ReadError (List UInt8) :=
  let ntoread := s.left
  let asked := if ntoread > count then ntoread else count
  if asked > count then .error (.overrun asked count) else myPreadv file s [asked]

/-- `pwritev_fallback_size`. -/
def pwritevFallbackSize (s : FileStream) : ℕ := s.left

/-! ## §2 One call of `http_server_on_write` -/

/-- What the libraries do in one call. -/
structure WriteCall where
  /-- `event_new` returns an event. -/
  eventNew : Bool
  /-- The buffers that `lsquic_stream_pwritev` has filled, none if it takes nothing. -/
  iov : List ℕ
  /-- The buffers that `lsquic_stream_writef` has filled, one call of the reader each. -/
  counts : List ℕ
  deriving DecidableEq, Repr

/-- `to_write`. -/
def toWrite (cfg : Config) (s : FileStream) : ℕ :=
  if cfg.sPwritev.cap > 0 ∧ cfg.sPwritev.cap.toNat < bytesLeft s then cfg.sPwritev.cap.toNat
  else bytesLeft s

/-- `lsquic_stream_pwritev`, which need not call `my_preadv`. -/
def streamPwritev (file : File) (s : FileStream) (iov : List ℕ) :
    Except ReadError (List UInt8) :=
  if iov.sum = 0 then .ok [] else myPreadv file s iov

/-- `lsquic_stream_writef` with the fallback reader. -/
def streamWritef (file : File) (s : FileStream) : List ℕ → Except ReadError (List UInt8)
  | [] => .ok []
  | count :: counts => do
    let bytes ← pwritevFallbackRead file s count
    let more ← streamWritef file s counts
    return bytes ++ more

/-- The bytes that change hands in one call. -/
def transfer (file : File) (w : WriteCall) (s : FileStream) : Except ReadError (List UInt8) := do
  let bytes ← streamPwritev file s w.iov
  if bytes.length = 0 then streamWritef file s w.counts else return bytes

/-- The response is put off for `delay_resp_sec` seconds, once. -/
def delays (cfg : Config) (w : WriteCall) (s : FileStream) : Bool :=
  cfg.delayRespSec ≠ 0 && !s.delayed && s.written > 10000000 && w.eventNew

/-- Both sides of `bytes_left(st_h) > 0` after a transfer of `nw` bytes. -/
def afterWrite (nw : ℕ) (s : FileStream) : FileStream :=
  if bytesLeft s > 0 then { s with written := (s.written + nw) % 2 ^ 64, wantWrite := true }
  else { s with isShut := true, wantRead := true }

theorem afterWrite_handed (nw : ℕ) (s : FileStream) : (afterWrite nw s).handed = s.handed := by
  unfold afterWrite
  split <;> rfl

/-- `http_server_on_write`. -/
def httpServerOnWrite (cfg : Config) (file : File) (w : WriteCall) (s : FileStream) :
    Except ReadError FileStream :=
  if s.headersSent then
    if bytesLeft s > 0 then
      if delays cfg w s then
        .ok { s with resumeResp := true, wantWrite := false, delayed := true }
      else do
        let bytes ← transfer file w s
        return afterWrite bytes.length { s with handed := s.handed ++ bytes }
    else .ok { s with isShut := true, wantRead := true }
  else
    -- `send_headers`
    .ok { s with headersSent := true }

/-- `resume_response`. -/
def resumeResponse (s : FileStream) : FileStream :=
  { s with wantWrite := true, resumeResp := false }

/-- The writing side after `process_request`: the file is open and `fstat` has its size. -/
def processRequest (file : File) (wantRead : Bool) : FileStream where
  headersSent := false
  delayed := false
  resumeResp := false
  written := 0
  fileSize := file.content.length
  wantWrite := true
  wantRead := wantRead
  isShut := false
  handed := []

/-! ## §3 Runs -/

/-- What the event loop calls. -/
inductive FileEvent where
  | onWrite (w : WriteCall)
  | resumeResponse
  deriving DecidableEq, Repr

/-- One callback. lsquic calls `on_write` while the stream wants it and is not shut down, and
    takes no more than it is offered. A write error ends the run, an overrun is kept as a
    state. -/
def fileStep (cfg : Config) (file : File) :
    Except ReadError FileStream → FileEvent → Option (Except ReadError FileStream)
  | .error _, _ => none
  | .ok s, .onWrite w =>
    if s.wantWrite && !s.isShut && w.iov.sum ≤ toWrite cfg s then
      match httpServerOnWrite cfg file w s with
      | .error .invalid => none
      | r => some r
    else none
  | .ok s, .resumeResponse => if s.resumeResp then some (.ok (resumeResponse s)) else none

/-- No read has left its buffer, and the stream carries the beginning of the file, or all of
    it once it is shut down. -/
def CarriesFile (file : File) (x : Except ReadError FileStream) : Prop :=
  ∃ s, x = .ok s ∧ s.handed <+: file.content ∧ (s.isShut = true → s.handed = file.content)

/-- The call gets as far as `lsquic_stream_writef`. -/
def FallsBack (cfg : Config) (w : WriteCall) (s : FileStream) : Prop :=
  s.headersSent = true ∧ 0 < bytesLeft s ∧ delays cfg w s = false ∧ w.iov.sum = 0

/-- The reader is asked at most once, with room for all that is left. -/
def AskedOnce (s : FileStream) (counts : List ℕ) : Prop :=
  counts.length ≤ 1 ∧ ∀ count ∈ counts, bytesLeft s ≤ count

/-- A call that falls back asks its reader at most once, with room for all that is left. -/
def FallbackFits (cfg : Config) : Except ReadError FileStream → FileEvent → Prop
  | .ok s, .onWrite w => FallsBack cfg w s → AskedOnce s w.counts
  | _, _ => True

/-- With buffers no larger than `pwritev_fallback_size` reports, this means one buffer of
    exactly that size. -/
theorem askedOnce_iff_of_le_size {s : FileStream} {counts : List ℕ}
    (h : ∀ count ∈ counts, count ≤ pwritevFallbackSize s) :
    AskedOnce s counts ↔ counts = [] ∨ counts = [pwritevFallbackSize s] := by
  have hsize : bytesLeft s = pwritevFallbackSize s := rfl
  rw [AskedOnce, hsize]
  constructor
  · rintro ⟨hlen, hall⟩
    cases counts with
    | nil => exact .inl rfl
    | cons count counts =>
      have hnone : counts.length = 0 := Nat.le_zero.mp (Nat.le_of_succ_le_succ hlen)
      obtain rfl := List.length_eq_zero_iff.mp hnone
      have hge := hall count List.mem_cons_self
      have hle := h count List.mem_cons_self
      exact .inr (congrArg (· :: []) (le_antisymm hle hge))
  · rintro (rfl | rfl)
    · exact ⟨Nat.zero_le 1, by simp⟩
    · exact ⟨le_rfl, by simp⟩

/-! ## §4 The readers -/

/-- Of the file the first `written` bytes have been handed over. -/
structure Sending (file : File) (s : FileStream) : Prop where
  fileSize : s.fileSize = file.content.length
  written_le : s.written ≤ file.content.length
  handed : s.handed = file.content.take s.written
  shut : s.isShut = true → s.written = file.content.length

theorem toWrite_le (cfg : Config) (s : FileStream) : toWrite cfg s ≤ bytesLeft s := by
  unfold toWrite
  split
  · rename_i hcap
    exact hcap.2.le
  · exact le_rfl

section Calls

variable {cfg : Config} {file : File} {s : FileStream}

/-- The rest of the file, which every reader starts from. -/
def FileStream.rest (file : File) (s : FileStream) : List UInt8 := file.content.drop s.written

theorem Sending.bytesLeft_eq (h : Sending file s) :
    bytesLeft s = file.content.length - s.written := by
  have hsize := file.size_lt
  have hle := h.written_le
  rw [bytesLeft, FileStream.left, h.fileSize]
  omega

theorem Sending.length_rest (h : Sending file s) : (s.rest file).length = bytesLeft s := by
  rw [FileStream.rest, List.length_drop, h.bytesLeft_eq]

theorem Sending.content (h : Sending file s) : s.handed ++ s.rest file = file.content := by
  rw [h.handed, FileStream.rest, List.take_append_drop]

theorem Sending.carriesFile (h : Sending file s) : CarriesFile file (.ok s) := by
  refine ⟨s, rfl, ?_, fun hshut => ?_⟩
  · rw [h.handed]
    exact List.take_prefix _ _
  · rw [h.handed, h.shut hshut, List.take_length]

/-- Within the file `my_preadv` reads on from `written`. -/
theorem Sending.myPreadv_eq (h : Sending file s) {iov : List ℕ} (hiov : iov.sum < 2 ^ 63) :
    myPreadv file s iov = .ok ((s.rest file).take iov.sum) := by
  have hoff : s.written < 2 ^ 63 := h.written_le.trans_lt file.size_lt
  rw [myPreadv, preadv, if_pos ⟨hoff, hiov⟩, FileStream.rest]

/-- A buffer that is too small is overrun. Any other gets the whole rest of the file, unless
    its size is out of range. -/
theorem Sending.fallbackRead_cases (h : Sending file s) (count : ℕ) :
    (count < bytesLeft s ∧
      pwritevFallbackRead file s count = .error (.overrun (bytesLeft s) count)) ∨
    (bytesLeft s ≤ count ∧ (pwritevFallbackRead file s count = .ok (s.rest file) ∨
      pwritevFallbackRead file s count = .error .invalid)) := by
  by_cases hcount : count < bytesLeft s
  · refine .inl ⟨hcount, ?_⟩
    have hgt : s.left > count := hcount
    simp only [pwritevFallbackRead, if_pos hgt, bytesLeft]
  · have hle : bytesLeft s ≤ count := Nat.le_of_not_lt hcount
    have hngt : ¬ s.left > count := hcount
    have hread : pwritevFallbackRead file s count = myPreadv file s [count] := by
      simp only [pwritevFallbackRead, if_neg hngt, gt_iff_lt, lt_irrefl, if_false]
    refine .inr ⟨hle, ?_⟩
    rw [hread]
    by_cases hbig : count < 2 ^ 63
    · apply Or.inl
      have hsum : [count].sum < 2 ^ 63 := by simpa using hbig
      have hall : (s.rest file).length ≤ [count].sum := by
        rw [h.length_rest]
        simpa using hle
      rw [h.myPreadv_eq hsum, List.take_of_length_le hall]
    · apply Or.inr
      rw [myPreadv, preadv, if_neg]
      simpa using fun _ => Nat.le_of_not_lt hbig

/-- The reader starts over in every call: what `lsquic_stream_writef` gets is the rest of the
    file once for each buffer. -/
theorem Sending.streamWritef_cases (h : Sending file s) (counts : List ℕ) :
    (streamWritef file s counts = .ok (List.replicate counts.length (s.rest file)).flatten ∧
      ∀ count ∈ counts, bytesLeft s ≤ count) ∨
    (∃ asked count, streamWritef file s counts = .error (.overrun asked count) ∧
      ¬ ∀ count ∈ counts, bytesLeft s ≤ count) ∨
    streamWritef file s counts = .error .invalid := by
  induction counts with
  | nil => exact .inl ⟨rfl, by simp⟩
  | cons count counts ih =>
    obtain ⟨hlt, hread⟩ | ⟨hle, hread | hread⟩ := h.fallbackRead_cases count
    · refine .inr (.inl ⟨bytesLeft s, count, ?_, fun hall => ?_⟩)
      · simp only [streamWritef, hread]
        rfl
      · exact absurd (hall count List.mem_cons_self) (Nat.not_le_of_lt hlt)
    · obtain ⟨hmore, hall⟩ | ⟨asked, small, hmore, hall⟩ | hmore := ih
      · refine .inl ⟨?_, ?_⟩
        · simp only [streamWritef, hread, hmore]
          rfl
        · simpa [hle] using hall
      · refine .inr (.inl ⟨asked, small, ?_, fun hall' => hall fun c hc => ?_⟩)
        · simp only [streamWritef, hread, hmore]
          rfl
        · exact hall' c (List.mem_cons_of_mem count hc)
      · refine .inr (.inr ?_)
        simp only [streamWritef, hread, hmore]
        rfl
    · refine .inr (.inr ?_)
      simp only [streamWritef, hread]
      rfl

/-! ## §5 One call -/

/-- Handing over bytes that are next in the file. -/
theorem Sending.afterWrite (h : Sending file s) (hleft : 0 < bytesLeft s) {bytes : List UInt8}
    (hbytes : bytes <+: s.rest file) :
    Sending file (afterWrite bytes.length { s with handed := s.handed ++ bytes }) := by
  have hsize := file.size_lt
  have hle := h.written_le
  have hlen : bytes.length ≤ bytesLeft s := h.length_rest ▸ hbytes.length_le
  rw [h.bytesLeft_eq] at hlen
  have hwrap : (s.written + bytes.length) % 2 ^ 64 = s.written + bytes.length :=
    Nat.mod_eq_of_lt (by omega)
  -- `written` has not moved yet
  have hmore : bytesLeft { s with handed := s.handed ++ bytes } > 0 := hleft
  rw [Filesystem.afterWrite, if_pos hmore]
  refine ⟨h.fileSize, ?_, ?_, fun hshut => ?_⟩
  · dsimp only
    omega
  · dsimp only
    rw [hwrap, List.take_add, ← h.handed]
    exact congrArg (s.handed ++ ·) (List.prefix_iff_eq_take.mp hbytes)
  · have hwritten := h.shut hshut
    rw [h.bytesLeft_eq] at hleft
    omega

/-- A call through `my_preadv` gets as much of the rest as lsquic has buffers for. -/
theorem Sending.transfer_preadv (h : Sending file s) {w : WriteCall}
    (hiov : w.iov.sum ≤ bytesLeft s) (hsome : w.iov.sum ≠ 0) :
    transfer file w s = .ok ((s.rest file).take w.iov.sum) := by
  have hsize := file.size_lt
  have hsmall : w.iov.sum < 2 ^ 63 := by
    rw [h.bytesLeft_eq] at hiov
    omega
  have hlen : ((s.rest file).take w.iov.sum).length ≠ 0 := by
    rw [List.length_take, h.length_rest]
    omega
  rw [transfer, streamPwritev, if_neg hsome, h.myPreadv_eq hsmall]
  exact if_neg hlen

theorem transfer_fallback {w : WriteCall} (hnone : w.iov.sum = 0) :
    transfer file w s = streamWritef file s w.counts := by
  rw [transfer, streamPwritev, if_pos hnone]
  rfl

theorem httpServerOnWrite_transfer {w : WriteCall} (hheaders : s.headersSent = true)
    (hleft : 0 < bytesLeft s) (hdelay : delays cfg w s = false) :
    httpServerOnWrite cfg file w s = (transfer file w s).map fun bytes =>
      afterWrite bytes.length { s with handed := s.handed ++ bytes } := by
  rw [httpServerOnWrite, if_pos hheaders, if_pos hleft, if_neg (by simp [hdelay])]
  cases transfer file w s <;> rfl

/-- The rest of the file cannot be handed over twice. -/
theorem Sending.not_twice (h : Sending file s) (hleft : 0 < bytesLeft s) {k : ℕ} (hk : 1 < k) :
    ¬ s.handed ++ (List.replicate k (s.rest file)).flatten <+: file.content := by
  intro hprefix
  have hlen := hprefix.length_le
  have htwice : 2 * bytesLeft s ≤ k * bytesLeft s := Nat.mul_le_mul_right _ hk
  have hcontent := congrArg List.length h.content
  simp only [List.length_append, List.length_flatten, List.map_replicate,
    List.sum_replicate_nat, h.length_rest] at hlen hcontent
  omega

/-- A call that does not fall back reads on in the file. -/
theorem Sending.onWrite (h : Sending file s) {w : WriteCall} (hiov : w.iov.sum ≤ bytesLeft s)
    (hback : ¬ FallsBack cfg w s) :
    ∃ s', httpServerOnWrite cfg file w s = .ok s' ∧ Sending file s' := by
  by_cases hheaders : s.headersSent = true
  · by_cases hleft : 0 < bytesLeft s
    · cases hdelay : delays cfg w s with
      | true =>
        refine ⟨{ s with resumeResp := true, wantWrite := false, delayed := true }, ?_,
          ⟨h.fileSize, h.written_le, h.handed, h.shut⟩⟩
        rw [httpServerOnWrite, if_pos hheaders, if_pos hleft, if_pos hdelay]
      | false =>
        have hsome : w.iov.sum ≠ 0 := fun hnone => hback ⟨hheaders, hleft, hdelay, hnone⟩
        refine ⟨_, ?_, h.afterWrite hleft (List.take_prefix w.iov.sum _)⟩
        rw [httpServerOnWrite_transfer hheaders hleft hdelay,
          h.transfer_preadv hiov hsome]
        rfl
    · -- the whole file is out
      refine ⟨{ s with isShut := true, wantRead := true }, ?_,
        ⟨h.fileSize, h.written_le, h.handed, fun _ => ?_⟩⟩
      · rw [httpServerOnWrite, if_pos hheaders, if_neg hleft]
      · have hle := h.written_le
        rw [h.bytesLeft_eq] at hleft
        dsimp only
        omega
  · refine ⟨{ s with headersSent := true }, ?_, ⟨h.fileSize, h.written_le, h.handed, h.shut⟩⟩
    rw [httpServerOnWrite, if_neg hheaders]

/-- A call that falls back keeps the stream sending exactly if it asks the reader once. -/
theorem Sending.onWrite_fallback (h : Sending file s) {w : WriteCall}
    (hback : FallsBack cfg w s) :
    httpServerOnWrite cfg file w s = .error .invalid ∨
    (AskedOnce s w.counts ∧ ∃ s', httpServerOnWrite cfg file w s = .ok s' ∧ Sending file s') ∨
    (¬ AskedOnce s w.counts ∧ ¬ CarriesFile file (httpServerOnWrite cfg file w s)) := by
  obtain ⟨hheaders, hleft, hdelay, hnone⟩ := hback
  rw [httpServerOnWrite_transfer hheaders hleft hdelay, transfer_fallback hnone]
  obtain ⟨hbytes, hall⟩ | ⟨asked, count, hover, hall⟩ | hinvalid := h.streamWritef_cases w.counts
  · rw [hbytes]
    by_cases hone : w.counts.length ≤ 1
    · refine .inr (.inl ⟨⟨hone, hall⟩, _, rfl, h.afterWrite hleft ?_⟩)
      cases hk : w.counts.length with
      | zero => exact List.nil_prefix
      | succ k =>
        obtain rfl : k = 0 := by omega
        simp
    · refine .inr (.inr ⟨fun hfits => hone hfits.1, ?_⟩)
      rintro ⟨s', hs', hprefix, -⟩
      apply h.not_twice hleft (Nat.lt_of_not_le hone)
      have hhanded : s'.handed =
          s.handed ++ (List.replicate w.counts.length (s.rest file)).flatten := by
        rw [← Except.ok.inj hs']
        exact afterWrite_handed _ _
      rw [← hhanded]
      exact hprefix
  · refine .inr (.inr ⟨fun hfits => hall hfits.2, ?_⟩)
    rw [hover]
    rintro ⟨s', hs', -⟩
    cases hs'
  · rw [hinvalid]
    exact .inl rfl

/-- Everything one callback can do to a stream that is sending. -/
theorem Sending.step_cases (h : Sending file s) {e : FileEvent}
    {y : Except ReadError FileStream} (hstep : fileStep cfg file (.ok s) e = some y) :
    (FallbackFits cfg (.ok s) e ∧ ∃ s', y = .ok s' ∧ Sending file s') ∨
    (¬ FallbackFits cfg (.ok s) e ∧ ¬ CarriesFile file y) := by
  cases e with
  | resumeResponse =>
    simp only [fileStep, Option.ite_none_right_eq_some, Option.some.injEq] at hstep
    refine .inl ⟨trivial, _, hstep.2.symm, ⟨h.fileSize, h.written_le, h.handed, h.shut⟩⟩
  | onWrite w =>
    simp only [fileStep, Option.ite_none_right_eq_some, Bool.and_eq_true,
      decide_eq_true_eq] at hstep
    obtain ⟨⟨-, hoffer⟩, hy⟩ := hstep
    have hiov : w.iov.sum ≤ bytesLeft s := hoffer.trans (toWrite_le cfg s)
    by_cases hback : FallsBack cfg w s
    · obtain hinvalid | ⟨hfits, s', hs', hnext⟩ | ⟨hfits, hbad⟩ := h.onWrite_fallback hback
      · -- a write error
        rw [hinvalid] at hy
        cases hy
      · rw [hs'] at hy
        exact .inl ⟨fun _ => hfits, s', (Option.some.inj hy).symm, hnext⟩
      · refine .inr ⟨fun hall => hfits (hall hback), ?_⟩
        cases hresult : httpServerOnWrite cfg file w s with
        | ok s' =>
          rw [hresult] at hy hbad
          rwa [← Option.some.inj hy]
        | error error =>
          rintro ⟨s', rfl, -⟩
          rw [hresult] at hy
          cases error <;> cases hy
    · obtain ⟨s', hs', hnext⟩ := h.onWrite hiov hback
      rw [hs'] at hy
      exact .inl ⟨fun hfalls => absurd hfalls hback, s', (Option.some.inj hy).symm, hnext⟩

end Calls

/-! ## §6 Whole responses -/

theorem sending_processRequest (file : File) (wantRead : Bool) :
    Sending file (processRequest file wantRead) where
  fileSize := rfl
  written_le := Nat.zero_le _
  handed := rfl
  shut := by rintro ⟨⟩

/-- **A response carries the file precisely when every call that falls back asks for all that
    is left of the file, at most once**, for every file, every cap and everything lsquic can
    take. -/
theorem carriesFile_iff_fallbackFits (cfg : Config) (file : File) (wantRead : Bool)
    (es : List FileEvent) :
    StatesAlong (fileStep cfg file) (CarriesFile file) (.ok (processRequest file wantRead)) es ↔
      StepsAlong (fileStep cfg file) (FallbackFits cfg) (.ok (processRequest file wantRead))
        es := by
  have hinitial := sending_processRequest file wantRead
  apply statesAlong_iff_stepsAlong_of_kept (I := fun x => ∃ s, x = .ok s ∧ Sending file s)
    (E := fun _ => True)
  · rintro _ e y - ⟨s, rfl, hsending⟩ - hstep hy
    obtain ⟨-, hnext⟩ | ⟨-, hbad⟩ := hsending.step_cases hstep
    · exact hnext
    · exact absurd hy hbad
  · rintro _ e y - ⟨s, rfl, hsending⟩ - hstep
    obtain ⟨hfits, s', rfl, hnext⟩ | ⟨hnot, hbad⟩ := hsending.step_cases hstep
    · exact iff_of_true hnext.carriesFile hfits
    · exact iff_of_false hbad hnot
  · exact ⟨_, rfl, hinitial⟩
  · exact hinitial.carriesFile
  · exact fun _ _ => trivial

/-- No cap and no delay. -/
def Config.noCap : Config where
  sPwritev := { cap := -1, ne_zero := by decide }
  delayRespSec := 0

/-- "abc". -/
def File.abc : File where
  content := [97, 98, 99]
  size_lt :=
    Nat.lt_two_pow_self.trans_le (Nat.pow_le_pow_right Nat.two_pos (Nat.le_add_left 3 60))

/-- `lsquic_stream_pwritev` takes nothing, and the reader is asked for `counts` instead. -/
def fallbackRun (counts : List ℕ) : List FileEvent :=
  [.onWrite { eventNew := false, iov := [], counts := [] },
    .onWrite { eventNew := false, iov := [], counts := counts }]

/-- Asked for two bytes of "abc" the reader writes three; asked twice for all of it, it hands
    over "abcabc". -/
theorem fallbackRun_not_carriesFile :
    (¬ StatesAlong (fileStep .noCap .abc) (CarriesFile .abc) (.ok (processRequest .abc false))
      (fallbackRun [2])) ∧
    ¬ StatesAlong (fileStep .noCap .abc) (CarriesFile .abc) (.ok (processRequest .abc false))
      (fallbackRun [3, 3]) := by
  constructor
  · intro h
    obtain ⟨s, hs, -⟩ := h.last (t := .error (.overrun 3 2)) (by decide +kernel)
    cases hs
  · intro h
    obtain ⟨s, hs, hinitial, -⟩ := h.get_exec (by decide +kernel)
    have hlast : ((exec (fileStep .noCap .abc) (.ok (processRequest .abc false))
        (fallbackRun [3, 3])).get (by decide +kernel)).toOption.map FileStream.handed =
        some [97, 98, 99, 97, 98, 99] := by decide +kernel
    rw [hs] at hlast
    rw [Option.some.inj hlast] at hinitial
    exact absurd hinitial (by decide)

end Equic.Filesystem
