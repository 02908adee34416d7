import Equic.Foundation.Runs
import Mathlib.Data.List.DropRight
import Mathlib.Data.List.Nodup
import Mathlib.Data.List.Sigma

/-!
# The line buffer of the echo server

`echo_server_on_read` collects a line byte by byte in a buffer of 256 bytes, and
`echo_server_on_write` sends it back. The two switch read and write interest back and
forth, so that one line is in the buffer at a time.

The schedule of the callbacks and the number of bytes that each `lsquic_stream_write`
accepts are the environment's. A write that accepts fewer bytes than it was offered is
not noticed: the callback empties the buffer all the same. §4 says that this is the only
way in which bytes get lost, and that nothing is ever written outside the buffer.
-/

namespace Equic.Echo

open Equic.Foundation

/-! ## §1 The two callbacks -/

/-- A byte of the client's stream and its position there. The code does not see the
    position; it tells a byte that is skipped from another one of the same value. -/
abbrev StreamByte := UInt8 × ℕ

/-- `'\n'` -/
def newline : UInt8 := 10

/-- `sizeof(st_h->buf)` -/
def sizeofBuf : ℕ := 0x100

theorem sizeofBuf_pos : 0 < sizeofBuf := by decide

/-- `struct lsquic_stream_ctx` -/
structure StreamCtx where
  buf : Vector StreamByte sizeofBuf
  bufOff : ℕ

/-- The bytes that the next write offers. -/
def StreamCtx.pending (st : StreamCtx) : List StreamByte := st.buf.toList.take st.bufOff

/-- A stream with its context, and what has gone through it. -/
structure EchoStream where
  stH : StreamCtx
  wantRead : Bool
  wantWrite : Bool
  /-- `lsquic_stream_shutdown` has not been called. -/
  isOpen : Bool
  /-- What the client has sent and the server has not read. -/
  unread : List StreamByte
  received : List StreamByte
  /-- What the stream has accepted from the server. -/
  accepted : List StreamByte

/-- A write outside `buf`. -/
inductive Overrun where
  | outside (off : ℕ)

/-- `echo_server_on_read`. A read returns the next byte, and nothing at the end of the
    client's stream. -/
def echoServerOnRead (s : EchoStream) : Except Overrun EchoStream :=
  let off := s.stH.bufOff
  let bufOff := off + 1
  match s.unread with
  | [] =>
    -- EOF: the stream is shut down and the connection closed
    .ok { s with stH := { s.stH with bufOff := bufOff }, isOpen := false }
  | b :: unread =>
    if hoff : off < sizeofBuf then
      let stH : StreamCtx := { buf := s.stH.buf.set off b hoff, bufOff := bufOff }
      let s := { s with stH := stH, unread := unread, received := s.received ++ [b] }
      if stH.buf[off].1 = newline then
        .ok { s with wantWrite := true, wantRead := false }
      else if stH.bufOff = sizeofBuf then
        -- line too long
        .ok { s with isOpen := false }
      else .ok s
    else .error (.outside off)

/-- `echo_server_on_write`, of which the stream accepts `nw` bytes. -/
def echoServerOnWrite (nw : ℕ) (s : EchoStream) : EchoStream :=
  { s with
    accepted := s.accepted ++ s.stH.pending.take nw
    stH := { s.stH with bufOff := 0 }
    wantWrite := false
    wantRead := true }

/-! ## §2 Schedules -/

/-- What lsquic calls, and how much it accepts. -/
inductive LineEvent where
  | onRead
  | onWrite (nw : ℕ)
  deriving DecidableEq, Repr

/-- One callback, on an open stream that wants it. -/
def lineStep : Except Overrun EchoStream → LineEvent → Option (Except Overrun EchoStream)
  | .error _, _ => none
  | .ok s, .onRead => if s.isOpen && s.wantRead then some (echoServerOnRead s) else none
  | .ok s, .onWrite nw =>
    if s.isOpen && s.wantWrite && nw ≤ s.stH.bufOff then some (.ok (echoServerOnWrite nw s))
    else none

/-- `echo_server_on_new_stream`, for a client that is going to send `client`. The buffer
    holds whatever `malloc` returned. -/
def EchoStream.initial (buf : Vector StreamByte sizeofBuf) (client : List UInt8) : EchoStream where
  stH := { buf := buf, bufOff := 0 }
  wantRead := true
  wantWrite := false
  isOpen := true
  unread := client.zipIdx
  received := []
  accepted := []

/-- The complete lines of a stream: everything up to the last newline. -/
def completeLines (bytes : List StreamByte) : List StreamByte :=
  bytes.rdropWhile fun b => b.1 ≠ newline

/-- Every line of a stream fits the buffer, newline included. -/
def LinesFit (client : List UInt8) : Prop :=
  ∀ line ∈ client.splitOnP (· = newline), line.length < sizeofBuf

instance (client : List UInt8) : Decidable (LinesFit client) :=
  inferInstanceAs (Decidable (∀ line ∈ _, _))

/-- A record of whether a write has been cut short so far. -/
def recordShort (short : Bool) : Except Overrun EchoStream → LineEvent → Bool
  | .ok s, .onWrite nw => short || decide (nw < s.stH.bufOff)
  | _, _ => short

/-- The schedule, annotated with `recordShort`. -/
abbrev lineRun : Except Overrun EchoStream × Bool → LineEvent →
    Option (Except Overrun EchoStream × Bool) :=
  annotate lineStep recordShort

/-- The record does not change what happens. -/
theorem exec_lineRun (x : Except Overrun EchoStream × Bool) (es : List LineEvent) :
    (exec lineRun x es).map Prod.fst = exec lineStep x.1 es := exec_annotate _ x es

/-- The buffer is intact, and what the stream has accepted is the beginning of the complete
    lines, without a byte skipped or repeated. -/
def EchoesLines (client : List UInt8) (x : Except Overrun EchoStream × Bool) : Prop :=
  ∃ s, x.1 = .ok s ∧ s.stH.bufOff ≤ sizeofBuf ∧ s.accepted <+: completeLines client.zipIdx

/-- Once a write has been cut short, writes accept nothing. -/
def SilentAfterShort (x : Except Overrun EchoStream × Bool) (e : LineEvent) : Prop :=
  ∀ nw, e = .onWrite nw → x.2 = true → nw = 0

/-! ## §3 Lines and prefixes -/

/-- Empty, or ending in a newline. -/
def Terminated (l : List StreamByte) : Prop :=
  l = [] ∨ ∃ l' b, l = l' ++ [b] ∧ b.1 = newline

/-- The complete lines of a stream contain all of its beginnings that end in a newline. -/
theorem prefix_completeLines {l bytes : List StreamByte} (h : Terminated l) (hl : l <+: bytes) :
    l <+: completeLines bytes := by
  obtain rfl | ⟨l', b, rfl, hb⟩ := h
  · exact List.nil_prefix
  · obtain ⟨t, rfl⟩ := hl
    -- drop the rest of the stream from its end
    induction t using List.reverseRecOn with
    | nil =>
      rw [List.append_nil, completeLines, List.rdropWhile_concat_neg _ _ _ (by simpa using hb)]
    | append_singleton t x ih =>
      rw [completeLines, ← List.append_assoc, List.rdropWhile_concat]
      split
      · exact ih
      · rw [List.append_assoc]
        exact List.prefix_append _ _

theorem completeLines_isPrefix (bytes : List StreamByte) : completeLines bytes <+: bytes :=
  List.rdropWhile_prefix _ _

/-- In a list without repetition an element of a prefix stands where it stands in the
    list. -/
theorem length_eq_of_prefix {α : Type*} {l p r q t : List α} {x : α} (hl : l.Nodup)
    (h : p ++ x :: r <+: l) (h' : q ++ x :: t <+: l) : p.length = q.length := by
  have hget : ∀ {a b : List α}, a ++ x :: b <+: l → l[a.length]? = some x := by
    rintro a b ⟨c, rfl⟩
    simp
  obtain ⟨hp, hpx⟩ := List.getElem?_eq_some_iff.mp (hget h)
  obtain ⟨hq, hqx⟩ := List.getElem?_eq_some_iff.mp (hget h')
  exact (hl.getElem_inj_iff).mp (hpx.trans hqx.symm)

theorem nodup_zipIdx (client : List UInt8) : client.zipIdx.Nodup :=
  (List.nodup_zipIdx_map_snd client).of_map

/-! ## §4 One callback -/

/-- An open stream of which the lines `echoed` have been sent back, or cut short. -/
structure Echoing (client : List UInt8) (short : Bool) (s : EchoStream)
    (echoed : List StreamByte) : Prop where
  received : s.received = echoed ++ s.stH.pending
  stream : s.received ++ s.unread = client.zipIdx
  off_le : s.stH.bufOff ≤ sizeofBuf
  terminated : Terminated echoed
  /-- The stream waits for a byte and has room for it, or for a line to be written. -/
  mode : (s.wantRead = true ∧ s.wantWrite = false ∧ s.stH.bufOff < sizeofBuf) ∨
    (s.wantRead = false ∧ s.wantWrite = true ∧ Terminated s.received)
  accepted : if short then s.accepted <+: echoed ∧ s.accepted.length < echoed.length
    else s.accepted = echoed

section Callbacks

variable {client : List UInt8} {short : Bool} {s : EchoStream} {echoed : List StreamByte}

theorem Echoing.accepted_prefix (h : Echoing client short s echoed) : s.accepted <+: echoed := by
  have haccepted := h.accepted
  split at haccepted
  · exact haccepted.1
  · rw [haccepted]

theorem Echoing.echoed_prefix (h : Echoing client short s echoed) : echoed <+: client.zipIdx := by
  rw [← h.stream, h.received, List.append_assoc]
  exact List.prefix_append _ _

theorem Echoing.accepted_completeLines (h : Echoing client short s echoed) :
    s.accepted <+: completeLines client.zipIdx :=
  h.accepted_prefix.trans (prefix_completeLines h.terminated h.echoed_prefix)

/-- Storing a byte behind the pending ones makes it pending. -/
theorem pending_set {st : StreamCtx} (b : StreamByte) (h : st.bufOff < sizeofBuf) :
    (StreamCtx.mk (st.buf.set st.bufOff b h) (st.bufOff + 1)).pending = st.pending ++ [b] := by
  have hlen : st.bufOff < (st.buf.toList.set st.bufOff b).length := by simpa using h
  simp only [StreamCtx.pending, Vector.toList_set]
  rw [List.take_succ_eq_append_getElem hlen, List.take_set_of_le le_rfl, List.getElem_set_self]

/-- The stream with one more byte in its buffer. -/
def EchoStream.store (s : EchoStream) (b : StreamByte) (unread : List StreamByte)
    (hoff : s.stH.bufOff < sizeofBuf) : EchoStream :=
  { s with
    stH := { buf := s.stH.buf.set s.stH.bufOff b hoff, bufOff := s.stH.bufOff + 1 }
    unread := unread
    received := s.received ++ [b] }

theorem echoServerOnRead_nil (hunread : s.unread = []) :
    echoServerOnRead s =
      .ok { s with stH := { s.stH with bufOff := s.stH.bufOff + 1 }, isOpen := false } := by
  simp only [echoServerOnRead, hunread]

theorem echoServerOnRead_cons {b : StreamByte} {unread : List StreamByte}
    (hunread : s.unread = b :: unread) (hoff : s.stH.bufOff < sizeofBuf) :
    echoServerOnRead s = .ok (
      if b.1 = newline then { s.store b unread hoff with wantWrite := true, wantRead := false }
      else if s.stH.bufOff + 1 = sizeofBuf then { s.store b unread hoff with isOpen := false }
      else s.store b unread hoff) := by
  simp only [echoServerOnRead, hunread, hoff, dif_pos, Vector.getElem_set_self]
  split_ifs <;> rfl

/-- A read stays inside the buffer, and leaves the stream closed or echoing as before. -/
theorem Echoing.onRead (h : Echoing client short s echoed) (hread : s.wantRead = true) :
    ∃ s', echoServerOnRead s = .ok s' ∧ s'.accepted = s.accepted ∧
      s'.stH.bufOff ≤ sizeofBuf ∧ (s'.isOpen = true → Echoing client short s' echoed) := by
  obtain ⟨-, hwrite, hroom⟩ | ⟨hno, -⟩ := h.mode
  · cases hunread : s.unread with
    | nil => exact ⟨_, echoServerOnRead_nil hunread, rfl, hroom, by simp⟩
    | cons b unread =>
      refine ⟨_, echoServerOnRead_cons hunread hroom, ?_⟩
      have hreceived : s.received ++ [b] = echoed ++ (s.store b unread hroom).stH.pending := by
        rw [h.received, List.append_assoc, EchoStream.store, pending_set]
      have hstream : (s.received ++ [b]) ++ unread = client.zipIdx := by
        rw [← h.stream, hunread, List.append_assoc]
        rfl
      split_ifs with hnewline hfull
      · -- the line is complete
        refine ⟨rfl, hroom, fun _ => ?_⟩
        have hterminated : Terminated (s.received ++ [b]) := .inr ⟨s.received, b, rfl, hnewline⟩
        exact ⟨hreceived, hstream, hroom, h.terminated, .inr ⟨rfl, rfl, hterminated⟩, h.accepted⟩
      · exact ⟨rfl, hroom, by simp⟩
      · refine ⟨rfl, hroom, fun _ => ?_⟩
        have hmore : s.stH.bufOff + 1 < sizeofBuf := lt_of_le_of_ne hroom hfull
        exact ⟨hreceived, hstream, hroom, h.terminated, .inl ⟨hread, hwrite, hmore⟩, h.accepted⟩
  · rw [hread] at hno
    cases hno

theorem Echoing.pending_length (h : Echoing client short s echoed) :
    s.stH.pending.length = s.stH.bufOff := by
  rw [StreamCtx.pending, List.length_take, Vector.length_toList]
  exact min_eq_left h.off_le

/-- A write that does not follow a short one, or accepts nothing, leaves the stream echoing
    with one more line sent back, or cut short. -/
theorem Echoing.onWrite (h : Echoing client short s echoed) (hwrite : s.wantWrite = true)
    {nw : ℕ} (hnw : nw ≤ s.stH.bufOff) (hsilent : short = true → nw = 0) :
    Echoing client (short || decide (nw < s.stH.bufOff)) (echoServerOnWrite nw s)
      s.received := by
  obtain ⟨-, hno, -⟩ | ⟨-, -, hterminated⟩ := h.mode
  · rw [hwrite] at hno
    cases hno
  · refine ⟨?_, h.stream, Nat.zero_le _, hterminated, .inl ⟨rfl, rfl, sizeofBuf_pos⟩, ?_⟩
    · simp [echoServerOnWrite, StreamCtx.pending]
    · show if _ then s.accepted ++ s.stH.pending.take nw <+: s.received ∧ _ else _
      have haccepted := h.accepted
      have hlength := h.pending_length
      cases short with
      | true =>
        -- nothing was accepted, and one more line is now missing
        obtain rfl := hsilent rfl
        obtain ⟨hinitial, hlt⟩ := haccepted
        have hreceived := congrArg List.length h.received
        rw [List.length_append] at hreceived
        simp only [List.take_zero, List.append_nil, Bool.true_or, if_true]
        refine ⟨?_, by simp [echoServerOnWrite]; omega⟩
        rw [h.received]
        exact hinitial.trans (List.prefix_append _ _)
      | false =>
        simp only [Bool.false_eq_true, if_false] at haccepted
        rw [haccepted, h.received]
        by_cases hcut : nw < s.stH.bufOff
        · simp only [Bool.false_or, hcut, decide_true, if_true]
          refine ⟨?_, by simp [echoServerOnWrite, haccepted]; omega⟩
          exact List.prefix_append_right_inj _ |>.mpr (List.take_prefix _ _)
        · have hall : s.stH.pending.take nw = s.stH.pending := List.take_of_length_le (by omega)
          simp [echoServerOnWrite, haccepted, hcut, hall]

/-- A write that accepts something after a short one leaves a gap. -/
theorem Echoing.onWrite_gap (h : Echoing client true s echoed) {nw : ℕ}
    (hnw : nw ≤ s.stH.bufOff) (hpos : 0 < nw) :
    ¬ (echoServerOnWrite nw s).accepted <+: completeLines client.zipIdx := by
  intro hinitial
  obtain ⟨-, hlt⟩ := h.accepted
  have hlength := h.pending_length
  cases hpending : s.stH.pending with
  | nil =>
    rw [hpending] at hlength
    simp at hlength
    omega
  | cons b rest =>
    obtain ⟨n, rfl⟩ := Nat.exists_eq_succ_of_ne_zero hpos.ne'
    -- the first byte of the line is accepted ahead of its place
    have haccepted : s.accepted ++ b :: rest.take n <+: client.zipIdx := by
      refine List.IsPrefix.trans ?_ (completeLines_isPrefix _)
      simpa [echoServerOnWrite, hpending] using hinitial
    have hplace : echoed ++ b :: rest <+: client.zipIdx := by
      rw [← hpending, ← h.received, ← h.stream]
      exact List.prefix_append _ _
    have hsame := length_eq_of_prefix (nodup_zipIdx client) haccepted hplace
    omega

end Callbacks

/-! ## §5 Runs -/

/-- The state is intact, and echoing if the stream is open. -/
def EchoingIfOpen (client : List UInt8) (x : Except Overrun EchoStream × Bool) : Prop :=
  ∃ s, x.1 = .ok s ∧ (s.isOpen = true → ∃ echoed, Echoing client x.2 s echoed)

theorem echoing_initial (buf : Vector StreamByte sizeofBuf) (client : List UInt8) :
    Echoing client false (EchoStream.initial buf client) [] where
  received := rfl
  stream := rfl
  off_le := Nat.zero_le _
  terminated := .inl rfl
  mode := .inl ⟨rfl, rfl, sizeofBuf_pos⟩
  accepted := rfl

/-- Everything one callback can do to an echoing stream. -/
theorem lineRun_cases {client : List UInt8} {x y : Except Overrun EchoStream × Bool}
    {e : LineEvent} (hx : EchoingIfOpen client x) (h : lineRun x e = some y) :
    (SilentAfterShort x e ∧ EchoingIfOpen client y ∧
      (EchoesLines client x → EchoesLines client y)) ∨
    (¬ SilentAfterShort x e ∧ ¬ EchoesLines client y) := by
  obtain ⟨x₁, short⟩ := x
  obtain ⟨s, rfl, hopen⟩ := hx
  obtain ⟨hstep, hrecord⟩ := annotate_eq_some.mp h
  dsimp only at hstep hrecord
  cases e with
  | onRead =>
    simp only [lineStep, Option.ite_none_right_eq_some, Bool.and_eq_true, Option.some.injEq]
      at hstep
    obtain ⟨⟨hisOpen, hread⟩, hy⟩ := hstep
    obtain ⟨echoed, hechoing⟩ := hopen hisOpen
    obtain ⟨s', hok, haccepted, hoff, hopen'⟩ := hechoing.onRead hread
    have hy' : y.1 = .ok s' := hy.symm.trans hok
    refine .inl ⟨by rintro nw ⟨⟩, ⟨s', hy', fun hisOpen' => ⟨echoed, ?_⟩⟩, fun _ => ?_⟩
    · rw [hrecord]
      exact hopen' hisOpen'
    · exact ⟨s', hy', hoff, haccepted ▸ hechoing.accepted_completeLines⟩
  | onWrite nw =>
    simp only [lineStep, Option.ite_none_right_eq_some, Bool.and_eq_true, decide_eq_true_eq,
      Option.some.injEq] at hstep
    obtain ⟨⟨⟨hisOpen, hwrite⟩, hnw⟩, hy⟩ := hstep
    obtain ⟨echoed, hechoing⟩ := hopen hisOpen
    by_cases hsilent : short = true → nw = 0
    · have hnext := hechoing.onWrite hwrite hnw hsilent
      refine .inl ⟨?_, ⟨_, hy.symm, fun _ => ⟨s.received, ?_⟩⟩, fun _ => ?_⟩
      · rintro nw' ⟨⟩
        exact hsilent
      · rw [hrecord]
        exact hnext
      · exact ⟨_, hy.symm, hnext.off_le, hnext.accepted_completeLines⟩
    · obtain ⟨hshort, hpos⟩ := Classical.not_imp.mp hsilent
      obtain rfl : short = true := hshort
      refine .inr ⟨fun h => hpos (h nw rfl rfl), ?_⟩
      rintro ⟨s', hs', -, hinitial⟩
      rw [← hy, Except.ok.injEq] at hs'
      subst hs'
      exact hechoing.onWrite_gap hnw (Nat.pos_of_ne_zero hpos) hinitial

/-- **The echo server returns the lines it received.** For every stream of bytes and every
    schedule of callbacks: the line buffer never overflows and what the stream accepts is
    the beginning of the complete lines of the client, no byte skipped or repeated, if and
    only if the stream accepts nothing more after a write that it cut short. -/
theorem echoesLines_iff (buf : Vector StreamByte sizeofBuf) (client : List UInt8)
    (es : List LineEvent) :
    StatesAlong lineRun (EchoesLines client) (.ok (EchoStream.initial buf client), false) es ↔
      StepsAlong lineRun SilentAfterShort (.ok (EchoStream.initial buf client), false) es := by
  refine statesAlong_iff_stepsAlong_of_kept (I := EchoingIfOpen client) (E := fun _ => True)
    ?_ ?_ ?_ ?_ fun _ _ => trivial
  · rintro x e y - hx - h hy
    obtain ⟨-, hkept, -⟩ | ⟨-, hbroken⟩ := lineRun_cases hx h
    · exact hkept
    · exact absurd hy hbroken
  · rintro x e y - hx hP h
    obtain ⟨hsilent, -, hkeeps⟩ | ⟨hloud, hbroken⟩ := lineRun_cases hx h
    · exact iff_of_true (hkeeps hP) hsilent
    · exact iff_of_false hbroken hloud
  · exact ⟨_, rfl, fun _ => ⟨[], echoing_initial buf client⟩⟩
  · exact ⟨_, rfl, Nat.zero_le _, List.nil_prefix⟩

/-- The client sends two lines; of the first one the stream accepts one byte. -/
def shortWriteRun : List LineEvent :=
  [.onRead, .onRead, .onRead, .onWrite 1, .onRead, .onRead, .onWrite 2]

/-- "ab" and "c", each with its newline. -/
def twoLines : List UInt8 := [97, 98, 10, 99, 10]

/-- The stream of that client, with a cleared buffer. -/
def twoLinesStream : Except Overrun EchoStream × Bool :=
  (.ok (EchoStream.initial (Vector.replicate _ (0, 0)) twoLines), false)

/-- The rest of the first line is lost: the stream has accepted "ac" and a newline. -/
theorem shortWriteRun_not_echoesLines :
    LinesFit twoLines ∧
      ¬ StatesAlong lineRun (EchoesLines twoLines) twoLinesStream shortWriteRun := by
  refine ⟨by decide, fun h => ?_⟩
  obtain ⟨s, hs, -, hinitial⟩ := h.get_exec (by decide +kernel)
  have hlast : ((exec lineRun twoLinesStream shortWriteRun).get (by decide +kernel)).1.toOption.map
      EchoStream.accepted = some [(97, 0), (99, 3), (10, 4)] := by decide +kernel
  rw [hs] at hlast
  rw [Option.some.inj hlast] at hinitial
  exact absurd hinitial (by decide)

end Equic.Echo
