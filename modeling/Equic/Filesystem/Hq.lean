import Equic.Filesystem.Serve

/-!
# The hq mode

All streams of a server with `-Q`. No request and no failure ends the process; where the
file server calls `exit` the stream is closed.

`hq_server_on_write` asks `bytes_left` whether the file is out. That function looks at
`file_size` when `-P` is given, but only the Filesystem Mode sets it. So with `-P` a stream is
shut down after its first write, and `hq_complete_iff` says when the response is complete
nevertheless.
-/

namespace Equic.Filesystem

open Equic.Foundation

/-! ## §1 The machine -/

/-- What lsquic calls for a stream. -/
inductive HqCall where
  | onRead (r : ServeRead)
  | onWrite (w : Writef)
  | onClose
  deriving DecidableEq, Repr

/-- The callbacks of one stream. With `-P` the `on_close` that both modes share also closes
    descriptor 0, which the hq mode has never opened and which may be that of another
    reader; what then happens is left out, so with `-P` there is no `onClose`. -/
def hqMove {lib : FileLib} (cfg : Settings) (sPwritev : ℤ) (s : ServeStream lib) :
    HqCall → Option (Except ServeFault (ServeStream lib × List (ServeStream lib)))
  | .onRead r =>
    if s.isFreed || s.isClosed || s.isShutRead then none
    else (s.hqOnRead cfg r).map fun s => .ok (s, [])
  | .onWrite w =>
    if !s.isFreed && !s.isClosed && s.wantWrite && !s.isShutWrite then
      some ((s.hqOnWrite sPwritev w).map fun s => (s, []))
    else none
  | .onClose =>
    if s.isFreed || sPwritev ≠ 0 then none else some (.ok ({ s with isFreed := true }, []))

/-- What happens to the server. -/
abbrev HqEvent := PoolEvent (List UInt8) HqCall

/-- One event: a client opens a stream, or a callback is called. -/
abbrev hqStep (lib : FileLib) (cfg : Settings) (sPwritev : ℤ) :
    Except ServeFault (List (ServeStream lib)) → HqEvent →
      Option (Except ServeFault (List (ServeStream lib))) :=
  poolStep (newClient lib) (hqMove cfg sPwritev)

/-! ## §2 The invariant of a stream -/

/-- What the path of a request is, in the hq mode. -/
def HqRequest (reqBuf path : List UInt8) : Prop := hqRequest reqBuf = some path

namespace ServeStream

variable {lib : FileLib}

/-- The file is open, and what has been handed over is the part of it that has been read.
    With `-P` no size is known. -/
structure HqSending (sPwritev : ℤ) (root path content : List UInt8) (c : lib.reader.Ctx)
    (s : ServeStream lib) : Prop where
  readerCtx : s.readerCtx = some c
  names : s.Names HqRequest root path
  file : lib.files path = some content
  carries : s.isClosed = false → s.handed ++ lib.reader.rest c = content
  handed : s.handed <+: content
  unsized : s.fileSize = 0 ∧ (sPwritev ≠ 0 → s.written = 0)

/-- A stream is collecting its request or sending its file. -/
inductive HqOk (sPwritev : ℤ) (root : List UInt8) (s : ServeStream lib) : Prop
  | collecting : s.Collecting → s.fileSize = 0 → s.written = 0 → s.push = none →
      HqOk sPwritev root s
  | sending {path content : List UInt8} {c : lib.reader.Ctx} : s.isShutRead = true →
      s.HqSending sPwritev root path content c → HqOk sPwritev root s

/-- What a client gets: the beginning of the file that its request names. -/
def HqServes (root : List UInt8) (s : ServeStream lib) : Prop :=
  s.handed ≠ [] → ∃ path content, s.Names HqRequest root path ∧ lib.files path = some content ∧
    s.handed <+: content

/-- A stream that is shut down carries its whole file. -/
def Complete (root : List UInt8) (s : ServeStream lib) : Prop :=
  s.isShutWrite = true → s.isClosed = false → ∃ path content, s.Names HqRequest root path ∧
    lib.files path = some content ∧ s.handed = content

/-- A write with these reads takes all that is left of the file. -/
def TakesAll (w : Writef) (s : ServeStream lib) : Prop :=
  ∀ c, s.readerCtx = some c → lib.reader.rest (lib.reader.feed c w.counts).1 = []

/-- With `-P` every write that succeeds takes all that is left. -/
def WritesAll (sPwritev : ℤ) (s : ServeStream lib) : HqCall → Prop
  | .onWrite w => sPwritev ≠ 0 → w.fails = false → s.TakesAll w
  | _ => True

variable {root path content : List UInt8} {cfg : Settings} {sPwritev : ℤ} {c : lib.reader.Ctx}
  {s s' : ServeStream lib}

theorem HqOk.serves (h : s.HqOk sPwritev root) : s.HqServes root := by
  intro hne
  cases h with
  | collecting h => exact absurd h.handed hne
  | sending _ h => exact ⟨_, _, h.names, h.file, h.handed⟩

/-- A request names one file. -/
theorem Names.unique {path' : List UInt8} (h : s.Names HqRequest root path)
    (h' : s.Names HqRequest root path') : path = path' := by
  unfold Names at h h'
  cases hpush : s.push with
  | some push =>
    rw [hpush] at h h'
    exact h.trans h'.symm
  | none =>
    rw [hpush] at h h'
    obtain ⟨-, p, hp, rfl⟩ := h
    obtain ⟨-, p', hp', rfl⟩ := h'
    rw [Option.some.inj (hp.symm.trans hp')]

/-- A stream that is shut down is complete exactly if nothing is left of its file. -/
theorem HqSending.complete_iff (h : s.HqSending sPwritev root path content c)
    (hshut : s.isShutWrite = true) (hclosed : s.isClosed = false) :
    s.Complete root ↔ lib.reader.rest c = [] := by
  have hcarries := h.carries hclosed
  constructor
  · intro hcomplete
    obtain ⟨path', content', hnames, hfile, hhanded⟩ := hcomplete hshut hclosed
    obtain rfl := h.names.unique hnames
    obtain rfl := Option.some.inj (h.file.symm.trans hfile)
    rw [hhanded] at hcarries
    exact List.append_cancel_left (hcarries.trans (List.append_nil content).symm)
  · intro hrest _ _
    rw [hrest, List.append_nil] at hcarries
    exact ⟨path, content, h.names, h.file, hcarries⟩

theorem complete_of_open (hshut : s.isShutWrite = false) : s.Complete root := by
  intro h
  rw [hshut] at h
  cases h

/-! ## §3 One callback -/

/-- **Reading**: the request is collected, its file is opened, or the stream is closed. -/
theorem hqOnRead_ok (sPwritev : ℤ) (hs : s.Collecting) (hsize : s.fileSize = 0)
    (hwritten : s.written = 0) (hpush : s.push = none) {r : ServeRead}
    (h : s.hqOnRead cfg r = some s') :
    s'.HqOk sPwritev cfg.documentRoot ∧ s'.isShutWrite = false := by
  have hclose : HqOk sPwritev cfg.documentRoot { s with isClosed := true } :=
    .collecting hs.close hsize hwritten hpush
  unfold hqOnRead at h
  split at h
  · rw [← Option.some.inj h]
    exact ⟨hclose, hs.isShutWrite⟩
  · rw [Option.ite_none_right_eq_some] at h
    obtain ⟨hunread, h⟩ := h
    split at h
    · rw [← Option.some.inj h]
      exact ⟨hclose, hs.isShutWrite⟩
    · rename_i path hpath
      obtain ⟨hcreate, hfile⟩ | ⟨c, hcreate, hfile⟩ :=
        create_cases lib (filename cfg.documentRoot path)
      · simp only [hcreate, Option.some.injEq] at h
        rw [← h]
        exact ⟨.collecting ⟨hs.readerCtx, hs.headersSent, hs.resumeResp, hs.wantWrite,
          hs.contentType, hs.handed, hs.isShutWrite⟩ hsize hwritten hpush, hs.isShutWrite⟩
      · simp only [hcreate, Option.some.injEq] at h
        rw [← h]
        refine ⟨.sending rfl
          ⟨rfl, ?_, hfile, fun _ => ?_, ?_, hsize, fun _ => hwritten⟩, hs.isShutWrite⟩
        · unfold Names
          rw [show _ = none from hpush]
          exact ⟨hunread, path, hpath, rfl⟩
        · dsimp only
          rw [hs.handed, List.nil_append]
        · dsimp only
          rw [hs.handed]
          exact List.nil_prefix
  · simp only [collect, Option.ite_none_right_eq_some, Option.some.injEq] at h
    obtain ⟨-, rfl⟩ := h
    exact ⟨.collecting ⟨hs.readerCtx, hs.headersSent, hs.resumeResp, hs.wantWrite,
      hs.contentType, hs.handed, hs.isShutWrite⟩ hsize hwritten hpush, hs.isShutWrite⟩

/-- With `-P` nothing seems to be left. -/
theorem HqSending.bytesLeft (h : s.HqSending sPwritev root path content c) :
    s.bytesLeft sPwritev = if sPwritev ≠ 0 then 0 else (lib.reader.rest c).length := by
  unfold ServeStream.bytesLeft
  split
  · rename_i hp
    simp [h.unsized.1, h.unsized.2 hp]
  · rw [readerSize, h.readerCtx]
    exact lib.reader.size_eq c

/-- **Writing**: the next bytes of the file are handed over, or the stream is closed. -/
theorem hqOnWrite_ok (hs : s.HqOk sPwritev root) (hwant : s.wantWrite = true)
    (hclosed : s.isClosed = false) (hshut : s.isShutWrite = false) (w : Writef) :
    ∃ s', s.hqOnWrite sPwritev w = .ok s' ∧ s'.HqOk sPwritev root ∧
      (s'.Complete root ↔ (sPwritev ≠ 0 → w.fails = false → s.TakesAll w)) := by
  cases hs with
  | collecting hs =>
    rw [hs.wantWrite] at hwant
    cases hwant
  | @sending path content c hread h =>
    have htakes : s.TakesAll w ↔ lib.reader.rest (lib.reader.feed c w.counts).1 = [] := by
      simp [TakesAll, h.readerCtx]
    cases hfails : w.fails with
    | true =>
      refine ⟨{ s with
          readerCtx := some (lib.reader.feed c w.counts).1, isClosed := true }, ?_,
        .sending hread ⟨rfl, h.names, h.file, by rintro ⟨⟩, h.handed, h.unsized⟩,
        iff_of_true (complete_of_open hshut) (by rintro - ⟨⟩)⟩
      simp [hqOnWrite, h.readerCtx, writef, hfails]
    | false =>
      let s₁ : ServeStream lib := { s with
        readerCtx := some (lib.reader.feed c w.counts).1
        handed := s.handed ++ (lib.reader.feed c w.counts).2 }
      have hcarries : s₁.handed ++ lib.reader.rest (lib.reader.feed c w.counts).1 = content := by
        rw [List.append_assoc, lib.reader.feed_append_rest]
        exact h.carries hclosed
      have h₁ : s₁.HqSending sPwritev root path content (lib.reader.feed c w.counts).1 :=
        ⟨rfl, h.names, h.file, fun _ => hcarries, ⟨_, hcarries⟩, h.unsized⟩
      have hwrite : s.hqOnWrite sPwritev w =
          .ok (s₁.afterWrite sPwritev (lib.reader.feed c w.counts).2.length) := by
        simp [hqOnWrite, h.readerCtx, writef, hfails, s₁]
      refine ⟨_, hwrite, ?_⟩
      rw [htakes]
      unfold ServeStream.afterWrite
      rw [h₁.bytesLeft]
      by_cases hp : sPwritev = 0
      · -- the reader knows what is left
        by_cases hrest : lib.reader.rest (lib.reader.feed c w.counts).1 = []
        · have hshutNow : HqSending sPwritev root path content (lib.reader.feed c w.counts).1
              { s₁ with isShutWrite := true } :=
            ⟨rfl, h.names, h.file, fun _ => hcarries, ⟨_, hcarries⟩, h.unsized⟩
          rw [if_neg (by simp [hp, hrest])]
          exact ⟨.sending hread hshutNow,
            iff_of_true ((hshutNow.complete_iff rfl hclosed).mpr hrest) fun _ _ => hrest⟩
        · rw [if_pos (by simp [hp, List.length_pos_iff, hrest])]
          refine ⟨.sending hread ⟨rfl, h.names, h.file, fun _ => hcarries, ⟨_, hcarries⟩,
            h.unsized.1, fun hne => absurd hp hne⟩, iff_of_true (complete_of_open hshut)
              fun hne => absurd hp hne⟩
      · have hshutNow : HqSending sPwritev root path content (lib.reader.feed c w.counts).1
            { s₁ with isShutWrite := true } :=
          ⟨rfl, h.names, h.file, fun _ => hcarries, ⟨_, hcarries⟩, h.unsized⟩
        rw [if_neg (by simp [hp])]
        exact ⟨.sending hread hshutNow, (hshutNow.complete_iff rfl hclosed).trans
          ⟨fun hrest _ _ => hrest, fun hall => hall hp rfl⟩⟩

/-- **One callback**: nothing ends the process, and a complete stream stays complete exactly if
    the write takes all. -/
theorem HqOk.move (hs : s.HqOk sPwritev cfg.documentRoot) {e : HqCall}
    {r : Except ServeFault (ServeStream lib × List (ServeStream lib))}
    (h : hqMove cfg sPwritev s e = some r) :
    ∃ s', r = .ok (s', []) ∧ s'.HqOk sPwritev cfg.documentRoot ∧
      (s.Complete cfg.documentRoot →
        (s'.Complete cfg.documentRoot ↔ s.WritesAll sPwritev e)) := by
  cases e with
  | onRead r' =>
    simp only [hqMove] at h
    split at h
    · cases h
    · rename_i hopen
      simp only [Bool.or_eq_true, not_or, Bool.not_eq_true] at hopen
      obtain ⟨s', hs', rfl⟩ := Option.map_eq_some_iff.mp h
      cases hs with
      | sending hread =>
        rw [hopen.2] at hread
        cases hread
      | collecting hs hsize hwritten hpush =>
        obtain ⟨hok, hshut⟩ := hqOnRead_ok sPwritev hs hsize hwritten hpush hs'
        exact ⟨s', rfl, hok, fun _ => iff_of_true (complete_of_open hshut) trivial⟩
  | onWrite w =>
    simp only [hqMove, Option.ite_none_right_eq_some, Bool.and_eq_true, Bool.not_eq_true',
      Option.some.injEq] at h
    obtain ⟨⟨⟨⟨-, hclosed⟩, hwant⟩, hshut⟩, rfl⟩ := h
    obtain ⟨s', hok, hs', hiff⟩ := hqOnWrite_ok hs hwant hclosed hshut w
    exact ⟨s', by rw [hok]; rfl, hs', fun _ => hiff⟩
  | onClose =>
    simp only [hqMove] at h
    split at h
    · cases h
    · obtain rfl := Option.some.inj h
      refine ⟨_, rfl, ?_, fun hcomplete => iff_of_true hcomplete trivial⟩
      cases hs with
      | collecting hs hsize hwritten hpush =>
        exact .collecting ⟨hs.readerCtx, hs.headersSent, hs.resumeResp, hs.wantWrite,
          hs.contentType, hs.handed, hs.isShutWrite⟩ hsize hwritten hpush
      | sending hread h =>
        exact .sending hread ⟨h.readerCtx, h.names, h.file, h.carries, h.handed, h.unsized⟩

end ServeStream

/-! ## §4 Every run -/

theorem hqOk_newClient {lib : FileLib} {sPwritev : ℤ} {root request : List UInt8}
    {s : ServeStream lib} (h : newClient lib request = some s) :
    s.HqOk sPwritev root ∧ s.Complete root := by
  rw [← Option.some.inj h]
  exact ⟨.collecting ⟨rfl, rfl, rfl, rfl, rfl, rfl, rfl⟩ rfl rfl rfl,
    ServeStream.complete_of_open rfl⟩

/-- **The hq mode stays up and mixes nothing up**: in every run, with `-P` up to the first
    `on_close`, nothing ends the process, and a stream carries the beginning of the file that
    its own request names. -/
theorem hq_served (lib : FileLib) (cfg : Settings) (sPwritev : ℤ) (es : List HqEvent) :
    StatesAlong (hqStep lib cfg sPwritev)
      (PoolOk (fun s => s.HqServes cfg.documentRoot) fun _ => False) (.ok []) es := by
  have hok : StatesAlong (hqStep lib cfg sPwritev)
      (PoolOk (fun s => s.HqOk sPwritev cfg.documentRoot) fun _ => False) (.ok []) es := by
    refine poolOk_along (E := fun _ => True) (F := fun _ => True)
      (fun _ _ _ h => (hqOk_newClient h).1) (fun s e r _ hs h => ?_) (by simp) fun e _ => ?_
    · obtain ⟨s', rfl, hs', -⟩ := hs.move h
      exact .inr ⟨s', [], rfl, hs', by simp⟩
    · cases e <;> trivial
  exact hok.mono fun _ hx => hx.mono (fun _ hs => hs.serves) fun _ h => h

/-- A client asks for the page, and lsquic takes four bytes of it in a first write. -/
def hqPageRun : List HqEvent :=
  [.start (cstr "GET /a.html\r\n"),
    .move 0 (.onRead ⟨some 13, false, false, false, ⟨[], false⟩⟩),
    .move 0 (.onRead ⟨some 0, false, false, false, ⟨[], false⟩⟩),
    .move 0 (.onWrite ⟨[3, 1], false⟩)]

/-- Without `-P` the rest of the page follows, and the stream is closed. -/
def hqClosedRun : List HqEvent :=
  hqPageRun ++ [.move 0 (.onWrite ⟨[100], false⟩), .move 0 .onClose]

theorem hq_served_hqClosedRun :
    (exec (hqStep sampleLib sampleSettings 0) (.ok []) hqClosedRun).map
        (fun x => x.toOption.map fun ss => ss.map ServeStream.handed) =
      some (some [[1, 2, 3, 4, 5, 6]]) ∧
    StatesAlong (hqStep sampleLib sampleSettings 0)
      (PoolOk (fun s => s.HqServes (cstr "www")) fun _ => False) (.ok []) hqClosedRun :=
  ⟨by decide +kernel, hq_served sampleLib sampleSettings 0 hqClosedRun⟩

/-- **When responses of the hq mode are complete.** In a run, with `-P` up to the first
    `on_close`, all streams that are shut down carry their whole files exactly if, with `-P`,
    every write takes all that is left. Without `-P` they always do. -/
theorem hq_complete_iff (lib : FileLib) (cfg : Settings) (sPwritev : ℤ) (es : List HqEvent) :
    StatesAlong (hqStep lib cfg sPwritev)
        (PoolOk (fun s => s.Complete cfg.documentRoot) fun _ => True) (.ok []) es ↔
      StepsAlong (hqStep lib cfg sPwritev) (MoveMeets fun s => s.WritesAll sPwritev) (.ok [])
        es := by
  refine poolOk_iff (I := fun s => s.HqOk sPwritev cfg.documentRoot)
    (fun _ _ h => hqOk_newClient h) (fun s e r hs hcomplete h => ?_) (by simp) (by simp) es
  obtain ⟨s', rfl, hs', hiff⟩ := hs.move h
  refine ⟨?_, fun _ => ⟨hs', by simp⟩⟩
  rw [← hiff hcomplete]
  exact ⟨fun h => h.1, fun h => ⟨h, by simp⟩⟩

/-- With `-P` the first write of `hqPageRun` shuts the stream down, four bytes into the file. -/
theorem hq_complete_iff_hqPageRun :
    (exec (hqStep sampleLib sampleSettings 1) (.ok []) hqPageRun).map
        (fun x => x.toOption.map fun ss => ss.map fun s => (s.handed, s.isShutWrite)) =
      some (some [([1, 2, 3, 4], true)]) ∧
    (StatesAlong (hqStep sampleLib sampleSettings 1)
        (PoolOk (fun s => s.Complete (cstr "www")) fun _ => True) (.ok []) hqPageRun ↔
      StepsAlong (hqStep sampleLib sampleSettings 1) (MoveMeets fun s => s.WritesAll 1) (.ok [])
        hqPageRun) :=
  ⟨by decide +kernel, hq_complete_iff sampleLib sampleSettings 1 hqPageRun⟩

end Equic.Filesystem
