import Equic.Foundation.FdTable
import Equic.Foundation.Runs

/-!
# Descriptors in the `-P` mode

With `-P` `process_request` opens the requested file and keeps its descriptor in `file_fd`,
from which `my_preadv` reads. `http_server_on_close` closes `file_fd` of every stream. A
stream that is closed before its request is complete has not opened a file; its `file_fd` is
the 0 that `calloc` has put there, so descriptor 0 is closed, whatever it stands for by then.

`descriptors_kept_iff` says exactly which runs keep all descriptors: those in which no such
stream is closed while a stream is being sent from descriptor 0.
-/

namespace Equic.Filesystem

open Equic.Foundation

/-! ## §1 The machine -/

/-- What a descriptor stands for: a file that a stream has opened, by the position of the
    stream, or anything else. -/
inductive Handle where
  | other
  | file (owner : ℕ) (path : List UInt8)
  deriving DecidableEq, Repr

/-- A stream; `path` is the name of the file that `process_request` has opened. -/
structure FdStream where
  fileFd : ℕ
  path : Option (List UInt8)
  isFreed : Bool
  deriving DecidableEq, Repr

/-- `http_server_on_new_stream` -/
def FdStream.new : FdStream := ⟨0, none, false⟩

/-- The descriptors of the process, and all streams that there have been. -/
structure FdServer where
  table : FdTable Handle
  streams : List FdStream
  deriving DecidableEq, Repr

/-- What happens to the server. -/
inductive FdEvent where
  | newStream
  /-- The request of the `i`-th stream is complete, and its file can be opened. -/
  | processRequest (i : ℕ) (path : List UInt8)
  | onClose (i : ℕ)
  /-- Some other part of the process opens a descriptor. -/
  | openOther
  /-- It closes one of its own. -/
  | closeOther (fd : ℕ)
  deriving DecidableEq, Repr

/-- `process_request`, for the `i`-th stream. -/
def FdServer.processRequest (x : FdServer) (i : ℕ) (path : List UInt8) (s : FdStream) :
    FdServer where
  table := x.table.openFd (.file i path)
  streams := x.streams.set i { s with fileFd := x.table.lowest, path := some path }

/-- `http_server_on_close`, for the `i`-th stream. -/
def FdServer.onClose (x : FdServer) (i : ℕ) (s : FdStream) : FdServer where
  table := x.table.closeFd s.fileFd
  streams := x.streams.set i { s with isFreed := true }

/-- One event. -/
def fdStep (x : FdServer) : FdEvent → Option FdServer
  | .newStream => some { x with streams := x.streams ++ [.new] }
  | .processRequest i path => do
    let s ← x.streams[i]?
    if s.isFreed || s.path.isSome then none else some (x.processRequest i path s)
  | .onClose i => do
    let s ← x.streams[i]?
    if s.isFreed then none else some (x.onClose i s)
  | .openOther => some { x with table := x.table.openFd .other }
  | .closeOther fd =>
    if x.table.lookup fd = some .other then some { x with table := x.table.closeFd fd } else none

/-- `my_preadv`: the file that it reads from, if the descriptor is open. -/
def FdServer.readsFrom (x : FdServer) (s : FdStream) : Option Handle := x.table.lookup s.fileFd

/-! ## §2 Whose descriptor it is -/

/-- The `i`-th stream is `s`, and is being sent the file `path`. -/
structure FdServer.Sends (x : FdServer) (i : ℕ) (s : FdStream) (path : List UInt8) : Prop where
  stream : x.streams[i]? = some s
  isFreed : s.isFreed = false
  path : s.path = some path

/-- Every stream that is being sent reads from the file that it has opened. -/
def DescriptorsKept (x : FdServer) : Prop :=
  ∀ i s path, x.Sends i s path → x.readsFrom s = some (.file i path)

/-- Some stream is being sent from descriptor 0. -/
def SendsFromZero (x : FdServer) : Prop := ∃ i s path, x.Sends i s path ∧ s.fileFd = 0

/-- No stream that has opened no file is closed while another is sent from descriptor 0. -/
def ClosesOwn (x : FdServer) : FdEvent → Prop
  | .onClose i => ∀ s, x.streams[i]? = some s → s.path = none → ¬ SendsFromZero x
  | _ => True

section

variable {x y : FdServer}

/-- Whatever is open stays open where a descriptor is opened. -/
theorem readsFrom_openFd {s : FdStream} {h : Handle} (hs : x.readsFrom s = some h) (a : Handle) :
    (x.table.openFd a).lookup s.fileFd = some h := by
  have hs' : x.table.lookup s.fileFd = some h := hs
  rw [FdTable.lookup_openFd, if_neg, hs']
  intro hlowest
  rw [hlowest, FdTable.lookup_lowest] at hs'
  cases hs'

/-- A stream that is sent after one stream has changed is that one, or was sent before. -/
theorem sends_set {i j : ℕ} {s t : FdStream} {path : List UInt8} {table : FdTable Handle}
    (h : FdServer.Sends ⟨table, x.streams.set i s⟩ j t path) :
    (j = i ∧ t = s) ∨ (j ≠ i ∧ x.Sends j t path) := by
  obtain ⟨hstream, hfreed, hpath⟩ := h
  rw [List.getElem?_set] at hstream
  split at hstream
  · rename_i hji
    split at hstream
    · exact .inl ⟨hji.symm, (Option.some.inj hstream).symm⟩
    · cases hstream
  · rename_i hji
    exact .inr ⟨fun h => hji h.symm, hstream, hfreed, hpath⟩

/-- A stream that is sent after one has changed, if it is another one. -/
theorem Sends.set {i j : ℕ} {t : FdStream} {path : List UInt8} (h : x.Sends j t path)
    (hji : j ≠ i) (table : FdTable Handle) (s : FdStream) :
    FdServer.Sends ⟨table, x.streams.set i s⟩ j t path := by
  refine ⟨?_, h.isFreed, h.path⟩
  dsimp only
  rw [List.getElem?_set_ne (Ne.symm hji)]
  exact h.stream

theorem kept_newStream (h : DescriptorsKept x) :
    DescriptorsKept { x with streams := x.streams ++ [.new] } := by
  intro i s path hs
  have hstream := hs.stream
  dsimp only at hstream
  by_cases hlt : i < x.streams.length
  · rw [List.getElem?_append_left hlt] at hstream
    exact h i s path ⟨hstream, hs.isFreed, hs.path⟩
  · -- the new stream is not being sent
    rw [List.getElem?_append_right (Nat.le_of_not_lt hlt)] at hstream
    have hnew : s = .new := List.mem_singleton.mp (List.mem_of_getElem? hstream)
    have hpath := hs.path
    rw [hnew] at hpath
    cases hpath

theorem kept_processRequest (h : DescriptorsKept x) {i : ℕ} {s : FdStream} (path : List UInt8) :
    DescriptorsKept (x.processRequest i path s) := by
  intro j t path' hj
  obtain ⟨rfl, rfl⟩ | ⟨-, hold⟩ := sends_set hj
  · obtain rfl : path = path' := Option.some.inj hj.path
    simp only [FdServer.readsFrom, FdServer.processRequest, FdTable.lookup_openFd, if_true]
  · exact readsFrom_openFd (h j t path' hold) _

/-- **Closing a stream** keeps the descriptors of the others, unless it has opened no file and
    one of them is 0. -/
theorem kept_onClose_iff (h : DescriptorsKept x) {i : ℕ} {s : FdStream}
    (hs : x.streams[i]? = some s) (hfreed : s.isFreed = false)
    (hzero : s.path = none → s.fileFd = 0) :
    DescriptorsKept (x.onClose i s) ↔ (s.path = none → ¬ SendsFromZero x) := by
  cases hpath : s.path with
  | some path =>
    -- it closes its own descriptor
    refine iff_of_true ?_ (by rintro ⟨⟩)
    intro j t path' hj
    obtain ⟨rfl, rfl⟩ | ⟨hji, hold⟩ := sends_set hj
    · cases hj.isFreed
    · have hown := h i s path ⟨hs, hfreed, hpath⟩
      have hother := h j t path' hold
      simp only [FdServer.readsFrom, FdServer.onClose, FdTable.lookup_closeFd] at hown hother ⊢
      rw [if_neg, hother]
      intro hsame
      rw [hsame, hown] at hother
      exact hji (Handle.file.inj (Option.some.inj hother)).1.symm
  | none =>
    constructor
    · rintro hkept - ⟨j, t, path, hj, ht⟩
      have hji : j ≠ i := by
        rintro rfl
        have hsame : s = t := Option.some.inj (hs.symm.trans hj.stream)
        rw [hsame, hj.path] at hpath
        cases hpath
      have hlookup := hkept j t path (Sends.set hj hji _ _)
      simp only [FdServer.readsFrom, FdServer.onClose, FdTable.lookup_closeFd, hzero hpath, ht,
        if_true] at hlookup
      cases hlookup
    · intro hzeros j t path' hj
      obtain ⟨rfl, rfl⟩ | ⟨hji, hold⟩ := sends_set hj
      · cases hj.isFreed
      · have hother := h j t path' hold
        simp only [FdServer.readsFrom, FdServer.onClose, FdTable.lookup_closeFd] at hother ⊢
        rw [if_neg, hother]
        intro hsame
        exact hzeros rfl ⟨j, t, path', hold, hsame.trans (hzero hpath)⟩

end

/-! ## §3 Every run -/

/-- A stream that has opened no file has the descriptor that `calloc` has given it. -/
def ZeroUnopened (x : FdServer) : Prop := ∀ s ∈ x.streams, s.path = none → s.fileFd = 0

/-- Everything an event can do. -/
theorem fdStep_cases {x y : FdServer} {e : FdEvent} (h : fdStep x e = some y) :
    (e = .newStream ∧ y = { x with streams := x.streams ++ [.new] }) ∨
    (∃ i path s, e = .processRequest i path ∧ x.streams[i]? = some s ∧
      y = x.processRequest i path s) ∨
    (∃ i s, e = .onClose i ∧ x.streams[i]? = some s ∧ s.isFreed = false ∧ y = x.onClose i s) ∨
    (e = .openOther ∧ y = { x with table := x.table.openFd .other }) ∨
    ∃ fd, e = .closeOther fd ∧ x.table.lookup fd = some .other ∧
      y = { x with table := x.table.closeFd fd } := by
  cases e with
  | newStream => exact .inl ⟨rfl, (Option.some.inj h).symm⟩
  | processRequest i path =>
    obtain ⟨s, hs, h⟩ := Option.bind_eq_some_iff.mp h
    rw [Option.ite_none_left_eq_some] at h
    exact .inr (.inl ⟨i, path, s, rfl, hs, (Option.some.inj h.2).symm⟩)
  | onClose i =>
    obtain ⟨s, hs, h⟩ := Option.bind_eq_some_iff.mp h
    rw [Option.ite_none_left_eq_some] at h
    exact .inr (.inr (.inl ⟨i, s, rfl, hs, by simpa using h.1, (Option.some.inj h.2).symm⟩))
  | openOther => exact .inr (.inr (.inr (.inl ⟨rfl, (Option.some.inj h).symm⟩)))
  | closeOther fd =>
    simp only [fdStep, Option.ite_none_right_eq_some, Option.some.injEq] at h
    exact .inr (.inr (.inr (.inr ⟨fd, rfl, h.1, h.2.symm⟩)))

theorem zeroUnopened_fdStep {x y : FdServer} {e : FdEvent} (hx : ZeroUnopened x)
    (h : fdStep x e = some y) : ZeroUnopened y := by
  obtain ⟨-, rfl⟩ | ⟨i, path, s, -, hs, rfl⟩ | ⟨i, s, -, hs, -, rfl⟩ | ⟨-, rfl⟩ |
    ⟨fd, -, -, rfl⟩ := fdStep_cases h
  · intro t ht hpath
    obtain hold | hnew := List.mem_append.mp ht
    · exact hx t hold hpath
    · rw [List.mem_singleton.mp hnew]
      rfl
  · intro t ht hpath
    obtain hold | rfl := List.mem_or_eq_of_mem_set ht
    · exact hx t hold hpath
    · cases hpath
  · intro t ht hpath
    obtain hold | rfl := List.mem_or_eq_of_mem_set ht
    · exact hx t hold hpath
    · exact hx s (List.mem_of_getElem? hs) hpath
  · exact hx
  · exact hx

/-- One event keeps the descriptors exactly if it closes only what the stream has opened. -/
theorem kept_fdStep_iff {x y : FdServer} {e : FdEvent} (hx : ZeroUnopened x)
    (hkept : DescriptorsKept x) (h : fdStep x e = some y) : DescriptorsKept y ↔ ClosesOwn x e := by
  obtain ⟨rfl, rfl⟩ | ⟨i, path, s, rfl, hs, rfl⟩ | ⟨i, s, rfl, hs, hfreed, rfl⟩ | ⟨rfl, rfl⟩ |
    ⟨fd, rfl, hfd, rfl⟩ := fdStep_cases h
  · exact iff_of_true (kept_newStream hkept) trivial
  · exact iff_of_true (kept_processRequest hkept path) trivial
  · rw [kept_onClose_iff hkept hs hfreed (hx s (List.mem_of_getElem? hs))]
    constructor
    · intro h t ht hpath
      obtain rfl := Option.some.inj (hs.symm.trans ht)
      exact h hpath
    · exact fun h => h s hs
  · refine iff_of_true (fun i s path hs => ?_) trivial
    exact readsFrom_openFd (hkept i s path ⟨hs.stream, hs.isFreed, hs.path⟩) _
  · -- what other parts close was their own
    refine iff_of_true (fun i s path hs => ?_) trivial
    have hread : x.table.lookup s.fileFd = some (.file i path) :=
      hkept i s path ⟨hs.stream, hs.isFreed, hs.path⟩
    simp only [FdServer.readsFrom, FdTable.lookup_closeFd]
    rw [if_neg, hread]
    rintro rfl
    rw [hread] at hfd
    cases hfd

/-- **Whose files the server sends.** From any table, in a run with any streams, requests and
    closings, every stream reads from the file that it has opened, at all times, exactly if no
    stream that has opened no file is closed while another one is sent from descriptor 0. -/
theorem descriptors_kept_iff (table : FdTable Handle) (es : List FdEvent) :
    StatesAlong fdStep DescriptorsKept ⟨table, []⟩ es ↔
      StepsAlong fdStep ClosesOwn ⟨table, []⟩ es := by
  refine statesAlong_iff_stepsAlong (I := ZeroUnopened) (E := fun _ => True)
    (fun x e y _ hx _ h => zeroUnopened_fdStep hx h)
    (fun x e y _ hx hkept h => kept_fdStep_iff hx hkept h)
    (by simp [ZeroUnopened]) ?_ fun _ _ => trivial
  intro i s path hs
  cases hs.stream

/-- The standard descriptors. -/
def stdio : FdTable Handle := [some .other, some .other, some .other]

/-- Two streams are closed before their requests are complete; between the two a file is
    opened, and after them another one. -/
def confusedRun : List FdEvent :=
  [.newStream, .newStream, .newStream, .newStream, .onClose 0, .processRequest 1 [97], .onClose 2,
    .processRequest 3 [98]]

-- The stream of the first file reads from the second one.
example : ((exec fdStep ⟨stdio, []⟩ confusedRun).bind fun x =>
    x.streams[1]?.bind x.readsFrom) = some (.file 3 [98]) := by decide

end Equic.Filesystem
