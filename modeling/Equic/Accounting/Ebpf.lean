import Equic.Server.System

/-!
# Accounting in eBPF mode

What the entries of the `counters` map mean over whole runs of the callbacks with
`has_eBPF` set. The callbacks address the map by the peer address of the moment and ignore
failed updates, so two things can make a counter drift: an update that fails, and a close
at another address than the open.

`countsCounted_step_iff` is the one-step account of both. `ebpf_countsCounted_iff` draws
the conclusion for runs with arbitrary update failures, and `ebpf_countsOpened_iff` for
runs with arbitrary address changes in which the map has room for every client.
-/

namespace Equic.Accounting

open Equic.Foundation Equic.Net Equic.Kern Equic.User Equic.Server

/-! ## §1 Slots of the counters map -/

/-- The address a connection was opened from. -/
def openSlot (r : Conn) : Option InAddr := some r.openedFrom.sinAddr

/-- The address in whose counter a connection was counted, if its increment succeeded. -/
def countedSlot (r : Conn) : Option InAddr :=
  if r.counted then some r.openedFrom.sinAddr else none

/-- Number of open connections that were opened from `a`. -/
def openFrom (s : System) (a : InAddr) : ℕ := holders openSlot s.live a

/-- Number of open connections opened from `a` whose increment succeeded. -/
def countedFrom (s : System) (a : InAddr) : ℕ := holders countedSlot s.live a

/-- The counter of every address is the number of its open connections whose increment
    succeeded. -/
def CountsCounted (s : System) : Prop := ∀ a, level s.server.counters a = countedFrom s a

/-- The counter of every address is the number of its open connections. -/
def CountsOpened (s : System) : Prop := ∀ a, level s.server.counters a = openFrom s a

/-! ## §2 One step -/

section Step

variable {s : System} {c : ConnId} {peer : SockaddrIn} {fault : Bool} {now : Timespec} {r : Conn}

/-- An open callback takes a slot exactly if its map update goes through. -/
theorem takesSlot_iff (h : s.server.ctx.hasEBPF = true) :
    takesSlot fault s.server peer = true ↔
      fault = false ∧
        (peer.sinAddr ∈ s.server.counters ∨ s.server.counters.size < maxEntries) := by
  simp only [takesSlot, h, if_true]
  exact equicIncCounter_succeeded_iff fault s.server.counters (.inet peer)

/-- An open callback raises the counter of the slot it takes, unless that overflows. -/
theorem level_newConn_iff (h : s.server.ctx.hasEBPF = true) :
    level (httpServerOnNewConn fault now s.server c (.inet peer)).server.counters =
        shift (level s.server.counters)
          (countedSlot ⟨peer, peer, takesSlot fault s.server peer⟩) 1 ↔
      (takesSlot fault s.server peer = true →
        level s.server.counters peer.sinAddr < CInt.max) := by
  rw [httpServerOnNewConn_counters fault now c (.inet peer) h]
  -- the slot is recorded as taken exactly if the increment succeeds
  have htakes : takesSlot fault s.server peer =
      (equicIncCounter fault s.server.counters (.inet peer)).2.succeeded := by
    simp [takesSlot, h]
  rw [htakes]
  cases hsucc : (equicIncCounter fault s.server.counters (.inet peer)).2.succeeded with
  | true =>
    simpa [countedSlot] using equicIncCounter_level_iff fault s.server.counters (.inet peer) hsucc
  | false =>
    simp [countedSlot, equicIncCounter_of_not_succeeded fault s.server.counters (.inet peer) hsucc]

/-- A close callback lowers the counter of the peer's current address, if it lowers one. -/
theorem level_connClosed (h : s.server.ctx.hasEBPF = true)
    (hnonneg : 0 ≤ level s.server.counters r.peer.sinAddr) :
    level (httpServerOnConnClosed fault now s.server (.inet r.peer)).1.counters =
      shift (level s.server.counters)
        (releasedKey fault s.server.counters (.inet r.peer)) (-1) := by
  rw [httpServerOnConnClosed_counters fault now (.inet r.peer) h]
  exact equicDecCounter_level fault s.server.counters (.inet r.peer) hnonneg

end Step

/-! ## §3 Update failures -/

/-- A callback that keeps the counters balanced. An open callback must not overflow the
    counter. A close callback of a counted connection must lower the counter that the open
    raised; one of an uncounted connection must find nothing to lower, or fail as well. -/
def KeepsBalance (s : System) : Event → Prop
  | .newConn _ peer fault _ =>
    takesSlot fault s.server peer = true → level s.server.counters peer.sinAddr < CInt.max
  | .migrate .. => True
  | .connClosed c fault _ => ∀ r, s.live.lookup c = some r →
      if r.counted then fault = false ∧ r.peer.sinAddr = r.openedFrom.sinAddr
      else fault = true ∨ level s.server.counters r.peer.sinAddr = 0

/-- In a balanced state the released counter is the one the connection holds exactly under
    `KeepsBalance`. -/
theorem releasedKey_eq_countedSlot_iff {s : System} {c : ConnId} {r : Conn} {fault : Bool}
    (hbal : Balanced countedSlot (level s.server.counters) s.live)
    (hr : s.live.lookup c = some r) :
    releasedKey fault s.server.counters (.inet r.peer) = countedSlot r ↔
      if r.counted then fault = false ∧ r.peer.sinAddr = r.openedFrom.sinAddr
      else fault = true ∨ level s.server.counters r.peer.sinAddr = 0 := by
  cases hcounted : r.counted with
  | true =>
    have hslot : countedSlot r = some r.openedFrom.sinAddr := by simp [countedSlot, hcounted]
    -- the counter it holds is positive, so at that address the call does lower it
    have hpos : 0 < level s.server.counters r.openedFrom.sinAddr := hbal.level_pos hr hslot
    rw [hslot, if_pos rfl, releasedKey, Sockaddr.sinAddr_inet]
    constructor
    · intro h
      rw [Option.ite_none_left_eq_some] at h
      exact ⟨by simpa using (not_or.mp h.1).1, by simpa using h.2⟩
    · rintro ⟨rfl, hsame⟩
      rw [hsame, if_neg (by simp [hpos.ne'])]
  | false =>
    have hslot : countedSlot r = none := by simp [countedSlot, hcounted]
    rw [hslot, releasedKey, Sockaddr.sinAddr_inet]
    cases fault <;> simp

/-- One step keeps the counters balanced precisely under `KeepsBalance`. -/
theorem countsCounted_step_iff {s s' : System} {e : Event} (hmode : s.server.ctx.hasEBPF = true)
    (hs : CountsCounted s) (h : step s e = some s') : CountsCounted s' ↔ KeepsBalance s e := by
  have hbal : Balanced countedSlot (level s.server.counters) s.live := hs
  show Balanced countedSlot (level s'.server.counters) s'.live ↔ _
  obtain ⟨c, peer, fault, now, rfl, hc, rfl⟩ | ⟨c, peer, r, rfl, hr, rfl⟩ |
    ⟨c, fault, now, r, rfl, hr, rfl⟩ := step_cases h
  · -- opening: the new record and the raised counter match unless the counter overflows
    rw [balanced_insert_iff hbal hc, level_newConn_iff hmode]
    rfl
  · -- a change of address moves neither a slot nor a counter
    have hkeep : Balanced countedSlot (level s.server.counters)
        (s.live.insert c { r with peer := peer }) :=
      (balanced_replace_iff hr rfl).mpr hbal
    simp [hkeep, KeepsBalance]
  · -- closing: the counter lowered must be the one that the record holds
    have hnonneg : 0 ≤ level s.server.counters r.peer.sinAddr := by
      rw [hs]
      exact Int.natCast_nonneg _
    rw [balanced_erase_iff hbal hr, level_connClosed hmode hnonneg,
      shift_eq_shift_iff (by decide), releasedKey_eq_countedSlot_iff hbal hr]
    simp [KeepsBalance, hr]

theorem countsCounted_initial (cfg : Config) : CountsCounted (System.initial cfg) :=
  fun _ => rfl

/-- **Update failures.** For every choice of failing map updates, the counter of every
    address is the number of its open connections whose increment succeeded, in every
    state of a run, if and only if every callback of the run keeps the balance. -/
theorem ebpf_countsCounted_iff (maxConn : UInt32) (cooldown : Bool) (es : List Event) :
    StatesAlong step CountsCounted (System.initial ⟨true, maxConn, cooldown⟩) es ↔
      StepsAlong step KeepsBalance (System.initial ⟨true, maxConn, cooldown⟩) es := by
  refine statesAlong_iff_stepsAlong (I := fun s => s.server.ctx.hasEBPF = true)
    (E := fun _ => True) ?_ ?_ rfl (countsCounted_initial _) (fun _ _ => trivial)
  · exact fun s e s' _ hmode _ h => (step_hasEBPF h).trans hmode
  · exact fun s e s' _ hmode hs h => countsCounted_step_iff hmode hs h

/-- Two connections from one address: the increment of the first fails, the second is
    counted, and the first closes. -/
def failedIncrementRun : List Event :=
  let peer : SockaddrIn := ⟨4433, ⟨192, 168, 0, 7⟩⟩
  let now : Timespec := ⟨0, 0⟩
  [.newConn 1 peer true now, .newConn 2 peer false now, .connClosed 1 false now]

/-- The close of the uncounted connection takes the slot of the counted one: the counter is
    0 with one counted connection open. -/
theorem failedIncrementRun_not_countsCounted :
    (∀ e ∈ failedIncrementRun, e.KeepsPeer) ∧
      ¬ StatesAlong step CountsCounted (System.initial ⟨true, 0, false⟩) failedIncrementRun := by
  refine ⟨by decide, fun h => ?_⟩
  have hlast := h.get_exec (by decide +kernel) ⟨192, 168, 0, 7⟩
  exact absurd hlast (by decide +kernel)

/-! ## §4 Address changes -/

/-- A callback that releases the slot of its own open: an open callback must not overflow
    the counter, and a close callback must find the peer at the address of the open. -/
def ClosesWhereOpened (s : System) : Event → Prop
  | .newConn _ peer _ _ => level s.server.counters peer.sinAddr < CInt.max
  | .migrate .. => True
  | .connClosed c _ _ => ∀ r, s.live.lookup c = some r →
      r.peer.sinAddr = r.openedFrom.sinAddr

/-- eBPF mode, with every connection counted and only addresses of `A` in the map. -/
structure AllCounted (A : Finset InAddr) (s : System) : Prop where
  ebpf : s.server.ctx.hasEBPF = true
  counted : ∀ c r, s.live.lookup c = some r → r.counted = true
  keys : ∀ a ∈ s.server.counters, a ∈ A

section AllCounted

variable {A : Finset InAddr} {s s' : System} {e : Event}

theorem allCounted_initial (maxConn : UInt32) (cooldown : Bool) :
    AllCounted A (System.initial ⟨true, maxConn, cooldown⟩) where
  ebpf := rfl
  counted c r hr := by cases hr
  keys a ha := absurd ha (BoundedMap.notMem_empty a)

/-- While the clients fit into the map, an update without fault never fails. -/
theorem AllCounted.takesSlot (hA : A.card ≤ maxEntries) (hs : AllCounted A s)
    {peer : SockaddrIn} (hpeer : peer.sinAddr ∈ A) : takesSlot false s.server peer = true := by
  rw [takesSlot_iff hs.ebpf]
  refine ⟨rfl, ?_⟩
  by_cases hmem : peer.sinAddr ∈ s.server.counters
  · exact .inl hmem
  · exact .inr (BoundedMap.size_lt_of_keys_subset hA hs.keys hpeer hmem)

theorem allCounted_step (hA : A.card ≤ maxEntries)
    (he : e.NoFault ∧ ∀ a, e.opener = some a → a ∈ A) (hs : AllCounted A s)
    (h : step s e = some s') : AllCounted A s' := by
  have hmode := (step_hasEBPF h).trans hs.ebpf
  obtain ⟨c, peer, fault, now, rfl, -, rfl⟩ | ⟨c, peer, r, rfl, hr, rfl⟩ |
    ⟨c, fault, now, r, rfl, hr, rfl⟩ := step_cases h
  · have hpeer : peer.sinAddr ∈ A := he.2 _ rfl
    obtain rfl : fault = false := he.1
    refine ⟨hmode, fun c' r' hr' => ?_, fun a ha => ?_⟩
    · obtain ⟨-, rfl⟩ | hold := Table.lookup_insert_cases hr'
      · -- the map has room, so the new connection is counted
        exact hs.takesSlot hA hpeer
      · exact hs.counted c' r' hold
    · rw [httpServerOnNewConn_counters false now c (.inet peer) hs.ebpf,
        mem_equicIncCounter] at ha
      rcases ha with ha | ⟨rfl, -⟩
      · exact hs.keys a ha
      · exact hpeer
  · refine ⟨hmode, fun c' r' hr' => ?_, hs.keys⟩
    obtain ⟨rfl, rfl⟩ | hold := Table.lookup_insert_cases hr'
    · exact hs.counted c' r hr
    · exact hs.counted c' r' hold
  · refine ⟨hmode, fun c' r' hr' => ?_, fun a ha => ?_⟩
    · exact hs.counted c' r' (Table.lookup_of_erase hr')
    · rw [httpServerOnConnClosed_counters fault now (.inet r.peer) hs.ebpf,
        mem_equicDecCounter] at ha
      exact hs.keys a ha

/-- With every connection counted, the two ways of counting agree. -/
theorem AllCounted.countsOpened_iff (hs : AllCounted A s) :
    CountsOpened s ↔ CountsCounted s := by
  have hsame : ∀ a, openFrom s a = countedFrom s a := by
    intro a
    unfold openFrom countedFrom holders
    apply Table.count_congr
    intro c r hr
    simp [openSlot, countedSlot, hs.counted c r hr]
  simp only [CountsOpened, CountsCounted, hsame]

/-- With every connection counted and no faults, keeping the balance means closing where
    the connection was opened. -/
theorem AllCounted.keepsBalance_iff (hA : A.card ≤ maxEntries)
    (he : e.NoFault ∧ ∀ a, e.opener = some a → a ∈ A) (hs : AllCounted A s) :
    KeepsBalance s e ↔ ClosesWhereOpened s e := by
  cases e with
  | newConn c peer fault now =>
    obtain rfl : fault = false := he.1
    simp [KeepsBalance, ClosesWhereOpened, hs.takesSlot hA (he.2 _ rfl)]
  | migrate c peer => rfl
  | connClosed c fault now =>
    obtain rfl : fault = false := he.1
    apply forall₂_congr
    intro r hr
    simp [hs.counted c r hr]

end AllCounted

/-- **Address changes.** Let connections be opened from at most 1024 addresses, with no
    other reason for an update to fail, and let peer addresses change at will. The counter
    of every address is the number of open connections that were opened from it, in every
    state of a run, if and only if every connection is closed at the address it was opened
    from and no counter overflows. -/
theorem ebpf_countsOpened_iff (maxConn : UInt32) (cooldown : Bool) (es : List Event)
    (hpeers : (peersSeen es).card ≤ maxEntries) (hfault : ∀ e ∈ es, e.NoFault) :
    StatesAlong step CountsOpened (System.initial ⟨true, maxConn, cooldown⟩) es ↔
      StepsAlong step ClosesWhereOpened (System.initial ⟨true, maxConn, cooldown⟩) es := by
  refine statesAlong_iff_stepsAlong (I := AllCounted (peersSeen es))
    (E := fun e => e.NoFault ∧ ∀ a, e.opener = some a → a ∈ peersSeen es) ?_ ?_
    (allCounted_initial maxConn cooldown) (fun _ => rfl) ?_
  · exact fun s e s' he hI _ h => allCounted_step hpeers he hI h
  · intro s e s' he hI hs h
    rw [(allCounted_step hpeers he hI h).countsOpened_iff,
      countsCounted_step_iff hI.ebpf (hI.countsOpened_iff.mp hs) h, hI.keepsBalance_iff hpeers he]
  · exact fun e he => ⟨hfault e he, fun a ha => mem_peersSeen.mpr ⟨e, he, ha⟩⟩

/-- A connection that changes its peer address before it closes. -/
def migratedCloseRun : List Event :=
  let now : Timespec := ⟨0, 0⟩
  [.newConn 1 ⟨4433, ⟨192, 168, 0, 7⟩⟩ false now, .migrate 1 ⟨4433, ⟨192, 168, 0, 8⟩⟩,
    .connClosed 1 false now]

/-- The characterization at `migratedCloseRun`. -/
theorem ebpf_countsOpened_iff_migratedCloseRun :
    StatesAlong step CountsOpened (System.initial ⟨true, 0, false⟩) migratedCloseRun ↔
      StepsAlong step ClosesWhereOpened (System.initial ⟨true, 0, false⟩) migratedCloseRun :=
  ebpf_countsOpened_iff 0 false migratedCloseRun (by decide) (by decide)

/-- The close misses the counter that the open raised: no connection is open any more, and
    the counter of the address it was opened from is still 1. -/
theorem migratedCloseRun_not_countsOpened :
    (peersSeen migratedCloseRun).card ≤ maxEntries ∧ (∀ e ∈ migratedCloseRun, e.NoFault) ∧
      ¬ StatesAlong step CountsOpened (System.initial ⟨true, 0, false⟩) migratedCloseRun := by
  refine ⟨by decide, by decide, fun h => ?_⟩
  have hlast := h.get_exec (by decide +kernel) ⟨192, 168, 0, 7⟩
  exact absurd hlast (by decide +kernel)

/-! ## §5 Fixed addresses from a bounded set -/

/-- eBPF mode with fixed peer addresses from `A`, all connections counted, and every
    counter exact. -/
structure CountsExactly (A : Finset InAddr) (s : System) : Prop where
  allCounted : AllCounted A s
  peersKept : PeersKept s
  countsOpened : CountsOpened s

section CountsExactly

variable {A : Finset InAddr} {s s' : System} {e : Event} {c : ConnId}

theorem countsExactly_initial (A : Finset InAddr) (maxConn : UInt32) (cooldown : Bool) :
    CountsExactly A (System.initial ⟨true, maxConn, cooldown⟩) where
  allCounted := allCounted_initial maxConn cooldown
  peersKept := peersKept_initial _
  countsOpened _ := rfl

/-- Away from `INT_MAX` every callback keeps the counters exact. -/
theorem countsExactly_step (hA : A.card ≤ maxEntries) (hs : CountsExactly A s)
    (h : step s e = some s') (hrange : ∀ a, (openFrom s a : ℤ) < CInt.max) (hfault : e.NoFault)
    (hkeeps : e.KeepsPeer) (hopener : ∀ a, e.opener = some a → a ∈ A) : CountsExactly A s' := by
  have hcounted : AllCounted A s' := allCounted_step hA ⟨hfault, hopener⟩ hs.allCounted h
  -- fixed addresses and small counters are what the balance needs
  have hcloses : ClosesWhereOpened s e := by
    cases e with
    | newConn c peer fault now =>
      show level s.server.counters peer.sinAddr < CInt.max
      rw [hs.countsOpened]
      exact hrange _
    | migrate c peer => trivial
    | connClosed c fault now =>
      intro r hr
      rw [hs.peersKept c r hr]
  refine ⟨hcounted, peersKept_step hkeeps hs.peersKept h, ?_⟩
  rw [hcounted.countsOpened_iff]
  apply (countsCounted_step_iff hs.allCounted.ebpf ?_ h).mpr
  · exact (hs.allCounted.keepsBalance_iff hA ⟨hfault, hopener⟩).mpr hcloses
  · exact hs.allCounted.countsOpened_iff.mp hs.countsOpened

/-- An open callback counts for the peer and for nobody else. -/
theorem openFrom_newConn {peer : SockaddrIn} {fault : Bool} {now : Timespec}
    (h : step s (.newConn c peer fault now) = some s') (a : InAddr) :
    openFrom s' a = openFrom s a + if peer.sinAddr = a then 1 else 0 := by
  obtain ⟨hc, rfl⟩ := newConn_of_step h
  unfold openFrom
  rw [holders_insert hc]
  simp [openSlot]

/-- A close callback takes away the connection it is about. -/
theorem openFrom_connClosed {fault : Bool} {now : Timespec} {r : Conn}
    (h : step s (.connClosed c fault now) = some s') (hr : s.live.lookup c = some r)
    (a : InAddr) :
    openFrom s a = openFrom s' a + if r.openedFrom.sinAddr = a then 1 else 0 := by
  simp only [step, hr] at h
  obtain rfl := Option.some.inj h
  unfold openFrom
  rw [holders_eq_erase_add hr]
  simp [openSlot]

end CountsExactly

end Equic.Accounting
