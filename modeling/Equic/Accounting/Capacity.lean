import Equic.Accounting.Ebpf
import Equic.Kern.UdpQuota

/-!
# Capacity of the counters map

eBPF mode with fixed peer addresses and no update faults, over any number of clients. The
map then only ever grows: `equic_dec_counter` lowers entries and never deletes them, so
after 1024 distinct clients no further client gets an entry, whatever the load is.

For the clients that have an entry the accounting is exact, and the kernel's verdicts
follow from it; the others are passed whatever they do. `ebpf_accounting` says this for
every state of a run.
-/

namespace Equic.Accounting

open Equic.Foundation Equic.Net Equic.Kern Equic.User Equic.Server

/-! ## §1 How the key set moves -/

section Keys

variable {s s' : System} {e : Event}

/-- Only an open callback that goes through adds a key, and nothing removes one. -/
theorem mem_counters_step_iff (hmode : s.server.ctx.hasEBPF = true) (h : step s e = some s')
    (a : InAddr) :
    a ∈ s'.server.counters ↔ a ∈ s.server.counters ∨
      ∃ c peer fault now, e = .newConn c peer fault now ∧ peer.sinAddr = a ∧
        takesSlot fault s.server peer = true := by
  obtain ⟨c, peer, fault, now, rfl, -, rfl⟩ | ⟨c, peer, r, rfl, -, rfl⟩ |
    ⟨c, fault, now, r, rfl, -, rfl⟩ := step_cases h
  · rw [httpServerOnNewConn_counters fault now c (.inet peer) hmode, mem_equicIncCounter]
    simp only [takesSlot, hmode, if_true, Sockaddr.sinAddr_inet]
    constructor
    · rintro (ha | ⟨rfl, hsucc⟩)
      · exact .inl ha
      · exact .inr ⟨c, peer, fault, now, rfl, rfl, hsucc⟩
    · rintro (ha | ⟨c', peer', fault', now', heq, rfl, hsucc⟩)
      · exact .inl ha
      · cases heq
        exact .inr ⟨rfl, hsucc⟩
  · simp
  · rw [httpServerOnConnClosed_counters fault now (.inet r.peer) hmode, mem_equicDecCounter]
    simp

/-- Once the map is full its keys are settled. -/
theorem mem_counters_step_of_full (hmode : s.server.ctx.hasEBPF = true)
    (hfull : s.server.counters.size = maxEntries) (h : step s e = some s') (a : InAddr) :
    a ∈ s'.server.counters ↔ a ∈ s.server.counters := by
  rw [mem_counters_step_iff hmode h, or_iff_left_iff_imp]
  rintro ⟨c, peer, fault, now, rfl, rfl, htakes⟩
  obtain ⟨-, hmem | hroom⟩ := (takesSlot_iff hmode).mp htakes
  · exact hmem
  · omega

theorem size_counters_step_of_full (hmode : s.server.ctx.hasEBPF = true)
    (hfull : s.server.counters.size = maxEntries) (h : step s e = some s') :
    s'.server.counters.size = maxEntries := by
  have hkeys : s'.server.counters.keySet = s.server.counters.keySet := by
    ext a
    simp [mem_counters_step_of_full hmode hfull h]
  rw [← BoundedMap.card_keySet, hkeys, BoundedMap.card_keySet, hfull]

end Keys

/-! ## §2 Exact accounting for the clients in the map -/

/-- eBPF mode, in which the connections counted are those whose address has an entry, and
    the others are there only because the map is full. -/
structure TracksOpen (s : System) : Prop where
  ebpf : s.server.ctx.hasEBPF = true
  peersKept : PeersKept s
  balanced : CountsCounted s
  counted_iff : ∀ c r, s.live.lookup c = some r →
    (r.counted = true ↔ r.openedFrom.sinAddr ∈ s.server.counters)
  full_of_missing : ∀ c r, s.live.lookup c = some r →
    r.openedFrom.sinAddr ∉ s.server.counters → s.server.counters.size = maxEntries

/-- Fewer than 2^31 connections are open at a time. -/
def OpenBelowIntRange (s : System) : Prop := s.live.entries.length < 2 ^ 31

/-- Fewer than 2^31 connections are open from any one address. -/
def EachBelowIntRange (s : System) : Prop := ∀ a, openFrom s a < 2 ^ 31

theorem OpenBelowIntRange.each {s : System} (h : OpenBelowIntRange s) : EachBelowIntRange s :=
  fun _ => (holders_le_length _ _).trans_lt h

theorem tracksOpen_initial (maxConn : UInt32) (cooldown : Bool) :
    TracksOpen (System.initial ⟨true, maxConn, cooldown⟩) where
  ebpf := rfl
  peersKept := peersKept_initial _
  balanced := countsCounted_initial _
  counted_iff c r hr := by cases hr
  full_of_missing c r hr := by cases hr

section TracksOpen

variable {s s' : System} {e : Event}

/-- A close callback of a tracked state keeps the balance: counted connections have an
    entry, and the counter of an uncounted one is 0 for want of an entry. -/
theorem TracksOpen.keepsBalance_connClosed (hs : TracksOpen s) {c : ConnId} {now : Timespec} :
    KeepsBalance s (.connClosed c false now) := by
  intro r hr
  rw [hs.peersKept c r hr]
  split
  · exact ⟨rfl, rfl⟩
  · rename_i hcounted
    have hmem : r.openedFrom.sinAddr ∉ s.server.counters := by
      rwa [← hs.counted_iff c r hr]
    exact .inr (level_of_notMem hmem)

/-- All connections from an address with an entry are counted. -/
theorem TracksOpen.level_eq_openFrom (hs : TracksOpen s) {a : InAddr}
    (ha : a ∈ s.server.counters) : level s.server.counters a = openFrom s a := by
  rw [hs.balanced]
  unfold countedFrom openFrom holders
  rw [Nat.cast_inj]
  -- a connection from `a` is counted in both ways, any other in neither
  apply Table.count_congr
  intro c r hr
  by_cases hkey : r.openedFrom.sinAddr = a
  · have hcounted : r.counted = true := (hs.counted_iff c r hr).mpr (hkey ▸ ha)
    simp [countedSlot, openSlot, hcounted]
  · simp [countedSlot, openSlot, hkey]

/-- An open callback keeps the balance while the connections of its peer fit an `int`. -/
theorem TracksOpen.keepsBalance_newConn (hs : TracksOpen s) {c : ConnId} {peer : SockaddrIn}
    {now : Timespec} (h : step s (.newConn c peer false now) = some s')
    (hopen : EachBelowIntRange s') : KeepsBalance s (.newConn c peer false now) := by
  intro _
  by_cases ha : peer.sinAddr ∈ s.server.counters
  · have hnew := openFrom_newConn h peer.sinAddr
    have hlt := hopen peer.sinAddr
    rw [if_pos rfl] at hnew
    rw [hs.level_eq_openFrom ha, CInt.max]
    omega
  · rw [level_of_notMem ha]
    decide

/-- A new connection takes a slot exactly if its address has an entry afterwards. -/
theorem takesSlot_iff_mem_counters (hmode : s.server.ctx.hasEBPF = true) {c : ConnId}
    {peer : SockaddrIn} {now : Timespec} (h : step s (.newConn c peer false now) = some s') :
    takesSlot false s.server peer = true ↔ peer.sinAddr ∈ s'.server.counters := by
  rw [mem_counters_step_iff hmode h]
  constructor
  · exact fun htakes => .inr ⟨c, peer, false, now, rfl, rfl, htakes⟩
  · rintro (ha | ⟨c', peer', fault', now', heq, -, htakes⟩)
    · exact (takesSlot_iff hmode).mpr ⟨rfl, .inl ha⟩
    · cases heq
      exact htakes

/-- For the connections that are open nothing changes: where one has no entry the map is
    full, and no key is new. -/
theorem TracksOpen.mem_counters_iff_of_live (hs : TracksOpen s) (h : step s e = some s')
    {c : ConnId} {r : Conn} (hr : s.live.lookup c = some r) :
    r.openedFrom.sinAddr ∈ s'.server.counters ↔ r.openedFrom.sinAddr ∈ s.server.counters := by
  by_cases ha : r.openedFrom.sinAddr ∈ s.server.counters
  · exact iff_of_true ((mem_counters_step_iff hs.ebpf h _).mpr (.inl ha)) ha
  · exact mem_counters_step_of_full hs.ebpf (hs.full_of_missing c r hr ha) h _

theorem tracksOpen_step (he : e.KeepsPeer ∧ e.NoFault) (hopen : EachBelowIntRange s')
    (hs : TracksOpen s) (h : step s e = some s') : TracksOpen s' := by
  have hmode := (step_hasEBPF h).trans hs.ebpf
  have hkept := peersKept_step he.1 hs.peersKept h
  -- by `countsCounted_step_iff` it is enough that the callback keeps the balance
  have hbalance : KeepsBalance s e := by
    cases e with
    | newConn c peer fault now =>
      obtain rfl : fault = false := he.2
      exact hs.keepsBalance_newConn h hopen
    | migrate c peer => exact he.1.elim
    | connClosed c fault now =>
      obtain rfl : fault = false := he.2
      exact hs.keepsBalance_connClosed
  have hbal := (countsCounted_step_iff hs.ebpf hs.balanced h).mpr hbalance
  have hsize := size_counters_step_of_full hs.ebpf (h := h)
  -- the records that were there before
  have hold : ∀ c r, s.live.lookup c = some r →
      (r.counted = true ↔ r.openedFrom.sinAddr ∈ s'.server.counters) ∧
        (r.openedFrom.sinAddr ∉ s'.server.counters → s.server.counters.size = maxEntries) := by
    intro c r hr
    rw [hs.mem_counters_iff_of_live h hr]
    exact ⟨hs.counted_iff c r hr, hs.full_of_missing c r hr⟩
  obtain ⟨c, peer, fault, now, rfl, hc, rfl⟩ | ⟨c, peer, r, rfl, -, rfl⟩ |
    ⟨c, fault, now, r, rfl, hr, rfl⟩ := step_cases h
  · obtain rfl : fault = false := he.2
    have hself := takesSlot_iff_mem_counters hs.ebpf h
    refine ⟨hmode, hkept, hbal, fun c' r' hr' => ?_, fun c' r' hr' hmiss => hsize ?_⟩
    · obtain ⟨-, rfl⟩ | hr' := Table.lookup_insert_cases hr'
      · exact hself
      · exact (hold c' r' hr').1
    · obtain ⟨-, rfl⟩ | hr' := Table.lookup_insert_cases hr'
      · -- the new connection itself found no room
        have hno : ¬ takesSlot false s.server peer = true := fun ht => hmiss (hself.mp ht)
        rw [takesSlot_iff hs.ebpf] at hno
        simp only [true_and, not_or, not_lt] at hno
        exact le_antisymm s.server.counters.size_le hno.2
      · exact (hold c' r' hr').2 hmiss
  · exact he.1.elim
  · refine ⟨hmode, hkept, hbal, fun c' r' hr' => ?_, fun c' r' hr' hmiss => hsize ?_⟩
    · exact (hold c' r' (Table.lookup_of_erase hr')).1
    · exact (hold c' r' (Table.lookup_of_erase hr')).2 hmiss

end TracksOpen

/-- What the map says about the open connections, and what the kernel makes of it. -/
structure EbpfAccounted (s : System) : Prop where
  entry_exact : ∀ a v, s.server.counters.lookup a = some v → v.toInt = openFrom s a
  missing : ∀ a, a ∉ s.server.counters →
    openFrom s a = 0 ∨ s.server.counters.size = maxEntries
  drop_iff : ∀ a frame, UdpFrameFrom a frame →
    (udpQuota frame s.server.counters = some .drop ↔
      a ∈ s.server.counters ∧ quicQuotaLimit ≤ openFrom s a)
  pass_below : ∀ a frame, UdpFrameFrom a frame → (openFrom s a : ℤ) < quicQuotaLimit →
    udpQuota frame s.server.counters = some .pass

/-- On an address with an entry the verdict compares the number of open connections with
    the quota; an address without one is passed. -/
theorem TracksOpen.udpQuota_drop_iff {s : System} (hs : TracksOpen s) {a : InAddr} {frame : Frame}
    (hframe : UdpFrameFrom a frame) :
    udpQuota frame s.server.counters = some .drop ↔
      a ∈ s.server.counters ∧ quicQuotaLimit ≤ openFrom s a := by
  rw [udpQuota_eq_drop_iff hframe]
  by_cases ha : a ∈ s.server.counters
  · simp [hs.level_eq_openFrom ha, ha]
  · simp [level_of_notMem ha, ha, quicQuotaLimit]

theorem TracksOpen.ebpfAccounted {s : System} (hs : TracksOpen s) : EbpfAccounted s where
  entry_exact a v hv := by
    rw [← hs.level_eq_openFrom (BoundedMap.mem_of_lookup hv), level_of_lookup hv]
  missing a ha := by
    rcases Nat.eq_zero_or_pos (openFrom s a) with hzero | hpos
    · exact .inl hzero
    · -- a connection without an entry was opened on a full map
      obtain ⟨c, r, hr, hkey⟩ := exists_of_holders_pos hpos
      obtain rfl : r.openedFrom.sinAddr = a := Option.some.inj hkey
      exact .inr (hs.full_of_missing c r hr ha)
  drop_iff a frame hframe := hs.udpQuota_drop_iff hframe
  pass_below a frame hframe hbelow := by
    rw [udpQuota_eq_pass_iff hframe]
    by_cases ha : a ∈ s.server.counters
    · rwa [hs.level_eq_openFrom ha]
    · rw [level_of_notMem ha]
      decide

/-- The close callback does not take the early return of `equic_dec_counter`. -/
def NoZeroReturn (s : System) (e : Event) : Prop :=
  ∀ c fault now r, e = .connClosed c fault now → s.live.lookup c = some r →
    (equicDecCounter fault s.server.counters (.inet r.peer)).2 ≠ .zeroReturn

theorem TracksOpen.noZeroReturn {s : System} (hs : TracksOpen s) (e : Event) :
    NoZeroReturn s e := by
  rintro c fault now r - hr
  rw [Ne, equicDecCounter_eq_zeroReturn_iff, hs.peersKept c r hr]
  intro hzero
  -- the connection that closes is itself one of those the entry counts
  have hmem := BoundedMap.mem_of_lookup hzero
  have hopen : 0 < openFrom s r.openedFrom.sinAddr := holders_pos hr rfl
  have hlevel := hs.level_eq_openFrom hmem
  rw [level_of_lookup hzero] at hlevel
  simp only [Sockaddr.sinAddr_inet] at hlevel
  have hcast : (openFrom s r.openedFrom.sinAddr : ℤ) = 0 := hlevel.symm
  omega

/-- Runs of the callbacks with fixed peer addresses and no update fault. -/
def PlainRun (es : List Event) : Prop := ∀ e ∈ es, e.KeepsPeer ∧ e.NoFault

theorem tracksOpen_along {maxConn : UInt32} {cooldown : Bool} {es : List Event}
    (hes : PlainRun es)
    (hopen : StatesAlong step EachBelowIntRange (System.initial ⟨true, maxConn, cooldown⟩) es) :
    StatesAlong step TracksOpen (System.initial ⟨true, maxConn, cooldown⟩) es :=
  hopen.invariant (fun _ _ _ he hQ hs h => tracksOpen_step he hQ hs h)
    (tracksOpen_initial maxConn cooldown) hes

theorem exec_hasEBPF {s t : System} {es : List Event} (h : exec step s es = some t) :
    t.server.ctx.hasEBPF = s.server.ctx.hasEBPF := by
  refine exec_induction (P := fun _ t => t.server.ctx.hasEBPF = s.server.ctx.hasEBPF) rfl ?_ h
  exact fun es m e t _ hm hstep => (step_hasEBPF hstep).trans hm

/-- An entry once created is never lost. -/
theorem mem_counters_exec {s t : System} {es : List Event} {a : InAddr}
    (hmode : s.server.ctx.hasEBPF = true) (h : exec step s es = some t)
    (ha : a ∈ s.server.counters) : a ∈ t.server.counters := by
  refine exec_induction (P := fun _ t => a ∈ t.server.counters) ha ?_ h
  intro es m e t hm hmem hstep
  exact (mem_counters_step_iff ((exec_hasEBPF hm).trans hmode) hstep a).mpr (.inl hmem)

/-- **eBPF accounting.** Over any number of clients with fixed addresses, with fewer than
    2^31 connections open at a time: every entry counts the open connections of its
    address, an address lacks an entry only if it has no open connection or the map is
    full, and the kernel decides accordingly; entries are never lost; and the early return
    of `equic_dec_counter` is never taken. -/
theorem ebpf_accounting (maxConn : UInt32) (cooldown : Bool) (es : List Event)
    (hes : PlainRun es)
    (hopen : StatesAlong step OpenBelowIntRange (System.initial ⟨true, maxConn, cooldown⟩) es) :
    StatesAlong step EbpfAccounted (System.initial ⟨true, maxConn, cooldown⟩) es ∧
      (∀ pre suf s t, es = pre ++ suf →
        exec step (System.initial ⟨true, maxConn, cooldown⟩) pre = some s →
          exec step s suf = some t → ∀ a ∈ s.server.counters, a ∈ t.server.counters) ∧
      StepsAlong step NoZeroReturn (System.initial ⟨true, maxConn, cooldown⟩) es := by
  have htracks := tracksOpen_along hes (hopen.mono fun _ => OpenBelowIntRange.each)
  refine ⟨htracks.mono fun s hs => hs.ebpfAccounted, ?_, ?_⟩
  · intro pre suf s t _ hpre hsuf a ha
    exact mem_counters_exec (exec_hasEBPF hpre) hsuf ha
  · exact stepsAlong_of_statesAlong (fun s e s' _ hs _ => hs.noZeroReturn e) htracks hes

/-- At most one connection is opened per event. -/
theorem live_length_le {cfg : Config} {es : List Event} {t : System}
    (h : exec step (System.initial cfg) es = some t) : t.live.entries.length ≤ es.length := by
  refine exec_induction (P := fun es t => t.live.entries.length ≤ es.length) le_rfl ?_ h
  intro es m e t _ hm hstep
  have hkeys : ∀ t : Table ConnId Conn, t.entries.length = t.keys.length :=
    fun t => (List.length_map ..).symm
  rw [List.length_append, List.length_singleton]
  obtain ⟨c, peer, fault, now, -, hc, rfl⟩ | ⟨c, peer, r, -, hr, rfl⟩ |
    ⟨c, fault, now, r, -, -, rfl⟩ := step_cases hstep
  · rw [AList.entries_insert_of_notMem hc, List.length_cons]
    omega
  · have hmem : c ∈ m.live.keys := AList.lookup_isSome.mp (by rw [hr]; rfl)
    have hpos := List.length_pos_of_mem hmem
    rw [hkeys, AList.keys_insert, List.length_cons, List.length_erase_of_mem hmem]
    rw [hkeys] at hm
    omega
  · have hle := (List.erase_sublist (a := c) (l := m.live.keys)).length_le
    rw [hkeys, AList.keys_erase]
    rw [hkeys] at hm
    omega

theorem openBelowIntRange_of_short {cfg : Config} {es : List Event} (hes : es.length < 2 ^ 31) :
    StatesAlong step OpenBelowIntRange (System.initial cfg) es := by
  rw [statesAlong_iff_exec]
  intro pre t hpre hexec
  exact lt_of_le_of_lt ((live_length_le hexec).trans hpre.length_le) hes

theorem eachBelowIntRange_of_short {cfg : Config} {es : List Event} (hes : es.length < 2 ^ 31) :
    StatesAlong step EachBelowIntRange (System.initial cfg) es :=
  (openBelowIntRange_of_short hes).mono fun _ => OpenBelowIntRange.each

/-- Two connections from one address, one of which closes. -/
def twoConnRun : List Event :=
  let peer : SockaddrIn := ⟨4433, ⟨192, 168, 0, 7⟩⟩
  let now : Timespec := ⟨0, 0⟩
  [.newConn 1 peer false now, .newConn 2 peer false now, .connClosed 1 false now]

theorem ebpf_accounting_twoConnRun :
    StatesAlong step EbpfAccounted (System.initial ⟨true, 0, false⟩) twoConnRun ∧
      (∀ pre suf s t, twoConnRun = pre ++ suf →
        exec step (System.initial ⟨true, 0, false⟩) pre = some s →
          exec step s suf = some t → ∀ a ∈ s.server.counters, a ∈ t.server.counters) ∧
      StepsAlong step NoZeroReturn (System.initial ⟨true, 0, false⟩) twoConnRun :=
  ebpf_accounting 0 false twoConnRun (by unfold PlainRun; decide)
    (openBelowIntRange_of_short (by decide))

end Equic.Accounting
