import Equic.Accounting.Ebpf
import Equic.Kern.UdpQuota

/-!
# Kernel and user space, interleaved

eBPF mode as the network sees it. `udp_quota` decides a packet when it arrives; a passed
packet waits in the receive queue of the server; the server takes it out at some later
time, and only if it then completes a connection setup does `equic_inc_counter` run. So the
verdict is taken on a counter that may have moved when the connection comes into being.

`openWithinQuota_iff` says exactly when the quota still bounds the number of open
connections: in the runs in which no setup relies on a verdict that is out of date.
-/

namespace Equic.Accounting

open Equic.Foundation Equic.Net Equic.Kern Equic.User Equic.Server

/-! ## §1 The receive queue between the two -/

/-- The server together with the packets that passed the kernel and wait for it. -/
structure Host where
  system : System
  queue : List Packet

/-- One step of a client, the kernel or the server. -/
inductive HostEvent where
  /-- A packet reaches the interface. -/
  | send (p : Packet)
  /-- The server takes the `i`-th packet, which completes no connection setup. -/
  | read (i : ℕ)
  /-- The server takes the `i`-th packet, which completes the setup of connection `c`. -/
  | setup (i : ℕ) (c : ConnId) (now : Timespec)
  /-- An open connection closes. -/
  | close (c : ConnId) (now : Timespec)

def hostStep (s : Host) : HostEvent → Option Host
  | .send p =>
    -- only `XDP_PASS` lets the packet reach the socket
    if udpQuota p.frame s.system.server.counters = some .pass then
      some { s with queue := s.queue ++ [p] }
    else some s
  | .read i =>
    if i < s.queue.length then some { s with queue := s.queue.eraseIdx i } else none
  | .setup i c now =>
    match s.queue[i]? with
    | none => none
    | some p =>
      (step s.system (.newConn c p.peer false now)).map fun system =>
        { system := system, queue := s.queue.eraseIdx i }
  | .close c now =>
    (step s.system (.connClosed c false now)).map fun system => { s with system := system }

/-- An eBPF server with nothing in its queue. -/
def Host.initial (maxConn : UInt32) (cooldown : Bool) : Host where
  system := System.initial ⟨true, maxConn, cooldown⟩
  queue := []

/-- The addresses that send packets. -/
def senders (es : List HostEvent) : Finset InAddr :=
  (es.filterMap fun
    | .send p => some p.peer.sinAddr
    | _ => none).toFinset

theorem mem_senders {es : List HostEvent} {p : Packet} (h : .send p ∈ es) :
    p.peer.sinAddr ∈ senders es := by
  unfold senders
  rw [List.mem_toFinset, List.mem_filterMap]
  exact ⟨.send p, h, rfl⟩

/-- Everything a step of the host can be: it moves a packet and leaves the server alone, or
    it runs one callback. -/
theorem hostStep_cases {s s' : Host} {e : HostEvent} (h : hostStep s e = some s') :
    (s'.system = s.system ∧ (∀ i c now, e ≠ .setup i c now) ∧
      ∀ p ∈ s'.queue, p ∈ s.queue ∨ e = .send p) ∨
    (∃ i c now p, e = .setup i c now ∧ s.queue[i]? = some p ∧
      step s.system (.newConn c p.peer false now) = some s'.system ∧
        ∀ q ∈ s'.queue, q ∈ s.queue) ∨
    (∃ c now, e = .close c now ∧ s'.queue = s.queue ∧
      step s.system (.connClosed c false now) = some s'.system) := by
  cases e with
  | send p =>
    refine .inl ?_
    simp only [hostStep] at h
    split at h
    · obtain rfl := Option.some.inj h
      refine ⟨rfl, by simp, fun q hq => ?_⟩
      rcases List.mem_append.mp hq with hold | hnew
      · exact .inl hold
      · rw [List.mem_singleton.mp hnew]
        exact .inr rfl
    · obtain rfl := Option.some.inj h
      exact ⟨rfl, by simp, fun q hq => .inl hq⟩
  | read i =>
    refine .inl ?_
    simp only [hostStep] at h
    split at h
    · obtain rfl := Option.some.inj h
      exact ⟨rfl, by simp, fun q hq => .inl (List.mem_of_mem_eraseIdx hq)⟩
    · cases h
  | setup i c now =>
    refine .inr (.inl ?_)
    simp only [hostStep] at h
    split at h
    · cases h
    · rename_i p hp
      obtain ⟨system, hstep, rfl⟩ := Option.map_eq_some_iff.mp h
      exact ⟨i, c, now, p, rfl, hp, hstep, fun q hq => List.mem_of_mem_eraseIdx hq⟩
  | close c now =>
    refine .inr (.inr ?_)
    simp only [hostStep] at h
    obtain ⟨system, hstep, rfl⟩ := Option.map_eq_some_iff.mp h
    exact ⟨c, now, rfl, rfl, hstep⟩

/-! ## §2 The quota as a bound -/

/-- No address has more open connections than the quota. -/
def OpenWithinQuota (s : Host) : Prop := ∀ a, (openFrom s.system a : ℤ) ≤ quicQuotaLimit

/-- A setup whose verdict is not out of date: at the time of the setup `udp_quota` would
    still pass the packet. -/
def FreshVerdict (s : Host) : HostEvent → Prop
  | .setup i _ _ => ∀ p, s.queue[i]? = some p →
      udpQuota p.frame s.system.server.counters = some .pass
  | _ => True

/-- What holds of the host while the quota does: the counters are exact, and every packet
    in the queue is from one of the addresses of `A`. -/
structure HostCountsExactly (A : Finset InAddr) (s : Host) : Prop where
  system : CountsExactly A s.system
  senders : ∀ p ∈ s.queue, p.peer.sinAddr ∈ A

theorem hostCountsExactly_initial (A : Finset InAddr) (maxConn : UInt32) (cooldown : Bool) :
    HostCountsExactly A (Host.initial maxConn cooldown) where
  system := countsExactly_initial A maxConn cooldown
  senders p hp := by cases hp

section Step

variable {A : Finset InAddr} {s s' : Host} {e : HostEvent}

theorem hostCountsExactly_step (hA : A.card ≤ maxEntries)
    (he : ∀ p, e = .send p → p.peer.sinAddr ∈ A) (hs : HostCountsExactly A s)
    (hquota : OpenWithinQuota s) (h : hostStep s e = some s') : HostCountsExactly A s' := by
  -- below the quota a counter is far from overflowing
  have hrange : ∀ a, (openFrom s.system a : ℤ) < CInt.max :=
    fun a => lt_of_le_of_lt (hquota a) (by decide)
  obtain ⟨hsystem, -, hqueue⟩ | ⟨i, c, now, p, rfl, hp, hstep, hqueue⟩ |
    ⟨c, now, rfl, hqueue, hstep⟩ := hostStep_cases h
  · -- the queue only grows by what is sent
    refine ⟨by rw [hsystem]; exact hs.system, fun p hp => ?_⟩
    rcases hqueue p hp with hold | hsent
    · exact hs.senders p hold
    · exact he p hsent
  · refine ⟨countsExactly_step hA hs.system hstep hrange rfl trivial ?_,
      fun q hq => hs.senders q (hqueue q hq)⟩
    rintro a ha
    obtain rfl : p.peer.sinAddr = a := Option.some.inj ha
    exact hs.senders p (List.mem_of_getElem? hp)
  · refine ⟨countsExactly_step hA hs.system hstep hrange rfl trivial ?_, ?_⟩
    · rintro a ha
      cases ha
    · rw [hqueue]
      exact hs.senders

/-- A step keeps the quota precisely if it relies on no verdict that is out of date. -/
theorem openWithinQuota_step_iff (hs : HostCountsExactly A s) (hquota : OpenWithinQuota s)
    (h : hostStep s e = some s') : OpenWithinQuota s' ↔ FreshVerdict s e := by
  obtain ⟨hsystem, hno, -⟩ | ⟨i, c, now, p, rfl, hp, hstep, -⟩ |
    ⟨c, now, rfl, -, hstep⟩ := hostStep_cases h
  · -- steps of clients and of the kernel open nothing
    have hfresh : FreshVerdict s e := by
      cases e with
      | setup i c now => exact absurd rfl (hno i c now)
      | send p => trivial
      | read i => trivial
      | close c now => trivial
    have hkeep : OpenWithinQuota s' := by
      unfold OpenWithinQuota
      rw [hsystem]
      exact hquota
    exact iff_of_true hkeep hfresh
  · -- the new connection fits exactly if its sender is still below the quota
    have hpass : FreshVerdict s (.setup i c now) ↔
        (openFrom s.system p.peer.sinAddr : ℤ) < quicQuotaLimit := by
      rw [← hs.system.countsOpened, ← udpQuota_eq_pass_iff p.wellFormed]
      simp [FreshVerdict, hp]
    rw [hpass]
    have hopen := openFrom_newConn hstep
    constructor
    · intro hquota'
      have hself := hquota' p.peer.sinAddr
      rw [hopen, if_pos rfl] at hself
      push_cast at hself
      omega
    · intro hlt a
      rw [hopen]
      have ha := hquota a
      split
      · rename_i hpeer
        rw [hpeer] at hlt
        push_cast
        omega
      · simpa using ha
  · -- a close only lowers the number of open connections
    refine iff_of_true (fun a => ?_) trivial
    obtain ⟨r, hr, -⟩ := connClosed_of_step hstep
    have hsplit := openFrom_connClosed hstep hr a
    have ha := hquota a
    omega

end Step

/-- **The quota under interleaving.** Let packets come from at most 1024 addresses. No
    address ever has more open connections than the quota, in a run of clients, kernel and
    server in any order, if and only if every setup of the run completes while `udp_quota`
    would still pass its packet. -/
theorem openWithinQuota_iff (maxConn : UInt32) (cooldown : Bool) (es : List HostEvent)
    (hsenders : (senders es).card ≤ maxEntries) :
    StatesAlong hostStep OpenWithinQuota (Host.initial maxConn cooldown) es ↔
      StepsAlong hostStep FreshVerdict (Host.initial maxConn cooldown) es := by
  apply statesAlong_iff_stepsAlong (I := HostCountsExactly (senders es))
    (E := fun e => ∀ p, e = .send p → p.peer.sinAddr ∈ senders es)
  · exact fun s e s' he hI hP h => hostCountsExactly_step hsenders he hI hP h
  · exact fun s e s' _ hI hP h => openWithinQuota_step_iff hI hP h
  · exact hostCountsExactly_initial _ maxConn cooldown
  · exact fun a => show (0 : ℤ) ≤ 5 by decide
  · rintro e he p rfl
    exact mem_senders he

/-- Six packets of one client pass before the server takes the first of them, and each of
    them completes a setup. -/
def staleVerdictRun : List HostEvent :=
  let p := packetFrom ⟨4433, ⟨192, 168, 0, 7⟩⟩
  let now : Timespec := ⟨0, 0⟩
  [.send p, .send p, .send p, .send p, .send p, .send p,
    .setup 0 1 now, .setup 0 2 now, .setup 0 3 now, .setup 0 4 now, .setup 0 5 now,
    .setup 0 6 now]

/-- The characterization at `staleVerdictRun`. -/
theorem openWithinQuota_iff_staleVerdictRun :
    StatesAlong hostStep OpenWithinQuota (Host.initial 0 false) staleVerdictRun ↔
      StepsAlong hostStep FreshVerdict (Host.initial 0 false) staleVerdictRun :=
  openWithinQuota_iff 0 false staleVerdictRun (by decide)

/-- All six verdicts were taken on an empty map: six connections of one address end up
    open. -/
theorem staleVerdictRun_not_openWithinQuota :
    (senders staleVerdictRun).card ≤ maxEntries ∧
      ¬ StatesAlong hostStep OpenWithinQuota (Host.initial 0 false) staleVerdictRun := by
  refine ⟨by decide, fun h => ?_⟩
  have hlast := h.get_exec (by decide +kernel) ⟨192, 168, 0, 7⟩
  exact absurd hlast (by decide +kernel)

end Equic.Accounting
