import Equic.Accounting.Capacity
import Mathlib.Data.Finset.Option

/-!
# Which clients the kernel limits

`udp_quota` can only drop frames of an address that has an entry. Entries are never
deleted, so whether an address has one depends on the whole history of the run:
`mem_counters_iff_seenEarly` characterizes the key set by the order in which clients
arrived. Together with the exact accounting this decides in which runs the quota is
enforced for every client.
-/

namespace Equic.Accounting

open Equic.Foundation Equic.Net Equic.Kern Equic.User Equic.Server

/-! ## §1 The history of the key set -/

/-- Some connection was opened from `a` while fewer than 1024 other addresses had been
    seen. -/
def SeenEarly (es : List Event) (a : InAddr) : Prop :=
  ∃ pre e suf, es = pre ++ e :: suf ∧ e.opener = some a ∧
    ((peersSeen pre).erase a).card < maxEntries

theorem seenEarly_snoc {es : List Event} {e : Event} {a : InAddr} :
    SeenEarly (es ++ [e]) a ↔
      SeenEarly es a ∨ e.opener = some a ∧ ((peersSeen es).erase a).card < maxEntries := by
  constructor
  · rintro ⟨pre, e', suf, heq, hopener, hcard⟩
    -- either the opening event is the last one, or it lies in `es`
    obtain ⟨rfl, rfl, -⟩ | ⟨suf', hes, -⟩ := snoc_eq_append_cons.mp heq
    · exact .inr ⟨hopener, hcard⟩
    · exact .inl ⟨pre, e', suf', hes, hopener, hcard⟩
  · rintro (⟨pre, e', suf, rfl, hopener, hcard⟩ | ⟨hopener, hcard⟩)
    · exact ⟨pre, e', suf ++ [e], by simp, hopener, hcard⟩
    · exact ⟨es, e, [], rfl, hopener, hcard⟩

theorem peersSeen_snoc (es : List Event) (e : Event) :
    peersSeen (es ++ [e]) = peersSeen es ∪ e.opener.toFinset := by
  ext a
  simp [mem_peersSeen, or_and_right, exists_or]

theorem SeenEarly.mem_peersSeen {es : List Event} {a : InAddr} (h : SeenEarly es a) :
    a ∈ peersSeen es := by
  obtain ⟨pre, e, suf, rfl, hopener, -⟩ := h
  exact Server.mem_peersSeen.mpr ⟨e, by simp, hopener⟩

/-- The key set against the history: it holds the addresses seen early, and these are all
    addresses seen until the map is full. -/
structure KeysFollowHistory (es : List Event) (s : System) : Prop where
  ebpf : s.server.ctx.hasEBPF = true
  mem_iff : ∀ a, a ∈ s.server.counters ↔ SeenEarly es a
  all_of_room : s.server.counters.size < maxEntries →
    ∀ a ∈ peersSeen es, a ∈ s.server.counters

/-- A new client gets an entry exactly if fewer than 1024 others came before. -/
theorem KeysFollowHistory.room_iff {es : List Event} {s : System} (hs : KeysFollowHistory es s)
    {a : InAddr} (ha : a ∉ s.server.counters) :
    s.server.counters.size < maxEntries ↔ ((peersSeen es).erase a).card < maxEntries := by
  have hsub : s.server.counters.keySet ⊆ (peersSeen es).erase a := by
    intro b hb
    rw [BoundedMap.mem_keySet] at hb
    refine Finset.mem_erase.mpr ⟨?_, ((hs.mem_iff b).mp hb).mem_peersSeen⟩
    rintro rfl
    exact ha hb
  constructor
  · intro hroom
    -- while there is room every address seen has an entry
    have hsup : (peersSeen es).erase a ⊆ s.server.counters.keySet := by
      intro b hb
      rw [BoundedMap.mem_keySet]
      exact hs.all_of_room hroom b (Finset.mem_of_mem_erase hb)
    have hle := Finset.card_le_card hsup
    rw [BoundedMap.card_keySet] at hle
    omega
  · intro hcard
    have hle := Finset.card_le_card hsub
    rw [BoundedMap.card_keySet] at hle
    omega

theorem keysFollowHistory_step {es : List Event} {s s' : System} {e : Event} (he : e.NoFault)
    (hs : KeysFollowHistory es s) (h : step s e = some s') :
    KeysFollowHistory (es ++ [e]) s' := by
  have hmem := mem_counters_step_iff hs.ebpf h
  -- an event opens from `a` and takes a slot exactly if `a` had an entry or was early
  have hkey : ∀ a, a ∈ s'.server.counters ↔ a ∈ s.server.counters ∨
      e.opener = some a ∧ ((peersSeen es).erase a).card < maxEntries := by
    intro a
    rw [hmem]
    by_cases ha : a ∈ s.server.counters
    · simp [ha]
    · -- for a new key, being early is the same as finding room
      simp only [ha, false_or, ← hs.room_iff ha]
      constructor
      · rintro ⟨c, peer, fault, now, rfl, rfl, htakes⟩
        obtain ⟨-, hin | hroom⟩ := (takesSlot_iff hs.ebpf).mp htakes
        · exact absurd hin ha
        · exact ⟨rfl, hroom⟩
      · rintro ⟨hopener, hroom⟩
        cases e with
        | newConn c peer fault now =>
          obtain rfl : peer.sinAddr = a := Option.some.inj hopener
          exact ⟨c, peer, fault, now, rfl, rfl, (takesSlot_iff hs.ebpf).mpr ⟨he, .inr hroom⟩⟩
        | migrate c peer => cases hopener
        | connClosed c fault now => cases hopener
  refine ⟨(step_hasEBPF h).trans hs.ebpf, fun a => ?_, fun hroom a ha => ?_⟩
  · rw [hkey, seenEarly_snoc, hs.mem_iff]
  · -- a map that has room now had room before
    have hroom₀ : s.server.counters.size < maxEntries := by
      rcases s.server.counters.size_le.lt_or_eq with hlt | hfull
      · exact hlt
      · rw [size_counters_step_of_full hs.ebpf hfull h] at hroom
        exact absurd hroom (lt_irrefl _)
    rw [peersSeen_snoc, Finset.mem_union] at ha
    rcases ha with hold | hnew
    · exact (hmem a).mpr (.inl (hs.all_of_room hroom₀ a hold))
    · rw [Option.mem_toFinset, Option.mem_def] at hnew
      rw [hkey]
      by_cases hin : a ∈ s.server.counters
      · exact .inl hin
      · exact .inr ⟨hnew, (hs.room_iff hin).mp hroom₀⟩

/-- **The key set of the map.** Without update faults an address has an entry exactly if
    it opened a connection while fewer than 1024 other addresses had been seen. -/
theorem mem_counters_iff_seenEarly {maxConn : UInt32} {cooldown : Bool} {es : List Event}
    {t : System} (hes : ∀ e ∈ es, e.NoFault)
    (h : exec step (System.initial ⟨true, maxConn, cooldown⟩) es = some t) (a : InAddr) :
    a ∈ t.server.counters ↔ SeenEarly es a := by
  have hinit : KeysFollowHistory [] (System.initial ⟨true, maxConn, cooldown⟩) := by
    refine ⟨rfl, fun a => ⟨fun ha => absurd ha (BoundedMap.notMem_empty a), ?_⟩, ?_⟩
    · rintro ⟨pre, e, suf, heq, -⟩
      simp at heq
    · rintro - a ha
      simp [peersSeen] at ha
  have hrun : (∀ e ∈ es, e.NoFault) → KeysFollowHistory es t := by
    refine exec_induction
      (P := fun es t => (∀ e ∈ es, e.NoFault) → KeysFollowHistory es t) (fun _ => hinit) ?_ h
    intro es m e t _ hm hstep hes
    refine keysFollowHistory_step (hes e (by simp)) (hm fun e' he' => hes e' ?_) hstep
    exact List.mem_append_left _ he'
  exact (hrun hes).mem_iff a

/-! ## §2 Enforcement -/

/-- The addresses with an open connection. -/
def activePeers (s : System) : Finset InAddr :=
  (s.live.entries.map fun e => e.2.openedFrom.sinAddr).toFinset

/-- The kernel drops every well-formed frame of an address that has reached the quota, at
    least while no more than 1024 addresses have an open connection. -/
def QuotaEnforced (s : System) : Prop :=
  (activePeers s).card ≤ maxEntries →
    ∀ a frame, UdpFrameFrom a frame → quicQuotaLimit ≤ openFrom s a →
      udpQuota frame s.server.counters = some .drop

/-- Every address that has reached the quota, in a state of the run with no more than 1024
    active addresses, opened a connection while fewer than 1024 others had been seen. -/
def HeavyPeersSeenEarly (cfg : Config) (es : List Event) : Prop :=
  ∀ pre t, pre <+: es → exec step (System.initial cfg) pre = some t →
    (activePeers t).card ≤ maxEntries →
      ∀ a, quicQuotaLimit ≤ openFrom t a → SeenEarly pre a

section Enforcement

variable {maxConn : UInt32} {cooldown : Bool} {es : List Event} (hes : PlainRun es)

include hes

theorem mem_counters_iff_seenEarly_along {pre : List Event} {t : System} (hpre : pre <+: es)
    (hexec : exec step (System.initial ⟨true, maxConn, cooldown⟩) pre = some t) (a : InAddr) :
    a ∈ t.server.counters ↔ SeenEarly pre a :=
  mem_counters_iff_seenEarly (fun e he => (hes e (hpre.subset he)).2) hexec a

/-- A client that reaches the quota unseen is not dropped, whether a counter overflows in the
    run or not. -/
theorem heavyPeersSeenEarly_of_enforced
    (henforced : StatesAlong step QuotaEnforced (System.initial ⟨true, maxConn, cooldown⟩) es) :
    HeavyPeersSeenEarly ⟨true, maxConn, cooldown⟩ es := by
  intro pre t hpre hexec hactive a hquota
  have hdrop := statesAlong_iff_exec.mp henforced pre t hpre hexec hactive a (udpFrame a)
    (udpFrame_udpFrameFrom a) hquota
  rw [udpQuota_eq_drop_iff (udpFrame_udpFrameFrom a)] at hdrop
  rw [← mem_counters_iff_seenEarly_along hes hpre hexec]
  -- a dropped address has a positive counter, hence an entry
  apply mem_of_level_ne_zero
  have hlimit : (0 : ℤ) < quicQuotaLimit := by decide
  omega

theorem enforced_of_heavyPeersSeenEarly
    (hopen : StatesAlong step EachBelowIntRange (System.initial ⟨true, maxConn, cooldown⟩) es)
    (hearly : HeavyPeersSeenEarly ⟨true, maxConn, cooldown⟩ es) :
    StatesAlong step QuotaEnforced (System.initial ⟨true, maxConn, cooldown⟩) es := by
  have htracks := statesAlong_iff_exec.mp (tracksOpen_along hes hopen)
  rw [statesAlong_iff_exec]
  intro pre t hpre hexec hactive a frame hframe hquota
  rw [(htracks pre t hpre hexec).udpQuota_drop_iff hframe,
    mem_counters_iff_seenEarly_along hes hpre hexec]
  exact ⟨hearly pre t hpre hexec hactive a hquota, hquota⟩

end Enforcement

/-- **Enforcement of the quota.** Over any number of clients with fixed addresses, none of
    which has so many connections open that its `int` counter overflows, the quota is enforced
    in every state of a run if and only if every address that reaches it was seen early. -/
theorem ebpf_enforced_iff (maxConn : UInt32) (cooldown : Bool) (es : List Event)
    (hes : PlainRun es)
    (hopen : StatesAlong step EachBelowIntRange (System.initial ⟨true, maxConn, cooldown⟩) es) :
    StatesAlong step QuotaEnforced (System.initial ⟨true, maxConn, cooldown⟩) es ↔
      HeavyPeersSeenEarly ⟨true, maxConn, cooldown⟩ es :=
  ⟨heavyPeersSeenEarly_of_enforced hes, enforced_of_heavyPeersSeenEarly hes hopen⟩

/-- The `i`-th visitor. -/
def visitor (i : ℕ) : SockaddrIn := ⟨4433, ⟨10, 0, UInt8.ofNat (i / 256), UInt8.ofNat (i % 256)⟩⟩

/-- One client opens `n` connections and keeps them. -/
def opens (peer : SockaddrIn) : ℕ → List Event
  | 0 => []
  | n + 1 => opens peer n ++ [.newConn n peer false ⟨0, 0⟩]

/-- The characterization for the first visitor, who reaches the quota. -/
theorem ebpf_enforced_iff_opens :
    StatesAlong step QuotaEnforced (System.initial ⟨true, 0, false⟩) (opens (visitor 0) 5) ↔
      HeavyPeersSeenEarly ⟨true, 0, false⟩ (opens (visitor 0) 5) :=
  ebpf_enforced_iff 0 false (opens (visitor 0) 5) (by unfold PlainRun; decide)
    (eachBelowIntRange_of_short (by decide))

/-! ## §3 A run that exhausts the map -/

/-- The first `n` visitors open a connection and close it again, one after the other. -/
def visits : ℕ → List Event
  | 0 => []
  | n + 1 => visits n ++ [.newConn n (visitor n) false ⟨0, 0⟩, .connClosed n false ⟨0, 0⟩]

/-- 1024 short visits, then five connections of one further client. -/
def exhaustedMapRun : List Event := visits maxEntries ++ opens (visitor maxEntries) 5

theorem visitor_inj {i j : ℕ} (hi : i ≤ maxEntries) (hj : j ≤ maxEntries)
    (h : (visitor i).sinAddr = (visitor j).sinAddr) : i = j := by
  simp only [visitor, InAddr.mk.injEq, true_and] at h
  have hhigh := congrArg UInt8.toNat h.1
  have hlow := congrArg UInt8.toNat h.2
  simp only [UInt8.toNat_ofNat'] at hhigh hlow
  simp only [maxEntries] at hi hj
  omega

theorem mem_peersSeen_visits {n : ℕ} {a : InAddr} :
    a ∈ peersSeen (visits n) ↔ ∃ i < n, (visitor i).sinAddr = a := by
  induction n with
  | zero => simp [visits, peersSeen]
  | succ n ih =>
    have hsplit : a ∈ peersSeen (visits (n + 1)) ↔
        a ∈ peersSeen (visits n) ∨ (visitor n).sinAddr = a := by
      simp [visits, mem_peersSeen, or_and_right, exists_or, Event.opener]
    rw [hsplit, ih]
    constructor
    · rintro (⟨i, hi, rfl⟩ | rfl)
      · exact ⟨i, by omega, rfl⟩
      · exact ⟨n, by omega, rfl⟩
    · rintro ⟨i, hi, rfl⟩
      rcases Nat.lt_succ_iff_lt_or_eq.mp hi with hlt | rfl
      · exact .inl ⟨i, hlt, rfl⟩
      · exact .inr rfl

theorem card_peersSeen_visits : (peersSeen (visits maxEntries)).card = maxEntries := by
  have himage : peersSeen (visits maxEntries) =
      (Finset.range maxEntries).image fun i => (visitor i).sinAddr := by
    ext a
    simp [mem_peersSeen_visits]
  rw [himage, Finset.card_image_of_injOn, Finset.card_range]
  intro i hi j hj
  simp only [Finset.coe_range, Set.mem_Iio] at hi hj
  exact visitor_inj hi.le hj.le

/-- Nobody who first appears after 1024 others is seen early. -/
theorem seenEarly_append {es fs : List Event} {a : InAddr} (h : SeenEarly (es ++ fs) a) :
    SeenEarly es a ∨ ((peersSeen es).erase a).card < maxEntries := by
  induction fs using List.reverseRecOn with
  | nil => exact .inl (by simpa using h)
  | append_singleton fs e ih =>
    rw [← List.append_assoc, seenEarly_snoc] at h
    rcases h with h | ⟨-, hcard⟩
    · exact ih h
    · refine .inr (lt_of_le_of_lt (Finset.card_le_card ?_) hcard)
      apply Finset.erase_subset_erase a
      intro b hb
      obtain ⟨e', he', hopener⟩ := mem_peersSeen.mp hb
      exact mem_peersSeen.mpr ⟨e', List.mem_append_left _ he', hopener⟩

theorem visitor_not_seenEarly : ¬ SeenEarly exhaustedMapRun (visitor maxEntries).sinAddr := by
  have hnew : (visitor maxEntries).sinAddr ∉ peersSeen (visits maxEntries) := by
    rw [mem_peersSeen_visits]
    rintro ⟨i, hi, hsame⟩
    exact absurd (visitor_inj hi.le le_rfl hsame) hi.ne
  intro h
  rcases seenEarly_append h with hearly | hcard
  · exact hnew hearly.mem_peersSeen
  · rw [Finset.erase_eq_of_notMem hnew, card_peersSeen_visits] at hcard
    exact lt_irrefl _ hcard

/-- A visit leaves no connection behind. -/
theorem exec_visit {s : System} (hs : s.live = ∅) (c : ConnId) (peer : SockaddrIn) :
    ∃ t, exec step s [.newConn c peer false ⟨0, 0⟩, .connClosed c false ⟨0, 0⟩] = some t ∧
      t.live = ∅ := by
  have hfree : c ∉ s.live := by simp [hs]
  obtain ⟨m, hopen, hm⟩ := exists_step_newConn peer false ⟨0, 0⟩ hfree
  have hr : m.live.lookup c = some ⟨peer, peer, takesSlot false s.server peer⟩ := by
    rw [hm, AList.lookup_insert]
  obtain ⟨t, hclose, ht⟩ := exists_step_connClosed false ⟨0, 0⟩ hr
  refine ⟨t, by simp [exec_cons, hopen, hclose], ?_⟩
  rw [ht, hm, hs, AList.insert_empty]
  apply AList.ext
  exact List.kerase_cons_eq rfl

theorem exec_visits (n : ℕ) :
    ∃ t, exec step (System.initial ⟨true, 0, false⟩) (visits n) = some t ∧ t.live = ∅ := by
  induction n with
  | zero => exact ⟨_, rfl, rfl⟩
  | succ n ih =>
    obtain ⟨m, hexec, hm⟩ := ih
    obtain ⟨t, hvisit, ht⟩ := exec_visit hm n (visitor n)
    exact ⟨t, (exec_append_eq_some step).mpr ⟨m, hexec, hvisit⟩, ht⟩

theorem exhaustedMapRun_plainRun : PlainRun exhaustedMapRun := by
  have hvisits : ∀ n, PlainRun (visits n) := by
    intro n
    induction n with
    | zero => simp [PlainRun, visits]
    | succ n ih =>
      intro e he
      rcases List.mem_append.mp he with hold | hnew
      · exact ih e hold
      · simp only [List.mem_cons, List.not_mem_nil, or_false] at hnew
        rcases hnew with rfl | rfl <;> exact ⟨trivial, rfl⟩
  intro e he
  rcases List.mem_append.mp he with hvisit | hopen
  · exact hvisits _ e hvisit
  · simp only [opens, List.nil_append, List.append_assoc, List.mem_append,
      List.mem_singleton] at hopen
    rcases hopen with rfl | rfl | rfl | rfl | rfl <;> exact ⟨trivial, rfl⟩

/-- The state after a client opened `n` connections on a server without any. -/
structure OpensOnly (peer : SockaddrIn) (n : ℕ) (s : System) : Prop where
  handles : ∀ c ∈ s.live, c < n
  peers : ∀ c r, s.live.lookup c = some r → r.openedFrom = peer
  opened : openFrom s peer.sinAddr = n

theorem exec_opens {s : System} (hs : s.live = ∅) (peer : SockaddrIn) (n : ℕ) :
    ∃ t, exec step s (opens peer n) = some t ∧ OpensOnly peer n t := by
  induction n with
  | zero =>
    refine ⟨s, rfl, ?_, ?_, ?_⟩
    · simp [hs]
    · simp [hs]
    · simp [openFrom, hs]
  | succ n ih =>
    obtain ⟨t, hexec, ht⟩ := ih
    have hfree : n ∉ t.live := fun hmem => lt_irrefl _ (ht.handles n hmem)
    obtain ⟨t', hstep, hlive⟩ := exists_step_newConn peer false ⟨0, 0⟩ hfree
    refine ⟨t', (exec_snoc_eq_some step).mpr ⟨t, hexec, hstep⟩, ?_, ?_, ?_⟩
    · intro c hc
      rw [hlive] at hc
      rcases (AList.mem_insert _).mp hc with rfl | hold
      · exact Nat.lt_succ_self _
      · exact (ht.handles c hold).trans (Nat.lt_succ_self _)
    · intro c r hr
      rw [hlive] at hr
      obtain ⟨-, rfl⟩ | hold := Table.lookup_insert_cases hr
      · rfl
      · exact ht.peers c r hold
    · rw [openFrom_newConn hstep, ht.opened, if_pos rfl]

theorem OpensOnly.card_activePeers_le {peer : SockaddrIn} {n : ℕ} {s : System}
    (hs : OpensOnly peer n s) : (activePeers s).card ≤ 1 := by
  have hsub : activePeers s ⊆ {peer.sinAddr} := by
    intro a ha
    simp only [activePeers, List.mem_toFinset, List.mem_map] at ha
    obtain ⟨e, he, rfl⟩ := ha
    rw [hs.peers e.1 e.2 (AList.mem_lookup_iff.mpr he), Finset.mem_singleton]
  exact Finset.card_le_card hsub

/-- After 1024 clients that came and went, the next one reaches the quota without an entry. -/
theorem exhaustedMapRun_not_heavyPeersSeenEarly :
    ¬ HeavyPeersSeenEarly ⟨true, 0, false⟩ exhaustedMapRun := by
  intro hearly
  -- nobody is connected when the client comes, and five connections are all it opens
  obtain ⟨s, hvisits, hs⟩ := exec_visits maxEntries
  obtain ⟨t, hopens, ht⟩ := exec_opens hs (visitor maxEntries) 5
  have hexec : exec step (System.initial ⟨true, 0, false⟩) exhaustedMapRun = some t :=
    (exec_append_eq_some step).mpr ⟨s, hvisits, hopens⟩
  have hactive : (activePeers t).card ≤ maxEntries :=
    ht.card_activePeers_le.trans (by decide)
  have hquota : quicQuotaLimit ≤ openFrom t (visitor maxEntries).sinAddr := by
    rw [ht.opened]
    decide
  exact visitor_not_seenEarly
    (hearly exhaustedMapRun t (List.prefix_refl _) hexec hactive _ hquota)

/-- The kernel does not enforce the quota in `exhaustedMapRun`. -/
theorem exhaustedMapRun_not_quotaEnforced :
    PlainRun exhaustedMapRun ∧
      ¬ StatesAlong step QuotaEnforced (System.initial ⟨true, 0, false⟩) exhaustedMapRun :=
  ⟨exhaustedMapRun_plainRun, mt (heavyPeersSeenEarly_of_enforced exhaustedMapRun_plainRun)
    exhaustedMapRun_not_heavyPeersSeenEarly⟩

end Equic.Accounting
