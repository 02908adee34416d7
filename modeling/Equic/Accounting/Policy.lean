import Equic.Accounting.Ebpf
import Equic.Accounting.UserSpace
import Equic.Foundation.Admission
import Equic.Kern.UdpQuota

/-!
# One policy, two implementations

The eBPF quota and the user-space quota are meant to be the same policy: admit a connection
attempt while fewer than five connections of its client are open. Here both modes replay
one sequence of attempts and closes, of clients in one /24 network, and are compared with
the policy, `Admission.step`.

- eBPF mode follows the policy in every run (`ebpfFollows_attempt`, `ebpfFollows_close`).
- User-space mode lowers the entry of a client also when a refused attempt of it is closed,
  and follows the policy only until a tainted client is at the limit.

`sameDecisions_iff` puts the two together.
-/

namespace Equic.Accounting

open Equic.Foundation Equic.Net Equic.Kern Equic.User Equic.Server

/-! ## §1 Two replays of one sequence -/

/-- What clients do. The close of an attempt that was refused in user-space mode stands for
    the close callback that `lsquic_conn_close` leads to. -/
inductive ClientEvent where
  | attempt (c : ConnId) (p : Packet) (now : Timespec)
  | close (c : ConnId) (now : Timespec)

/-- Replay in eBPF mode: the server never sees an attempt that the kernel does not pass. -/
def ebpfReplay (s : System) : ClientEvent → Option System
  | .attempt c p now =>
    if udpQuota p.frame s.server.counters = some .pass then step s (.newConn c p.peer false now)
    else some s
  | .close c now => if c ∈ s.live then step s (.connClosed c false now) else some s

/-- Replay in user-space mode: every attempt is opened, and closed at some later point. -/
def userReplay (s : System) : ClientEvent → Option System
  | .attempt c p now => step s (.newConn c p.peer false now)
  | .close c now => step s (.connClosed c false now)

/-- The two replays side by side. -/
structure Replays where
  ebpf : System
  user : System

def replayStep (s : Replays) (e : ClientEvent) : Option Replays :=
  (userReplay s.user e).bind fun user =>
    (ebpfReplay s.ebpf e).map fun ebpf => { ebpf := ebpf, user := user }

def Replays.initial (maxConn : UInt32) (cooldown : Bool) : Replays where
  ebpf := System.initial ⟨true, maxConn, cooldown⟩
  user := System.initial ⟨false, maxConn, cooldown⟩

/-- Both modes accept the attempt, or both refuse it. -/
def SameDecision (s : Replays) : ClientEvent → Prop
  | .attempt _ p _ =>
    udpQuota p.frame s.ebpf.server.counters = some .pass ↔
      (reachedQuotaLimit s.user.server.quotas (.inet p.peer)).1 = false
  | .close .. => True

instance (s : Replays) : DecidablePred (SameDecision s)
  | .attempt .. => inferInstanceAs (Decidable (_ ↔ _))
  | .close .. => inferInstanceAs (Decidable True)

/-! ## §2 The policy of both -/

/-- The limit of the policy, as both modes have it. -/
def policyLimit : ℕ := 5

theorem quicQuotaLimit_eq : quicQuotaLimit = policyLimit := rfl

theorem quotaLimit_eq : quotaLimit = policyLimit := rfl

/-- The event as the policy sees it: clients are IPv4 addresses. -/
def ClientEvent.toAdmission : ClientEvent → AdmissionEvent ConnId InAddr
  | .attempt c p _ => .attempt c p.peer.sinAddr
  | .close c _ => .close c

/-- The clients of the event belong to the network of `net`. -/
def ClientEvent.InNet (net : InAddr) : ClientEvent → Prop
  | .attempt _ p _ => net.SameNet24 p.peer.sinAddr
  | .close .. => True

instance (net : InAddr) : DecidablePred (ClientEvent.InNet net)
  | .attempt _ p _ => inferInstanceAs (Decidable (net.SameNet24 p.peer.sinAddr))
  | .close .. => inferInstanceAs (Decidable True)

/-- The attempt does not come from a client that is tainted and at the limit. -/
def Untainted (t : Admission ConnId InAddr) : AdmissionEvent ConnId InAddr → Prop
  | .attempt _ a => policyLimit ≤ t.openFor a → t.tainted a = false
  | .close _ => True

/-- The addresses of a /24 network. -/
def net24 (net : InAddr) : Finset InAddr :=
  (Finset.range 256).image fun i => ⟨net.o1, net.o2, net.o3, UInt8.ofNat i⟩

theorem mem_net24 {net a : InAddr} (h : net.SameNet24 a) : a ∈ net24 net := by
  obtain ⟨h₁, h₂, h₃⟩ := h
  refine Finset.mem_image.mpr ⟨a.o4.toNat, Finset.mem_range.mpr a.o4.toNat_lt, ?_⟩
  ext
  · rw [h₁]
  · rw [h₂]
  · rw [h₃]
  · simp

theorem card_net24_le (net : InAddr) : (net24 net).card ≤ maxEntries :=
  le_trans Finset.card_image_le (by simp [maxEntries])

/-- A state of the policy in which only clients of `net` take part and the limit is kept. -/
structure PolicyState (net : InAddr) (t : Admission ConnId InAddr) : Prop where
  inNet : ∀ c r, t.attempts.lookup c = some r → net.SameNet24 r.key
  bounded : ∀ a, t.openFor a ≤ policyLimit

section PolicyState

variable {net : InAddr} {t t' : Admission ConnId InAddr} {c : ConnId} {a : InAddr}

theorem policyState_attempt (ht : PolicyState net t) (ha : net.SameNet24 a)
    (h : Admission.step policyLimit t (.attempt c a) = some t') : PolicyState net t' := by
  refine ⟨fun c' r hr => ?_, Admission.openFor_le_step ht.bounded h⟩
  obtain ⟨-, rfl⟩ := Admission.attempt_of_step h
  obtain ⟨-, rfl⟩ | hold := Table.lookup_insert_cases hr
  · exact ha
  · exact ht.inNet c' r hold

theorem policyState_close (ht : PolicyState net t)
    (h : Admission.step policyLimit t (.close c) = some t') : PolicyState net t' := by
  refine ⟨fun c' r hr => ?_, Admission.openFor_le_step ht.bounded h⟩
  obtain ⟨r', -, rfl⟩ := Admission.close_of_step h
  exact ht.inNet c' r (Table.lookup_of_erase hr)

end PolicyState

/-! ## §3 eBPF mode follows the policy -/

/-- The eBPF server against the policy: its connections are the admitted attempts. -/
structure EbpfFollows (net : InAddr) (t : Admission ConnId InAddr) (s : System) : Prop where
  exact : CountsExactly (net24 net) s
  admitted : ∀ c, (s.live.lookup c).map (fun r => r.openedFrom.sinAddr) =
    (t.attempts.lookup c).bind Attempt.slot
  openFrom_eq : ∀ a, openFrom s a = t.openFor a

section EbpfFollows

variable {net : InAddr} {t t' : Admission ConnId InAddr} {s : System} {c : ConnId} {p : Packet}
  {now : Timespec}

/-- The kernel passes an attempt exactly if the policy admits it. -/
theorem EbpfFollows.udpQuota_pass_iff (hs : EbpfFollows net t s) :
    udpQuota p.frame s.server.counters = some .pass ↔ t.openFor p.peer.sinAddr < policyLimit := by
  rw [udpQuota_eq_pass_iff p.wellFormed, hs.exact.countsOpened, hs.openFrom_eq,
    quicQuotaLimit_eq]
  exact Int.ofNat_lt

theorem EbpfFollows.openFrom_lt_max (hs : EbpfFollows net t s) (ht : PolicyState net t)
    (a : InAddr) : (openFrom s a : ℤ) < CInt.max := by
  have hle := ht.bounded a
  rw [hs.openFrom_eq, CInt.max]
  simp only [policyLimit] at hle
  omega

theorem ebpfFollows_attempt (hs : EbpfFollows net t s) (ht : PolicyState net t)
    (hp : net.SameNet24 p.peer.sinAddr)
    (h : Admission.step policyLimit t (.attempt c p.peer.sinAddr) = some t') :
    ∃ s', ebpfReplay s (.attempt c p now) = some s' ∧ EbpfFollows net t' s' := by
  have hopen := Admission.openFor_attempt h
  obtain ⟨hc, rfl⟩ := Admission.attempt_of_step h
  have hnone : t.attempts.lookup c = none := AList.lookup_eq_none.mpr hc
  by_cases hlt : t.openFor p.peer.sinAddr < policyLimit
  · -- admitted: the kernel passes the packet and the open callback runs
    have hfree : c ∉ s.live := by
      have hlookup := hs.admitted c
      rw [hnone] at hlookup
      exact AList.lookup_eq_none.mp (Option.map_eq_none_iff.mp hlookup)
    obtain ⟨s', hstep, hlive⟩ := exists_step_newConn p.peer false now hfree
    refine ⟨s', by rw [ebpfReplay, if_pos (hs.udpQuota_pass_iff.mpr hlt), hstep], ?_, ?_, ?_⟩
    · refine countsExactly_step (card_net24_le net) hs.exact hstep (hs.openFrom_lt_max ht) rfl
        trivial ?_
      rintro a ha
      obtain rfl : p.peer.sinAddr = a := Option.some.inj ha
      exact mem_net24 hp
    · intro c'
      rw [hlive]
      by_cases hcc : c' = c
      · subst hcc
        simp [Attempt.slot, hlt]
      · simpa [AList.lookup_insert_ne hcc] using hs.admitted c'
    · intro a
      rw [openFrom_newConn hstep, hs.openFrom_eq, hopen]
      simp [hlt]
  · -- refused: the kernel drops the packet and the server does not move
    have hdrop := mt hs.udpQuota_pass_iff.mp hlt
    refine ⟨s, by rw [ebpfReplay, if_neg hdrop], hs.exact, ?_, ?_⟩
    · intro c'
      by_cases hcc : c' = c
      · subst hcc
        rw [hs.admitted, hnone]
        simp [Attempt.slot, hlt]
      · simpa [AList.lookup_insert_ne hcc] using hs.admitted c'
    · intro a
      rw [hs.openFrom_eq, hopen]
      simp [hlt]

theorem ebpfFollows_close (hs : EbpfFollows net t s) (ht : PolicyState net t)
    (h : Admission.step policyLimit t (.close c) = some t') :
    ∃ s', ebpfReplay s (.close c now) = some s' ∧ EbpfFollows net t' s' := by
  obtain ⟨r, hr, rfl⟩ := Admission.close_of_step h
  have hopen := Admission.openFor_close hr h
  have hlookup : (s.live.lookup c).map (fun r => r.openedFrom.sinAddr) = r.slot := by
    rw [hs.admitted, hr]
    rfl
  cases hconn : s.live.lookup c with
  | none =>
    -- a refused attempt: the server has never seen it
    have hslot : r.slot = none := by rw [← hlookup, hconn, Option.map_none]
    have hmiss : c ∉ s.live := AList.lookup_eq_none.mp hconn
    refine ⟨s, by rw [ebpfReplay, if_neg hmiss], hs.exact, ?_, ?_⟩
    · intro c'
      by_cases hcc : c' = c
      · subst hcc
        simp [hconn]
      · simpa [AList.lookup_erase_ne hcc] using hs.admitted c'
    · intro a
      rw [hs.openFrom_eq, hopen, hslot]
      simp
  | some conn =>
    -- an admitted attempt: the close callback runs
    have hslot : r.slot = some conn.openedFrom.sinAddr := by
      rw [← hlookup, hconn, Option.map_some]
    have hmem : c ∈ s.live := AList.lookup_isSome.mp (by rw [hconn]; rfl)
    obtain ⟨s', hstep, hlive⟩ := exists_step_connClosed false now hconn
    refine ⟨s', by rw [ebpfReplay, if_pos hmem, hstep], ?_, ?_, ?_⟩
    · refine countsExactly_step (card_net24_le net) hs.exact hstep (hs.openFrom_lt_max ht) rfl
        trivial ?_
      rintro a ha
      cases ha
    · intro c'
      rw [hlive]
      by_cases hcc : c' = c
      · subst hcc
        simp
      · simpa [AList.lookup_erase_ne hcc] using hs.admitted c'
    · intro a
      have hsplit := openFrom_connClosed hstep hconn a
      have ha := hopen a
      rw [hs.openFrom_eq] at hsplit
      rw [hslot] at ha
      simp only [Option.some.injEq] at ha
      omega

end EbpfFollows

/-! ## §4 User-space mode follows it up to a point -/

/-- The user-space server against the policy: its connections are all attempts, and the
    entry of a client is a counter that every close lowers. -/
structure UserFollows (net : InAddr) (t : Admission ConnId InAddr) (s : System) : Prop where
  inRange : QuotasInRange s
  peersKept : PeersKept s
  attempts : ∀ c, t.attempts.lookup c =
    (s.live.lookup c).map fun r => ⟨r.openedFrom.sinAddr, r.counted⟩
  counts : ∀ peer : SockaddrIn, net.SameNet24 peer.sinAddr →
    t.Counts peer.sinAddr (quotaLevel s.server.quotas (quotaIndex (.inet peer)))

/-- Inside the network the index of an entry identifies the client. -/
theorem quotaIndex_inj_net {net : InAddr} {p q : SockaddrIn} (hp : net.SameNet24 p.sinAddr)
    (hq : net.SameNet24 q.sinAddr) :
    quotaIndex (.inet p) = quotaIndex (.inet q) ↔ p.sinAddr = q.sinAddr :=
  quotaIndex_eq_iff (hp.symm.trans hq)

section UserFollows

variable {net : InAddr} {t t' : Admission ConnId InAddr} {s s' : System} {c : ConnId}
  {p : Packet} {now : Timespec}

theorem UserFollows.notMem_iff (hs : UserFollows net t s) : c ∉ t.attempts ↔ c ∉ s.live := by
  rw [← AList.lookup_eq_none, ← AList.lookup_eq_none, hs.attempts, Option.map_eq_none_iff]

/-- A client below the limit is accepted; one at the limit is refused unless it is tainted. -/
theorem UserFollows.accepts_iff (hs : UserFollows net t s) (ht : PolicyState net t)
    (hp : net.SameNet24 p.peer.sinAddr) :
    (reachedQuotaLimit s.server.quotas (.inet p.peer)).1 = false ↔
      t.openFor p.peer.sinAddr < policyLimit ∨ t.tainted p.peer.sinAddr = true := by
  rw [← Bool.not_eq_true, reachedQuotaLimit_iff, not_le, quotaLimit_eq]
  -- an entry falls short of the open connections exactly if the client is tainted
  have hcounts := hs.counts p.peer hp
  have hle := hcounts.le_open
  have hexact := hcounts.exact_iff
  have hbound := ht.bounded p.peer.sinAddr
  rw [← Bool.not_eq_false, ← hexact]
  omega

/-- While the decisions agree, the open callback raises the entry of an admitted client. -/
theorem userFollows_attempt (hs : UserFollows net t s) (hp : net.SameNet24 p.peer.sinAddr)
    (haccepts : (reachedQuotaLimit s.server.quotas (.inet p.peer)).1 = false ↔
      t.openFor p.peer.sinAddr < policyLimit)
    (h : Admission.step policyLimit t (.attempt c p.peer.sinAddr) = some t')
    (hstep : step s (.newConn c p.peer false now) = some s') : UserFollows net t' s' := by
  have htakes : takesSlot false s.server p.peer =
      decide (t.openFor p.peer.sinAddr < policyLimit) := by
    rw [Bool.eq_iff_iff, decide_eq_true_iff, ← haccepts]
    simp [takesSlot, hs.inRange.userSpace]
  have hcounts := fun peer hpeer => (hs.counts peer hpeer).attempt h
  have hrange := quotasInRange_step hs.inRange hstep
  have hkept := peersKept_step (e := .newConn c p.peer false now) trivial hs.peersKept hstep
  obtain ⟨-, rfl⟩ := newConn_of_step hstep
  obtain ⟨-, rfl⟩ := Admission.attempt_of_step h
  refine ⟨hrange, hkept, ?_, ?_⟩
  · intro c'
    by_cases hcc : c' = c
    · subst hcc
      simp [htakes]
    · simpa [AList.lookup_insert_ne hcc] using hs.attempts c'
  · intro peer hpeer
    -- `inc_quota` runs for the client itself, and only if the policy admits the attempt
    have hslot : quotaSlot ⟨p.peer, p.peer, takesSlot false s.server p.peer⟩ =
        some (quotaIndex (.inet peer)) ↔
          p.peer.sinAddr = peer.sinAddr ∧ t.openFor p.peer.sinAddr < policyLimit := by
      rw [quotaSlot, htakes, Option.ite_none_right_eq_some, Option.some.injEq,
        quotaIndex_inj_net hp hpeer, decide_eq_true_iff, and_comm]
    simp only [quotaLevel_newConn hs.inRange.userSpace, shift, hslot]
    exact hcounts peer hpeer

/-- The close callback lowers the entry of the client, admitted or not, unless it is 0. -/
theorem userFollows_close (hs : UserFollows net t s) (ht : PolicyState net t)
    (h : Admission.step policyLimit t (.close c) = some t')
    (hstep : step s (.connClosed c false now) = some s') : UserFollows net t' s' := by
  obtain ⟨conn, hconn, rfl⟩ := connClosed_of_step hstep
  have hr : t.attempts.lookup c = some ⟨conn.openedFrom.sinAddr, conn.counted⟩ := by
    rw [hs.attempts, hconn, Option.map_some]
  have hnet : net.SameNet24 conn.openedFrom.sinAddr := ht.inNet c _ hr
  have hcounts := fun peer hpeer => (hs.counts peer hpeer).close hr h
  have hrange := quotasInRange_step hs.inRange hstep
  have hkept := peersKept_step (e := .connClosed c false now) trivial hs.peersKept hstep
  obtain ⟨r', hr', rfl⟩ := Admission.close_of_step h
  obtain rfl := Option.some.inj (hr.symm.trans hr')
  refine ⟨hrange, hkept, ?_, ?_⟩
  · intro c'
    by_cases hcc : c' = c
    · subst hcc
      simp
    · simpa [AList.lookup_erase_ne hcc] using hs.attempts c'
  · intro peer hpeer
    have hreleased : releasedIndex s.server.quotas (.inet conn.peer) =
        some (quotaIndex (.inet peer)) ↔
          conn.openedFrom.sinAddr = peer.sinAddr ∧
            0 < quotaLevel s.server.quotas (quotaIndex (.inet peer)) := by
      rw [hs.peersKept c conn hconn, releasedIndex, Option.ite_none_right_eq_some,
        Option.some.injEq, quotaIndex_inj_net hnet hpeer, and_comm]
      apply and_congr_right
      intro hsame
      rw [(quotaIndex_inj_net hnet hpeer).mpr hsame]
    have hlevel := hcounts peer hpeer
    simp only [quotaLevel_connClosed hs.inRange.userSpace, shift, hreleased]
    convert hlevel using 1
    split <;> rfl

end UserFollows

/-! ## §5 When the two agree -/

/-- Both replays against the policy. -/
structure BothFollow (net : InAddr) (s : Replays) (t : Admission ConnId InAddr) : Prop where
  policy : PolicyState net t
  ebpf : EbpfFollows net t s.ebpf
  user : UserFollows net t s.user

theorem bothFollow_initial (net : InAddr) (maxConn : UInt32) (cooldown : Bool) :
    BothFollow net (Replays.initial maxConn cooldown) Admission.initial where
  policy := ⟨fun _ _ hr => (nomatch hr), fun _ => Nat.zero_le _⟩
  ebpf := ⟨countsExactly_initial _ maxConn cooldown, fun _ => rfl, fun _ => rfl⟩
  user := ⟨quotasInRange_initial maxConn cooldown, peersKept_initial _, fun _ => rfl,
    fun _ _ => Admission.counts_initial _⟩

section BothFollow

variable {net : InAddr} {s s' : Replays} {t : Admission ConnId InAddr} {e : ClientEvent}

/-- The modes disagree exactly on attempts of a tainted client at the limit. -/
theorem BothFollow.sameDecision_iff (hs : BothFollow net s t) (he : e.InNet net) :
    SameDecision s e ↔ Untainted t e.toAdmission := by
  cases e with
  | close c now => exact Iff.rfl
  | attempt c p now =>
    simp only [SameDecision, ClientEvent.toAdmission, Untainted]
    rw [hs.ebpf.udpQuota_pass_iff, hs.user.accepts_iff hs.policy he, ← not_lt]
    cases t.tainted p.peer.sinAddr <;> simp

theorem BothFollow.userReplay_eq_none_iff (hs : BothFollow net s t) :
    userReplay s.user e = none ↔ Admission.step policyLimit t e.toAdmission = none := by
  cases e with
  | attempt c p now =>
    have hfree := hs.user.notMem_iff (c := c)
    by_cases hc : c ∈ s.user.live
    · have hmem : c ∈ t.attempts := by
        by_contra hmiss
        exact hfree.mp hmiss hc
      simp [userReplay, step, hc, ClientEvent.toAdmission, Admission.step, hmem]
    · simp [userReplay, step, hc, ClientEvent.toAdmission, Admission.step, hfree.mpr hc]
  | close c now =>
    have hlookup := hs.user.attempts c
    cases hconn : s.user.live.lookup c with
    | none =>
      rw [hconn] at hlookup
      simp [userReplay, step, hconn, ClientEvent.toAdmission, Admission.step, hlookup]
    | some conn =>
      rw [hconn] at hlookup
      simp [userReplay, step, hconn, ClientEvent.toAdmission, Admission.step, hlookup]

/-- Where the policy can move, the replay in eBPF mode follows, whatever user space does. -/
theorem BothFollow.ebpfReplay_follows {t' : Admission ConnId InAddr} (hs : BothFollow net s t)
    (he : e.InNet net) (h : Admission.step policyLimit t e.toAdmission = some t') :
    ∃ b, ebpfReplay s.ebpf e = some b ∧ EbpfFollows net t' b := by
  cases e with
  | attempt c p now => exact ebpfFollows_attempt hs.ebpf hs.policy he h
  | close c now => exact ebpfFollows_close hs.ebpf hs.policy h

theorem BothFollow.step_none (hs : BothFollow net s t) (he : e.InNet net)
    (h : replayStep s e = none) : Admission.step policyLimit t e.toAdmission = none := by
  -- where the policy can move both replays can
  by_contra hsome
  obtain ⟨t', ht'⟩ := Option.ne_none_iff_exists'.mp hsome
  obtain ⟨u, hu⟩ := Option.ne_none_iff_exists'.mp (mt hs.userReplay_eq_none_iff.mp hsome)
  obtain ⟨b, hb, -⟩ := hs.ebpfReplay_follows he ht'
  simp [replayStep, hu, hb] at h

theorem BothFollow.step_some (hs : BothFollow net s t) (he : e.InNet net)
    (h : replayStep s e = some s') :
    ∃ t', Admission.step policyLimit t e.toAdmission = some t' ∧
      (SameDecision s e → BothFollow net s' t') := by
  obtain ⟨u, hu, hmap⟩ := Option.bind_eq_some_iff.mp h
  have hne : userReplay s.user e ≠ none := by simp [hu]
  obtain ⟨t', ht'⟩ := Option.ne_none_iff_exists'.mp (mt hs.userReplay_eq_none_iff.mpr hne)
  obtain ⟨b, hb, hebpf⟩ := hs.ebpfReplay_follows he ht'
  obtain rfl : { ebpf := b, user := u } = s' := by simpa [hb] using hmap
  refine ⟨t', ht', fun hsame => ?_⟩
  cases e with
  | attempt c p now =>
    have haccepts := (hsame.symm.trans hs.ebpf.udpQuota_pass_iff)
    exact ⟨policyState_attempt hs.policy he ht', hebpf,
      userFollows_attempt hs.user he haccepts ht' hu⟩
  | close c now =>
    exact ⟨policyState_close hs.policy ht', hebpf, userFollows_close hs.user hs.policy ht' hu⟩

end BothFollow

/-- **One policy.** Let all clients belong to one /24 network. The two modes accept the same
    attempts of a sequence of attempts and closes if and only if, in the policy both are
    meant to implement, no attempt of the sequence comes from a client at the limit for
    which a refused attempt was closed since it last had no connection open. -/
theorem sameDecisions_iff (maxConn : UInt32) (cooldown : Bool) (net : InAddr)
    (es : List ClientEvent) (hes : ∀ e ∈ es, e.InNet net) :
    StepsAlong replayStep SameDecision (Replays.initial maxConn cooldown) es ↔
      StepsAlong (Admission.step policyLimit) Untainted Admission.initial
        (es.map ClientEvent.toAdmission) := by
  apply stepsAlong_iff_of_simulation (R := BothFollow net) (E := ClientEvent.InNet net)
  · exact fun s t e he hR h => hR.step_none he h
  · intro s t e s' he hR h
    obtain ⟨t', ht', hR'⟩ := hR.step_some he h
    exact ⟨t', ht', hR.sameDecision_iff he, hR'⟩
  · exact bothFollow_initial net maxConn cooldown
  · exact hes

/-- One client opens five connections, a sixth attempt is refused and closed, and a seventh
    follows. -/
def taintedAttemptRun : List ClientEvent :=
  let p := packetFrom ⟨4433, ⟨192, 168, 0, 7⟩⟩
  let now : Timespec := ⟨0, 0⟩
  [.attempt 1 p now, .attempt 2 p now, .attempt 3 p now, .attempt 4 p now, .attempt 5 p now,
    .attempt 6 p now, .close 6 now] ++ [.attempt 7 p now]

/-- The characterization at `taintedAttemptRun`. -/
theorem sameDecisions_iff_taintedAttemptRun :
    StepsAlong replayStep SameDecision (Replays.initial 0 false) taintedAttemptRun ↔
      StepsAlong (Admission.step policyLimit) Untainted Admission.initial
        (taintedAttemptRun.map ClientEvent.toAdmission) := by
  apply sameDecisions_iff 0 false ⟨192, 168, 0, 0⟩
  decide

/-- The kernel drops the seventh attempt, user space admits it. -/
theorem taintedAttemptRun_not_sameDecisions :
    (∀ e ∈ taintedAttemptRun, e.InNet ⟨192, 168, 0, 0⟩) ∧
      ¬ StepsAlong replayStep SameDecision (Replays.initial 0 false) taintedAttemptRun := by
  refine ⟨by decide, fun h => ?_⟩
  have hlast := h.get_exec (by decide +kernel) (by decide +kernel)
  exact absurd hlast (by decide +kernel)

end Equic.Accounting
