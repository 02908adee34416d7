import Equic.Kern.Verdict
import Equic.User.Counter

/-!
# The key of a client, computed twice

The counters map is written under a key that user space takes from a socket address and
read under a key that the kernel takes from a packet header. Both are the four bytes of an
IPv4 address in network byte order, but the user-space functions cast whatever address
they get to `sockaddr_in`. On a `sockaddr_in6` the cast reads the flow information, so §3
says exactly for which peers the two sides agree.
-/

namespace Equic.User

open Equic.Foundation Equic.Net Equic.Kern

/-! ## §1 What the two sides do with a key -/

/-- The entry of a key that is not updated stays as it is. -/
theorem lookup_equicIncCounter_of_ne (fault : Bool) (counters : Counters) {client : Sockaddr}
    {b : InAddr} (hb : b ≠ counterKey client) :
    (equicIncCounter fault counters client).1.lookup b = counters.lookup b := by
  obtain ⟨v, counters', -, -, hupd, heq⟩ | ⟨counters', -, -, hupd, heq⟩ | ⟨-, heq | heq⟩ :=
    equicIncCounter_cases fault counters client
  · rw [heq]
    exact BoundedMap.lookup_update_of_ne hupd hb
  · rw [heq]
    exact BoundedMap.lookup_update_of_ne hupd hb
  · rw [heq]
  · rw [heq]

theorem lookup_equicDecCounter_of_ne (fault : Bool) (counters : Counters) {client : Sockaddr}
    {b : InAddr} (hb : b ≠ counterKey client) :
    (equicDecCounter fault counters client).1.lookup b = counters.lookup b := by
  obtain ⟨v, counters', -, -, -, hupd, heq⟩ | ⟨-, heq⟩ :=
    equicDecCounter_cases fault counters client
  · rw [heq]
    exact BoundedMap.lookup_update_of_ne hupd hb
  · rw [heq]

/-- The verdict on a frame looks at the entry of its key and at no other. -/
theorem udpQuota_congr {frame : Frame} {counters counters' : Counters}
    (h : ∀ key, udpQuotaKey frame = some key → counters.lookup key = counters'.lookup key) :
    udpQuota frame counters = udpQuota frame counters' := by
  by_cases hip : sizeofEthhdr + sizeofIphdr > frame.length
  · simp only [udpQuota, hip, if_true]
  · simp only [udpQuota, hip, if_false]
    show (udpQuotaKey frame).bind _ = (udpQuotaKey frame).bind _
    cases hkey : udpQuotaKey frame with
    | none => rfl
    | some key =>
      simp only [Option.bind_some]
      rw [h key hkey]

/-- The call changes the entry of its key exactly if it goes through. -/
theorem equicIncCounter_lookup_counterKey_iff (fault : Bool) (counters : Counters)
    (client : Sockaddr) :
    (equicIncCounter fault counters client).1.lookup (counterKey client) =
        counters.lookup (counterKey client) ↔
      (equicIncCounter fault counters client).2.succeeded = false := by
  unfold counterKey
  obtain ⟨v, counters', hlookup, -, hupd, heq⟩ | ⟨counters', hlookup, -, hupd, heq⟩ |
    ⟨-, heq | heq⟩ := equicIncCounter_cases fault counters client
  · -- adding one changes every value
    have hne : v + 1#32 ≠ v := by
      intro h
      simp at h
    simp [heq, CounterAction.succeeded, BoundedMap.lookup_update_self hupd, hlookup, hne]
  · simp [heq, CounterAction.succeeded, BoundedMap.lookup_update_self hupd, hlookup]
  · simp [heq, CounterAction.succeeded]
  · simp [heq, CounterAction.succeeded]

theorem equicDecCounter_lookup_counterKey_iff (fault : Bool) (counters : Counters)
    (client : Sockaddr) :
    (equicDecCounter fault counters client).1.lookup (counterKey client) =
        counters.lookup (counterKey client) ↔
      (equicDecCounter fault counters client).2.succeeded = false := by
  unfold counterKey
  cases hlookup : counters.lookup client.sinAddr with
  | none => simp [equicDecCounter, counterKey, hlookup, CounterAction.succeeded]
  | some v =>
    by_cases hv : v = 0#32
    · simp [equicDecCounter, counterKey, hlookup, hv, CounterAction.succeeded]
    · cases hupd : bpfMapUpdateElem fault counters client.sinAddr (v - 1#32) .exist with
      | none => simp [equicDecCounter, counterKey, hlookup, hv, hupd, CounterAction.succeeded]
      | some counters' =>
        -- taking one away changes every value
        have hne : v - 1#32 ≠ v := by bv_omega
        have hstored : counters.update client.sinAddr (v - 1#32) .exist = some counters' := by
          cases fault with
          | false => exact hupd
          | true => cases hupd
        simp [equicDecCounter, counterKey, hlookup, hv, hupd, CounterAction.succeeded,
          BoundedMap.lookup_update_self hstored, hne]

/-! ## §2 What a peer sends -/

/-- The IPv4 address behind an IPv4-mapped IPv6 address, `::ffff:a.b.c.d`. -/
def v4Mapped (sin6 : SockaddrIn6) : Option InAddr :=
  if sin6.sin6Addr.toList.take 12 = List.replicate 10 0 ++ [0xff, 0xff] then
    some ⟨sin6.sin6Addr[12], sin6.sin6Addr[13], sin6.sin6Addr[14], sin6.sin6Addr[15]⟩
  else none

/-- The source address of the IPv4 packets that a peer sends; `none` for a peer that sends
    IPv6 packets. -/
def ipv4Source : Sockaddr → Option InAddr
  | .inet sin => some sin.sinAddr
  | .inet6 sin6 => v4Mapped sin6

/-- The bytes of `sin6_flowinfo`, which lie where `sockaddr_in` has its address. -/
def flowKey (sin6 : SockaddrIn6) : InAddr :=
  ⟨(sin6.sin6Flowinfo >>> 24).toUInt8, (sin6.sin6Flowinfo >>> 16).toUInt8,
    (sin6.sin6Flowinfo >>> 8).toUInt8, sin6.sin6Flowinfo.toUInt8⟩

@[simp] theorem counterKey_inet (sin : SockaddrIn) : counterKey (.inet sin) = sin.sinAddr := rfl

@[simp] theorem counterKey_inet6 (sin6 : SockaddrIn6) :
    counterKey (.inet6 sin6) = flowKey sin6 := rfl

/-! ## §3 Agreement -/

/-- A counter call works on the entry of this key: the others stay as they are, and a call
    that goes through changes this one. -/
def CountsUnder (key : InAddr) (counters : Counters) (outcome : Counters × CounterAction) : Prop :=
  (∀ b, b ≠ key → outcome.1.lookup b = counters.lookup b) ∧
    (outcome.2.succeeded = true → outcome.1.lookup key ≠ counters.lookup key)

/-- The verdict on a frame depends on the entry of this key and on no other. -/
def DecidedBy (key : InAddr) (frame : Frame) : Prop :=
  (∀ counters counters', counters.lookup key = counters'.lookup key →
    udpQuota frame counters = udpQuota frame counters') ∧
  ∃ counters counters', udpQuota frame counters ≠ udpQuota frame counters'

/-- The two sides agree on a peer. If it sends IPv4 packets, the calls for it count under the
    key that decides the verdict on its frames; if it sends IPv6 packets, the calls for it
    leave every entry alone. -/
structure KeysAgree (fault : Bool) (counters : Counters) (peer : Sockaddr) : Prop where
  ipv4 : ∀ a, ipv4Source peer = some a → ∀ frame, UdpFrameFrom a frame →
    ∃ key, DecidedBy key frame ∧ ∀ fault' counters',
      CountsUnder key counters' (equicIncCounter fault' counters' peer) ∧
        CountsUnder key counters' (equicDecCounter fault' counters' peer)
  ipv6 : ipv4Source peer = none → ∀ b,
    (equicIncCounter fault counters peer).1.lookup b = counters.lookup b ∧
      (equicDecCounter fault counters peer).1.lookup b = counters.lookup b

/-- The peers whose family does no harm: `sockaddr_in`; an IPv4-mapped address with a flow
    information that spells the same address; an IPv6 address for which the map has
    neither an entry nor room, or the kernel refuses the update. -/
def FamilyHarmless (fault : Bool) (counters : Counters) : Sockaddr → Prop
  | .inet _ => True
  | .inet6 sin6 =>
    match v4Mapped sin6 with
    | some a => flowKey sin6 = a
    | none => fault = true ∨ flowKey sin6 ∉ counters ∧ counters.size = maxEntries

/-- The key in the frames of a source is the source. -/
theorem udpQuotaKey_of_udpFrameFrom {a : InAddr} {frame : Frame} (h : UdpFrameFrom a frame) :
    udpQuotaKey frame = some a := h.saddr

/-- On a frame of a source, one entry of that source makes a difference. -/
theorem exists_udpQuota_ne {a : InAddr} {frame : Frame} (h : UdpFrameFrom a frame) :
    ∃ counters counters' : Counters, (∀ b, b ≠ a → counters.lookup b = counters'.lookup b) ∧
      udpQuota frame counters ≠ udpQuota frame counters' := by
  have hroom : (BoundedMap.empty : Counters).size < maxEntries := by decide
  obtain ⟨counters, hupd⟩ :=
    BoundedMap.update_noExist_of_notMem 5#32 (BoundedMap.notMem_empty a) hroom
  refine ⟨counters, BoundedMap.empty, fun b hb => BoundedMap.lookup_update_of_ne hupd hb, ?_⟩
  have hfive : level counters a = 5 := level_of_lookup (BoundedMap.lookup_update_self hupd)
  have hzero : level BoundedMap.empty a = 0 := level_of_notMem (BoundedMap.notMem_empty a)
  rw [(udpQuota_eq_drop_iff h counters).mpr (by rw [hfive, quicQuotaLimit]),
    (udpQuota_eq_pass_iff h BoundedMap.empty).mpr (by rw [hzero]; decide)]
  simp

/-- The verdict on the frames of a source is decided by its entry alone. -/
theorem decidedBy_iff {a key : InAddr} {frame : Frame} (h : UdpFrameFrom a frame) :
    DecidedBy key frame ↔ key = a := by
  obtain ⟨counters, counters', hsame, hne⟩ := exists_udpQuota_ne h
  constructor
  · rintro ⟨hkey, -⟩
    by_contra hka
    exact hne (hkey counters counters' (hsame key hka))
  · rintro rfl
    refine ⟨fun c c' heq => udpQuota_congr fun k hk => ?_, counters, counters', hne⟩
    rw [udpQuotaKey_of_udpFrameFrom h] at hk
    rw [← Option.some.inj hk]
    exact heq

theorem equicIncCounter_countsUnder (fault : Bool) (counters : Counters) (client : Sockaddr) :
    CountsUnder (counterKey client) counters (equicIncCounter fault counters client) := by
  refine ⟨fun b hb => lookup_equicIncCounter_of_ne fault counters hb, fun hsucceeded hsame => ?_⟩
  rw [equicIncCounter_lookup_counterKey_iff, hsucceeded] at hsame
  cases hsame

theorem equicDecCounter_countsUnder (fault : Bool) (counters : Counters) (client : Sockaddr) :
    CountsUnder (counterKey client) counters (equicDecCounter fault counters client) := by
  refine ⟨fun b hb => lookup_equicDecCounter_of_ne fault counters hb, fun hsucceeded hsame => ?_⟩
  rw [equicDecCounter_lookup_counterKey_iff, hsucceeded] at hsame
  cases hsame

/-- The increment counts under the key of the client and under no other. -/
theorem countsUnder_iff {key : InAddr} {client : Sockaddr} :
    (∀ fault counters, CountsUnder key counters (equicIncCounter fault counters client) ∧
      CountsUnder key counters (equicDecCounter fault counters client)) ↔
      key = counterKey client := by
  constructor
  · intro h
    by_contra hne
    -- into the empty map the increment goes through
    have hsucceeded : (equicIncCounter false BoundedMap.empty client).2.succeeded = true :=
      (equicIncCounter_succeeded_iff false BoundedMap.empty client).mpr ⟨rfl, .inr (by decide)⟩
    exact (equicIncCounter_countsUnder false BoundedMap.empty client).2 hsucceeded
      ((h false BoundedMap.empty).1.1 _ (Ne.symm hne))
  · rintro rfl fault counters
    exact ⟨equicIncCounter_countsUnder fault counters client,
      equicDecCounter_countsUnder fault counters client⟩

/-- For a peer that sends IPv4 packets agreement is equality of the two addresses. -/
theorem keysAgree_iff_of_ipv4 {peer : Sockaddr} {a : InAddr} (fault : Bool) (counters : Counters)
    (h : ipv4Source peer = some a) : KeysAgree fault counters peer ↔ counterKey peer = a := by
  constructor
  · intro hagree
    have hframe := udpFrame_udpFrameFrom a
    obtain ⟨key, hdecided, hcounts⟩ := hagree.ipv4 a h (udpFrame a) hframe
    rw [← countsUnder_iff.mp hcounts]
    exact (decidedBy_iff hframe).mp hdecided
  · intro hkey
    refine ⟨fun a' ha' frame hframe => ⟨a', (decidedBy_iff hframe).mpr rfl, ?_⟩, fun hnone => ?_⟩
    · apply countsUnder_iff.mpr
      rw [hkey]
      exact Option.some.inj (ha'.symm.trans h)
    · rw [h] at hnone
      cases hnone

/-- The increment fails by a fault, or because a new key finds no room. -/
theorem equicIncCounter_failed_iff (fault : Bool) (counters : Counters) (client : Sockaddr) :
    (equicIncCounter fault counters client).2.succeeded = false ↔
      fault = true ∨ counterKey client ∉ counters ∧ counters.size = maxEntries := by
  have hsize := counters.size_le
  rw [← Bool.not_eq_true, equicIncCounter_succeeded_iff, not_and_or, not_or, not_lt,
    Bool.not_eq_false]
  exact or_congr_right (and_congr_right fun _ => ⟨fun h => le_antisymm hsize h, fun h => h.ge⟩)

/-- A decrement that releases no key changes nothing. -/
theorem equicDecCounter_of_releasedKey {fault : Bool} {counters : Counters} {client : Sockaddr}
    (h : releasedKey fault counters client = none) :
    (equicDecCounter fault counters client).1 = counters := by
  obtain ⟨v, counters', hlookup, hv, rfl, -, -⟩ | ⟨-, heq⟩ :=
    equicDecCounter_cases fault counters client
  · have hlevel := level_of_lookup hlookup
    simp [releasedKey, hlevel, ← CInt.eq_zero_iff, hv] at h
  · exact heq

/-- For a peer that sends IPv6 packets agreement means that the increment fails; the
    decrement then finds nothing to lower either. -/
theorem keysAgree_iff_of_ipv6 {peer : Sockaddr} (fault : Bool) (counters : Counters)
    (h : ipv4Source peer = none) :
    KeysAgree fault counters peer ↔
      fault = true ∨ counterKey peer ∉ counters ∧ counters.size = maxEntries := by
  rw [← equicIncCounter_failed_iff]
  constructor
  · intro hagree
    exact (equicIncCounter_lookup_counterKey_iff fault counters peer).mp
      (hagree.ipv6 h (counterKey peer)).1
  · intro hfailed
    -- without an entry, or with a fault, the decrement releases no key
    have hreleased : releasedKey fault counters peer = none := by
      obtain rfl | ⟨hmem, -⟩ := (equicIncCounter_failed_iff fault counters peer).mp hfailed
      · simp [releasedKey]
      · have hzero : level counters peer.sinAddr = 0 := level_of_notMem hmem
        simp [releasedKey, hzero]
    refine ⟨fun a ha => ?_, fun _ b => ?_⟩
    · rw [h] at ha
      cases ha
    · rw [equicIncCounter_of_not_succeeded fault counters peer hfailed,
        equicDecCounter_of_releasedKey hreleased]
      exact ⟨rfl, rfl⟩

/-- **Agreement of the keys.** User space and kernel agree on a peer if and only if the
    family of its address does no harm. -/
theorem keysAgree_iff (fault : Bool) (counters : Counters) (peer : Sockaddr) :
    KeysAgree fault counters peer ↔ FamilyHarmless fault counters peer := by
  cases peer with
  | inet sin =>
    rw [keysAgree_iff_of_ipv4 fault counters rfl]
    simp [FamilyHarmless]
  | inet6 sin6 =>
    cases hmapped : v4Mapped sin6 with
    | some a =>
      have hsource : ipv4Source (.inet6 sin6) = some a := hmapped
      rw [keysAgree_iff_of_ipv4 fault counters hsource]
      simp [FamilyHarmless, hmapped]
    | none =>
      have hsource : ipv4Source (.inet6 sin6) = none := hmapped
      rw [keysAgree_iff_of_ipv6 fault counters hsource]
      simp [FamilyHarmless, hmapped]

/-- The client 10.0.0.1 as a server on an IPv6 socket sees it. -/
def mappedPeer : SockaddrIn6 :=
  ⟨4433, 0, #v[0, 0, 0, 0, 0, 0, 0, 0, 0, 0, 0xff, 0xff, 10, 0, 0, 1], 0⟩

/-- The IPv6 client 2001:db8::1. -/
def ipv6Peer : SockaddrIn6 :=
  ⟨4433, 0, #v[0x20, 0x01, 0x0d, 0xb8, 0, 0, 0, 0, 0, 0, 0, 0, 0, 0, 0, 1], 0⟩

/-- The IPv4-mapped client is counted under 0.0.0.0, where its packets are not looked up,
    and the IPv6 client is counted under 0.0.0.0 as well. -/
theorem mappedPeer_not_keysAgree :
    ipv4Source (.inet6 mappedPeer) = some ⟨10, 0, 0, 1⟩ ∧
      ¬ KeysAgree false BoundedMap.empty (.inet6 mappedPeer) ∧
      ipv4Source (.inet6 ipv6Peer) = none ∧
      ¬ KeysAgree false BoundedMap.empty (.inet6 ipv6Peer) := by
  have hmapped : ipv4Source (.inet6 mappedPeer) = some ⟨10, 0, 0, 1⟩ := by decide
  have hipv6 : ipv4Source (.inet6 ipv6Peer) = none := by decide
  refine ⟨hmapped, fun h => ?_, hipv6, fun h => ?_⟩
  · have hkey := (keysAgree_iff_of_ipv4 false BoundedMap.empty hmapped).mp h
    exact absurd hkey (by decide)
  · have hentry := (h.ipv6 hipv6 ⟨0, 0, 0, 0⟩).1
    exact absurd hentry (by decide)

end Equic.User
