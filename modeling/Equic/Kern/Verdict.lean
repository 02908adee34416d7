import Equic.Kern.UdpQuota

/-!
# Verdicts on arbitrary frames

`udp_quota` runs on every frame that reaches the interface, not only on QUIC over IPv4.
§1 gives its verdict on any byte string by the two lengths it compares with and the
protocol byte; all of its reads are inside the frame.

What the verdict ought to be is stated in §2 from the header fields. The program assigns
an `ethhdr` but never looks at the EtherType, so the two differ on frames of other
protocols whose bytes happen to look like UDP, and on short frames; §3 says exactly where.
-/

namespace Equic.Kern

open Equic.Foundation Equic.Net

/-! ## §1 The verdict by length and protocol byte -/

/-- The offset of `ip->protocol` in a frame. -/
def protocolOffset : ℕ := sizeofEthhdr + 9

/-- The offset of `ip->saddr` in a frame. -/
def saddrOffset : ℕ := sizeofEthhdr + 12

/-- A frame that reaches past the four bytes has an address there. -/
theorem exists_loadInAddr {frame : Frame} {off : ℕ} (h : off + 4 ≤ frame.length) :
    ∃ a, loadInAddr frame off = some a := by
  have hbyte : ∀ i, i < off + 4 → ∃ b, frame[i]? = some b := fun i hi =>
    ⟨frame[i], List.getElem?_eq_getElem (by omega)⟩
  obtain ⟨o1, h1⟩ := hbyte off (by omega)
  obtain ⟨o2, h2⟩ := hbyte (off + 1) (by omega)
  obtain ⟨o3, h3⟩ := hbyte (off + 2) (by omega)
  obtain ⟨o4, h4⟩ := hbyte (off + 3) (by omega)
  exact ⟨⟨o1, o2, o3, o4⟩, by simp [loadInAddr, h1, h2, h3, h4]⟩

section Cases

variable {frame : Frame} (counters : Counters)

/-- Cut inside the IPv4 header. -/
theorem udpQuota_of_noIphdr (h : frame.length < sizeofEthhdr + sizeofIphdr) :
    udpQuota frame counters = some .aborted := by
  simp only [udpQuota]
  rw [if_pos (by omega)]

section Iphdr

variable (h : sizeofEthhdr + sizeofIphdr ≤ frame.length)

include h

private theorem udpQuota_of_iphdr :
    ∃ key p, loadInAddr frame saddrOffset = some key ∧ frame[protocolOffset]? = some p ∧
      udpQuota frame counters =
        if p = ipprotoUdp then
          if sizeofEthhdr + sizeofIphdr + sizeofUdphdr > frame.length then some .aborted
          else match counters.lookup key with
            | none => some .pass
            | some v => if v.toInt ≥ quicQuotaLimit then some .drop else some .pass
        else some .pass := by
  have hlen : saddrOffset + 4 ≤ frame.length := by
    simp only [saddrOffset, sizeofEthhdr, sizeofIphdr] at h ⊢
    omega
  obtain ⟨key, hkey⟩ := exists_loadInAddr hlen
  have hbyte : protocolOffset < frame.length := by
    simp only [protocolOffset, saddrOffset] at hlen ⊢
    omega
  have hp : frame[protocolOffset]? = some frame[protocolOffset] :=
    List.getElem?_eq_getElem hbyte
  refine ⟨key, _, hkey, hp, ?_⟩
  have hip : ¬ sizeofEthhdr + sizeofIphdr > frame.length := by omega
  simp only [udpQuota, hip, if_false]
  change (loadInAddr frame saddrOffset).bind (fun key => frame[protocolOffset]?.bind _) = _
  rw [hkey, hp]
  rfl

/-- A protocol byte other than UDP's. -/
theorem udpQuota_of_notUdp (hp : frame[protocolOffset]? ≠ some ipprotoUdp) :
    udpQuota frame counters = some .pass := by
  obtain ⟨key, p, -, hprotocol, heq⟩ := udpQuota_of_iphdr counters h
  rw [heq, if_neg]
  rintro rfl
  exact hp hprotocol

/-- UDP's protocol byte in a frame cut inside the UDP header. -/
theorem udpQuota_of_noUdphdr (hp : frame[protocolOffset]? = some ipprotoUdp)
    (hudp : frame.length < sizeofEthhdr + sizeofIphdr + sizeofUdphdr) :
    udpQuota frame counters = some .aborted := by
  obtain ⟨key, p, -, hprotocol, heq⟩ := udpQuota_of_iphdr counters h
  obtain rfl : p = ipprotoUdp := by simpa [hprotocol] using hp
  rw [heq, if_pos rfl, if_pos (by omega)]

end Iphdr

/-- The counter of the address at the offset of `ip->saddr` has reached the quota. -/
def SaddrExceeds (frame : Frame) (counters : Counters) : Prop :=
  ∃ key v, loadInAddr frame saddrOffset = some key ∧ counters.lookup key = some v ∧
    quicQuotaLimit ≤ v.toInt

/-- UDP's protocol byte in a frame with room for all headers: the map decides. -/
theorem udpQuota_of_udphdr (hp : frame[protocolOffset]? = some ipprotoUdp)
    (hudp : sizeofEthhdr + sizeofIphdr + sizeofUdphdr ≤ frame.length) :
    (SaddrExceeds frame counters → udpQuota frame counters = some .drop) ∧
      (¬ SaddrExceeds frame counters → udpQuota frame counters = some .pass) := by
  have hip : sizeofEthhdr + sizeofIphdr ≤ frame.length := by omega
  obtain ⟨key, p, hkey, hprotocol, heq⟩ := udpQuota_of_iphdr counters hip
  obtain rfl : p = ipprotoUdp := by simpa [hprotocol] using hp
  rw [heq, if_pos rfl, if_neg (by omega)]
  constructor
  · rintro ⟨key', v, hkey', hv, hlimit⟩
    obtain rfl : key = key' := by simpa [hkey] using hkey'
    simp [hv, hlimit]
  · intro hnot
    cases hv : counters.lookup key with
    | none => rfl
    | some v =>
      have hlimit : ¬ quicQuotaLimit ≤ v.toInt := fun hle => hnot ⟨key, v, hkey, hv, hle⟩
      simp [hlimit]

end Cases

/-! ## §2 The intended verdict -/

/-- `ETH_P_IP`, the EtherType of IPv4. -/
def ethPIp : UInt16 := 0x0800

/-- `eth->h_proto`, in host order; `none` if the frame ends before it. -/
def etherType (frame : Frame) : Option UInt16 := do
  let hi ← frame[12]?
  let lo ← frame[13]?
  return hi.toUInt16 <<< 8 ||| lo.toUInt16

/-- The verdict is the one that the header fields call for: nothing is read outside the
    frame, only IPv4 with protocol UDP is ever held up, and that by the counter of its
    source address alone. -/
structure VerdictByHeaders (frame : Frame) (counters : Counters) : Prop where
  inFrame : udpQuota frame counters ≠ none
  otherEtherType : ∀ t, etherType frame = some t → t ≠ ethPIp →
    udpQuota frame counters = some .pass
  otherProtocol : ∀ p, etherType frame = some ethPIp → frame[protocolOffset]? = some p →
    p ≠ ipprotoUdp → udpQuota frame counters = some .pass
  udp : etherType frame = some ethPIp → frame[protocolOffset]? = some ipprotoUdp →
    sizeofEthhdr + sizeofIphdr + sizeofUdphdr ≤ frame.length →
      (udpQuota frame counters = some .drop ↔ SaddrExceeds frame counters) ∧
        (¬ SaddrExceeds frame counters → udpQuota frame counters = some .pass)

/-! ## §3 Where the program meets it -/

/-- A frame on which it does no harm to read every frame as IPv4. An IPv4 frame has its
    whole header, or no protocol byte but UDP's. A frame of another EtherType has as many
    bytes as an IPv4 header would need, and its byte at the protocol offset is not UDP's,
    or it also has room for a UDP header and no exceeded counter at the source offset. -/
def HarmlessAsIPv4 (frame : Frame) (counters : Counters) : Prop :=
  ∀ t, etherType frame = some t →
    if t = ethPIp then
      sizeofEthhdr + sizeofIphdr ≤ frame.length ∨
        ∀ p, frame[protocolOffset]? = some p → p = ipprotoUdp
    else
      sizeofEthhdr + sizeofIphdr ≤ frame.length ∧
        (frame[protocolOffset]? = some ipprotoUdp →
          sizeofEthhdr + sizeofIphdr + sizeofUdphdr ≤ frame.length ∧
            ¬ SaddrExceeds frame counters)

/-- All bytes that `udp_quota` reads lie inside the frame. -/
theorem udpQuota_ne_none (frame : Frame) (counters : Counters) :
    udpQuota frame counters ≠ none := by
  by_cases hip : sizeofEthhdr + sizeofIphdr ≤ frame.length
  · obtain ⟨key, p, -, -, heq⟩ := udpQuota_of_iphdr counters hip
    rw [heq]
    split_ifs
    · simp
    · cases counters.lookup key with
      | none => simp
      | some v =>
        dsimp only
        split_ifs <;> simp
    · simp
  · rw [udpQuota_of_noIphdr counters (by omega)]
    simp

/-- On a frame of another EtherType the verdict is PASS exactly if reading it as IPv4 does
    no harm. -/
theorem udpQuota_eq_pass_iff_harmless (frame : Frame) (counters : Counters) :
    udpQuota frame counters = some .pass ↔
      sizeofEthhdr + sizeofIphdr ≤ frame.length ∧
        (frame[protocolOffset]? = some ipprotoUdp →
          sizeofEthhdr + sizeofIphdr + sizeofUdphdr ≤ frame.length ∧
            ¬ SaddrExceeds frame counters) := by
  by_cases hip : sizeofEthhdr + sizeofIphdr ≤ frame.length
  · by_cases hp : frame[protocolOffset]? = some ipprotoUdp
    · by_cases hudp : sizeofEthhdr + sizeofIphdr + sizeofUdphdr ≤ frame.length
      · obtain ⟨hdrop, hpass⟩ := udpQuota_of_udphdr counters hp hudp
        by_cases hexc : SaddrExceeds frame counters
        · simp [hdrop hexc, hp, hexc]
        · simp [hpass hexc, hip, hudp, hexc]
      · rw [udpQuota_of_noUdphdr counters hip hp (by omega)]
        simp [hp, hudp]
    · rw [udpQuota_of_notUdp counters hip hp]
      simp [hip, hp]
  · rw [udpQuota_of_noIphdr counters (by omega)]
    simp [hip]

/-- **Exact verdict of the XDP program.** On every frame and every content of the map, the
    verdict is the one that the headers call for if and only if reading the frame as IPv4
    does no harm. -/
theorem verdictByHeaders_iff (frame : Frame) (counters : Counters) :
    VerdictByHeaders frame counters ↔ HarmlessAsIPv4 frame counters := by
  have hpass := udpQuota_eq_pass_iff_harmless frame counters
  constructor
  · intro h t ht
    by_cases hip : t = ethPIp
    · subst hip
      rw [if_pos rfl]
      by_cases hlen : sizeofEthhdr + sizeofIphdr ≤ frame.length
      · exact .inl hlen
      · -- a short frame is aborted, so its protocol byte cannot be another one
        refine .inr fun p hp => ?_
        by_contra hne
        have hverdict := h.otherProtocol p ht hp hne
        rw [udpQuota_of_noIphdr counters (by omega)] at hverdict
        cases hverdict
    · rw [if_neg hip]
      exact hpass.mp (h.otherEtherType t ht hip)
  · intro h
    refine ⟨udpQuota_ne_none frame counters, fun t ht hne => ?_, fun p ht hp hne => ?_,
      fun ht hp hlen => ?_⟩
    · have hharmless := h t ht
      rw [if_neg hne] at hharmless
      exact hpass.mpr hharmless
    · have hharmless := h ethPIp ht
      rw [if_pos rfl] at hharmless
      rcases hharmless with hlen | honly
      · exact udpQuota_of_notUdp counters hlen (by rw [hp]; simpa using hne)
      · exact absurd (honly p hp) hne
    · obtain ⟨hdrop, hpassed⟩ := udpQuota_of_udphdr counters hp hlen
      refine ⟨⟨fun hverdict => ?_, hdrop⟩, hpassed⟩
      by_contra hexc
      rw [hpassed hexc] at hverdict
      cases hverdict

/-- An IPv6 frame (EtherType 0x86dd) of 54 bytes whose source address has 17 in the byte
    that IPv4 keeps its protocol in. -/
def ipv6LookingUdp : Frame :=
  List.replicate 12 0 ++ [0x86, 0xdd] ++
    [0x60, 0, 0, 0, 0, 0, 59, 64] ++ [0x20, 17, 0x0d, 0xb8, 10, 0, 0, 1, 0, 0, 0, 0, 0, 0, 0, 1] ++
    List.replicate 16 0

/-- The map of a server with five connections from 10.0.0.1. -/
def fiveFromOne : Counters where
  entries := AList.singleton ⟨10, 0, 0, 1⟩ 5#32
  size_le := by decide

/-- The frame carries no IPv4 packet, and is dropped for the sake of the IPv4 address that
    four bytes of its own address happen to spell. -/
theorem ipv6LookingUdp_not_verdictByHeaders :
    etherType ipv6LookingUdp = some 0x86dd ∧
      udpQuota ipv6LookingUdp fiveFromOne = some .drop ∧
        ¬ VerdictByHeaders ipv6LookingUdp fiveFromOne := by
  have hdrop : udpQuota ipv6LookingUdp fiveFromOne = some .drop := by decide
  refine ⟨by decide, hdrop, fun h => ?_⟩
  have hpass := h.otherEtherType 0x86dd (by decide) (by decide)
  rw [hdrop] at hpass
  cases hpass

end Equic.Kern
