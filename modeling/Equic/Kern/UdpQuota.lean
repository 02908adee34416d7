import Equic.Kern.Counters

/-!
# The XDP program

`udp_quota` from `equic_kern.c`: it reads the source address of a frame by fixed offsets
and drops UDP traffic of an address whose counter has reached the quota. A read outside
the frame is `none`, so that the bounds checks of the program can be proved to suffice.
-/

namespace Equic.Kern

open Equic.Foundation Equic.Net

/-! ## §1 Frames and verdicts -/

/-- The bytes between `ctx->data` and `ctx->data_end`. -/
abbrev Frame := List UInt8

/-- The verdicts `udp_quota` returns. -/
inductive XdpAction where
  | aborted
  | drop
  | pass
  deriving DecidableEq, Repr

/-- `sizeof(struct ethhdr)`. -/
def sizeofEthhdr : ℕ := 14

/-- `sizeof(struct iphdr)`: the fixed part, without options. -/
def sizeofIphdr : ℕ := 20

/-- `sizeof(struct udphdr)`. -/
def sizeofUdphdr : ℕ := 8

/-- `IPPROTO_UDP`. -/
def ipprotoUdp : UInt8 := 17

/-- A four-byte load of an address, in memory order. -/
def loadInAddr (frame : Frame) (off : ℕ) : Option InAddr := do
  let o1 ← frame[off]?
  let o2 ← frame[off + 1]?
  let o3 ← frame[off + 2]?
  let o4 ← frame[off + 3]?
  return ⟨o1, o2, o3, o4⟩

/-! ## §2 `udp_quota` -/

/-- `ip->saddr`, at offset 12 of the IPv4 header: the key that `udp_quota` looks up. -/
def udpQuotaKey (frame : Frame) : Option InAddr := loadInAddr frame (sizeofEthhdr + 12)

/-- `udp_quota`: verifies if a given source IPv4 address has reached its connection quota
    limit. -/
def udpQuota (frame : Frame) (counters : Counters) : Option XdpAction :=
  let ipBegin := sizeofEthhdr
  let ipEnd := ipBegin + sizeofIphdr
  if ipEnd > frame.length then
    some .aborted
  else do
    let key ← udpQuotaKey frame
    -- `ip->protocol` is at offset 9 of the IPv4 header
    let protocol ← frame[ipBegin + 9]?
    if protocol = ipprotoUdp then
      -- the UDP header is taken to follow the fixed part of the IPv4 header
      if ipBegin + sizeofIphdr + sizeofUdphdr > frame.length then
        return .aborted
      match counters.lookup key with
      | none => return .pass
      | some currValue =>
        if currValue.toInt ≥ quicQuotaLimit then
          return .drop
        return .pass
    else
      return .pass

/-! ## §3 Well-formed IPv4/UDP frames -/

/-- A frame with full Ethernet, IPv4 and UDP headers, sent from `src`. -/
structure UdpFrameFrom (src : InAddr) (frame : Frame) : Prop where
  headers : sizeofEthhdr + sizeofIphdr + sizeofUdphdr ≤ frame.length
  etherType : frame[12]? = some 0x08 ∧ frame[13]? = some 0x00
  version : ∃ b, frame[sizeofEthhdr]? = some b ∧ b >>> 4 = 4 ∧ 5 ≤ b &&& 15
  protocol : frame[sizeofEthhdr + 9]? = some ipprotoUdp
  saddr : loadInAddr frame (sizeofEthhdr + 12) = some src

/-- On a well-formed frame the verdict is the comparison of the source's counter with the
    quota. -/
theorem udpQuota_of_udpFrameFrom {src : InAddr} {frame : Frame} (h : UdpFrameFrom src frame)
    (counters : Counters) :
    udpQuota frame counters =
      some (if quicQuotaLimit ≤ level counters src then .drop else .pass) := by
  obtain ⟨hlen, -, -, hprotocol, hsaddr⟩ := h
  -- both bounds checks succeed, so the verdict rests on the lookup
  have hip : ¬ sizeofEthhdr + sizeofIphdr > frame.length := by
    simp only [sizeofUdphdr] at hlen
    omega
  have hudp : ¬ sizeofEthhdr + sizeofIphdr + sizeofUdphdr > frame.length := by omega
  simp only [udpQuota, udpQuotaKey, hip, hudp, if_false, hsaddr, hprotocol, Option.bind_eq_bind,
    Option.bind_some, if_true]
  cases hlookup : counters.lookup src with
  | none =>
    have hzero : level counters src = 0 :=
      level_of_notMem (BoundedMap.lookup_eq_none.mp hlookup)
    simp [hzero, quicQuotaLimit]
  | some v =>
    rw [level_of_lookup hlookup]
    by_cases hv : quicQuotaLimit ≤ v.toInt <;> simp [hv]

/-- A frame is dropped exactly when its source has reached the quota. -/
theorem udpQuota_eq_drop_iff {src : InAddr} {frame : Frame} (h : UdpFrameFrom src frame)
    (counters : Counters) :
    udpQuota frame counters = some .drop ↔ quicQuotaLimit ≤ level counters src := by
  rw [udpQuota_of_udpFrameFrom h]
  by_cases hq : quicQuotaLimit ≤ level counters src <;> simp [hq]

/-- A well-formed frame that is not dropped is passed. -/
theorem udpQuota_eq_pass_iff {src : InAddr} {frame : Frame} (h : UdpFrameFrom src frame)
    (counters : Counters) :
    udpQuota frame counters = some .pass ↔ level counters src < quicQuotaLimit := by
  rw [udpQuota_of_udpFrameFrom h]
  by_cases hq : quicQuotaLimit ≤ level counters src
  · simp [hq]
  · simpa [hq] using not_le.mp hq

/-- The smallest well-formed frame of a source: headers only, no payload. -/
def udpFrame (src : InAddr) : Frame :=
  List.replicate 12 0 ++ [0x08, 0x00] ++
    [0x45, 0, 0, 28, 0, 0, 0, 0, 64, 17, 0, 0] ++ src.bytes ++ List.replicate 4 0 ++
    List.replicate 8 0

theorem udpFrame_udpFrameFrom (src : InAddr) : UdpFrameFrom src (udpFrame src) where
  headers := le_rfl
  etherType := ⟨rfl, rfl⟩
  version := ⟨0x45, rfl, by decide, by decide⟩
  protocol := rfl
  saddr := rfl

/-- A UDP packet of a client, as the frame that reaches the interface. -/
structure Packet where
  peer : SockaddrIn
  frame : Frame
  wellFormed : UdpFrameFrom peer.sinAddr frame

/-- The smallest packet of a client. -/
def packetFrom (peer : SockaddrIn) : Packet :=
  ⟨peer, udpFrame peer.sinAddr, udpFrame_udpFrameFrom peer.sinAddr⟩

end Equic.Kern
