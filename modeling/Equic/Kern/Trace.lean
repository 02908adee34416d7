import Equic.Kern.UdpQuota
import Mathlib.Data.Option.Basic

/-!
# The trace of the XDP program

Compiled with `DEBUG`, as the Makefile does, `udp_quota` reads the clock and calls
`bpf_printk` on its way to each verdict. `udpQuotaDebug` is the program with these calls. They
leave the verdict alone, and what they say is right: a blocking time is printed for a frame
exactly if the frame is dropped.
-/

namespace Equic.Kern

open Equic.Foundation Equic.Net

/-! ## §1 The program -/

/-- The calls of `bpf_printk`, with their arguments. -/
inductive TraceMsg where
  | lookupMiss (key : InAddr)
  | quotaExceeded (currValue : CInt)
  | blockDuration (elapsedUs beginInNs endInNs : UInt64)
  | lookupHit (key : InAddr)
  | notUdp
  deriving DecidableEq, Repr

/-- `udp_quota` with `DEBUG`; `beginInNs` and `endInNs` are what `bpf_ktime_get_ns` returns. -/
def udpQuotaDebug (frame : Frame) (counters : Counters) (beginInNs endInNs : UInt64) :
    Option (XdpAction × List TraceMsg) :=
  let ipBegin := sizeofEthhdr
  let ipEnd := ipBegin + sizeofIphdr
  if ipEnd > frame.length then
    some (.aborted, [])
  else do
    let key ← udpQuotaKey frame
    let protocol ← frame[ipBegin + 9]?
    if protocol = ipprotoUdp then
      if ipBegin + sizeofIphdr + sizeofUdphdr > frame.length then
        return (.aborted, [])
      match counters.lookup key with
      | none => return (.pass, [.lookupMiss key])
      | some currValue =>
        if currValue.toInt ≥ quicQuotaLimit then
          let elapsedUs := (endInNs - beginInNs) / 1000
          return (.drop, [.quotaExceeded currValue, .blockDuration elapsedUs beginInNs endInNs])
        return (.pass, [.lookupHit key])
    else
      return (.pass, [.notUdp])

/-! ## §2 What it prints -/

/-- The blocking time that a message reports. -/
def TraceMsg.blockTime : TraceMsg → Option UInt64
  | .blockDuration elapsedUs _ _ => some elapsedUs
  | _ => none

theorem TraceMsg.exists_of_blockTime {msg : TraceMsg} {elapsedUs : UInt64}
    (h : msg.blockTime = some elapsedUs) :
    ∃ beginInNs endInNs, msg = .blockDuration elapsedUs beginInNs endInNs := by
  cases msg with
  | blockDuration us beginInNs endInNs =>
    obtain rfl := Option.some.inj h
    exact ⟨beginInNs, endInNs, rfl⟩
  | lookupMiss key => cases h
  | quotaExceeded currValue => cases h
  | lookupHit key => cases h
  | notUdp => cases h

/-- The verdict is that of `udp_quota`, and one blocking time is printed for a frame that is
    dropped and none for any other. -/
theorem udpQuotaDebug_spec (frame : Frame) (counters : Counters) (beginInNs endInNs : UInt64) :
    (udpQuotaDebug frame counters beginInNs endInNs).map Prod.fst = udpQuota frame counters ∧
      ∀ r, udpQuotaDebug frame counters beginInNs endInNs = some r →
        r.2.filterMap TraceMsg.blockTime =
          if r.1 = .drop then [(endInNs - beginInNs) / 1000] else [] := by
  unfold udpQuotaDebug udpQuota
  dsimp only
  by_cases hip : sizeofEthhdr + sizeofIphdr > frame.length
  · rw [if_pos hip, if_pos hip]
    refine ⟨rfl, ?_⟩
    rintro r ⟨⟩
    rfl
  · rw [if_neg hip, if_neg hip]
    cases udpQuotaKey frame with
    | none => exact ⟨rfl, by rintro r ⟨⟩⟩
    | some key =>
      cases frame[sizeofEthhdr + 9]? with
      | none => exact ⟨rfl, by rintro r ⟨⟩⟩
      | some protocol =>
        simp only [Option.bind_eq_bind, Option.bind_some]
        by_cases hudp : protocol = ipprotoUdp
        · rw [if_pos hudp, if_pos hudp]
          by_cases hlen : sizeofEthhdr + sizeofIphdr + sizeofUdphdr > frame.length
          · simp only [hlen, if_true]
            refine ⟨rfl, ?_⟩
            rintro r ⟨⟩
            rfl
          · simp only [hlen, if_false]
            cases counters.lookup key with
            | none =>
              refine ⟨rfl, ?_⟩
              rintro r ⟨⟩
              rfl
            | some currValue =>
              by_cases hexceeded : currValue.toInt ≥ quicQuotaLimit
              · simp only [hexceeded, if_true]
                refine ⟨rfl, ?_⟩
                rintro r ⟨⟩
                rfl
              · simp only [hexceeded, if_false]
                refine ⟨rfl, ?_⟩
                rintro r ⟨⟩
                rfl
        · rw [if_neg hudp, if_neg hudp]
          refine ⟨rfl, ?_⟩
          rintro r ⟨⟩
          rfl

/-! ## §3 The frames of a processor -/

/-- A frame that reaches the program, with the map and the clock at that time. -/
structure Passage where
  frame : Frame
  counters : Counters
  beginInNs : UInt64
  endInNs : UInt64

/-- What is printed for it. -/
def Passage.traced (p : Passage) : List TraceMsg :=
  ((udpQuotaDebug p.frame p.counters p.beginInNs p.endInNs).map Prod.snd).getD []

/-- How long the program took for a frame that it drops, in microseconds. -/
def Passage.dropTime (p : Passage) : List UInt64 :=
  if udpQuota p.frame p.counters = some .drop then [(p.endInNs - p.beginInNs) / 1000] else []

/-- **The trace of a frame** holds the time of a frame that is dropped, and no other time. -/
theorem Passage.blockTimes_traced (p : Passage) :
    p.traced.filterMap TraceMsg.blockTime = p.dropTime := by
  obtain ⟨hverdict, htimes⟩ := udpQuotaDebug_spec p.frame p.counters p.beginInNs p.endInNs
  rw [Passage.traced, Passage.dropTime, ← hverdict]
  cases hrun : udpQuotaDebug p.frame p.counters p.beginInNs p.endInNs with
  | none => rfl
  | some r =>
    simp only [Option.map_some, Option.getD_some, Option.some.injEq]
    exact htimes r hrun

end Equic.Kern
