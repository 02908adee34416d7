import Equic.Server.System

/-!
# Accounting in user-space mode

What the entries of `Quotas` mean over whole runs of the callbacks with `has_eBPF = 0`.

Every close callback runs `dec_quota`, also the one of a connection that
`reached_quota_limit` refused and that never went through `inc_quota`. So an entry is in
general only a lower bound of the number of admitted open connections
(`userSpace_refusal_justified`), and it is exact precisely as long as no close callback
releases a slot other than the one its connection holds
(`userSpace_countsAdmitted_iff`).
-/

namespace Equic.Accounting

open Equic.Foundation Equic.Net Equic.Server

/-! ## §1 Admitted connections -/

/-- The entry of `Quotas` in which a connection was counted, if it was admitted. -/
def quotaSlot (r : Conn) : Option (Fin 256) :=
  if r.counted then some (quotaIndex (.inet r.openedFrom)) else none

/-- Number of connections with key `k` that were admitted and are not yet closed. -/
def admittedOpen (s : System) (k : Fin 256) : ℕ := holders quotaSlot s.live k

/-- `Quotas` counts exactly the admitted open connections, and no key has more of them than
    `QUOTA_LIMIT`. -/
structure CountsAdmitted (s : System) : Prop where
  exact : ∀ k, quotaLevel s.server.quotas k = admittedOpen s k
  bounded : ∀ k, (admittedOpen s k : ℤ) ≤ quotaLimit

/-- User-space mode, with every entry within `0..QUOTA_LIMIT`. -/
structure QuotasInRange (s : System) : Prop where
  userSpace : s.server.ctx.hasEBPF = false
  nonneg : ∀ k, 0 ≤ quotaLevel s.server.quotas k
  le_limit : ∀ k, quotaLevel s.server.quotas k ≤ quotaLimit

theorem quotasInRange_initial (maxConn : UInt32) (cooldown : Bool) :
    QuotasInRange (System.initial ⟨false, maxConn, cooldown⟩) where
  userSpace := rfl
  nonneg _ := le_rfl
  le_limit _ := show (0 : ℤ) ≤ 5 by decide

/-! ## §2 One step -/

section Step

variable {s : System} {c : ConnId} {peer : SockaddrIn} {fault : Bool} {now : Timespec} {r : Conn}

/-- An open callback raises the entry of the slot that the new connection gets. -/
theorem quotaLevel_newConn (h : s.server.ctx.hasEBPF = false) :
    quotaLevel (httpServerOnNewConn fault now s.server c (.inet peer)).server.quotas =
      shift (quotaLevel s.server.quotas)
        (quotaSlot ⟨peer, peer, takesSlot fault s.server peer⟩) 1 := by
  rw [httpServerOnNewConn_quotas fault now c (.inet peer) h]
  cases hreached : (reachedQuotaLimit s.server.quotas (.inet peer)).1 with
  | true => simp [quotaSlot, takesSlot, h, hreached]
  | false =>
    have hslot : quotaSlot ⟨peer, peer, takesSlot fault s.server peer⟩ =
        some (quotaIndex (.inet peer)) := by
      simp [quotaSlot, takesSlot, h, hreached]
    rw [hslot, if_neg (by simp)]
    exact incQuota_level hreached

/-- A close callback lowers the entry of the peer's current address, if it is positive. -/
theorem quotaLevel_connClosed (h : s.server.ctx.hasEBPF = false) :
    quotaLevel (httpServerOnConnClosed fault now s.server (.inet r.peer)).1.quotas =
      shift (quotaLevel s.server.quotas)
        (releasedIndex s.server.quotas (.inet r.peer)) (-1) := by
  rw [httpServerOnConnClosed_quotas fault now (.inet r.peer) h]
  exact decQuota_level _ _

/-- The slot taken by an open callback was below the limit. -/
theorem lt_limit_of_takesSlot (h : s.server.ctx.hasEBPF = false)
    (htakes : takesSlot fault s.server peer = true) :
    quotaLevel s.server.quotas (quotaIndex (.inet peer)) < quotaLimit := by
  simp only [takesSlot, h, Bool.false_eq_true, if_false, Bool.not_eq_true'] at htakes
  rw [← not_le, ← reachedQuotaLimit_iff, htakes]
  simp

end Step

/-- The range of the entries is an invariant, whatever the order of the callbacks. -/
theorem quotasInRange_step {s s' : System} {e : Event} (hs : QuotasInRange s)
    (h : step s e = some s') : QuotasInRange s' := by
  have hmode := (step_hasEBPF h).trans hs.userSpace
  obtain ⟨c, peer, fault, now, rfl, -, rfl⟩ | ⟨c, peer, r, rfl, -, rfl⟩ |
    ⟨c, fault, now, r, rfl, -, rfl⟩ := step_cases h
  · refine ⟨hmode, fun k => ?_, fun k => ?_⟩
    · rw [quotaLevel_newConn hs.userSpace, shift]
      have := hs.nonneg k
      split <;> omega
    · rw [quotaLevel_newConn hs.userSpace, shift]
      have hk := hs.le_limit k
      split
      · -- only a slot below the limit is taken
        rename_i hslot
        simp only [quotaSlot, Option.ite_none_right_eq_some, Option.some.injEq] at hslot
        obtain ⟨htakes, rfl⟩ := hslot
        have := lt_limit_of_takesSlot hs.userSpace htakes
        omega
      · omega
  · exact ⟨hmode, hs.nonneg, hs.le_limit⟩
  · refine ⟨hmode, fun k => ?_, fun k => ?_⟩
    · rw [quotaLevel_connClosed hs.userSpace, shift]
      have := hs.nonneg k
      split
      · rename_i hreleased
        simp only [releasedIndex, Option.ite_none_right_eq_some, Option.some.injEq] at hreleased
        obtain ⟨hpos, rfl⟩ := hreleased
        omega
      · omega
    · rw [quotaLevel_connClosed hs.userSpace, shift]
      have := hs.le_limit k
      split <;> omega

/-! ## §3 When the entries are exact -/

/-- A close callback that releases what its connection holds: for an admitted connection
    the address at the close has the key of the address at the open; for a refused one
    the entry it is about to lower is already 0. -/
def ReleasesOwnSlot (s : System) : Event → Prop
  | .connClosed c _ _ => ∀ r, s.live.lookup c = some r →
      if r.counted then quotaIndex (.inet r.peer) = quotaIndex (.inet r.openedFrom)
      else quotaLevel s.server.quotas (quotaIndex (.inet r.peer)) = 0
  | _ => True

/-- In a balanced state the released entry is the slot held exactly under
    `ReleasesOwnSlot`. -/
theorem releasedIndex_eq_quotaSlot_iff {s : System} {c : ConnId} {r : Conn}
    (hs : QuotasInRange s) (hbal : Balanced quotaSlot (quotaLevel s.server.quotas) s.live)
    (hr : s.live.lookup c = some r) :
    releasedIndex s.server.quotas (.inet r.peer) = quotaSlot r ↔
      if r.counted then quotaIndex (.inet r.peer) = quotaIndex (.inet r.openedFrom)
      else quotaLevel s.server.quotas (quotaIndex (.inet r.peer)) = 0 := by
  cases hcounted : r.counted with
  | true =>
    have hslot : quotaSlot r = some (quotaIndex (.inet r.openedFrom)) := by
      simp [quotaSlot, hcounted]
    -- the entry it holds is positive, so under the same key `dec_quota` lowers it
    have hpos : 0 < quotaLevel s.server.quotas (quotaIndex (.inet r.openedFrom)) :=
      hbal.level_pos hr hslot
    rw [hslot, if_pos rfl, releasedIndex]
    constructor
    · intro h
      simp only [Option.ite_none_right_eq_some, Option.some.injEq] at h
      exact h.2
    · intro h
      rw [h, if_pos hpos]
  | false =>
    have hslot : quotaSlot r = none := by simp [quotaSlot, hcounted]
    have hnonneg := hs.nonneg (quotaIndex (.inet r.peer))
    rw [hslot, releasedIndex]
    simp only [ite_eq_right_iff, reduceCtorEq, imp_false, Bool.false_eq_true, if_false]
    omega

/-- One step keeps the entries exact precisely if it releases no foreign slot. -/
theorem countsAdmitted_step_iff {s s' : System} {e : Event} (hI : QuotasInRange s)
    (hs : CountsAdmitted s) (h : step s e = some s') : CountsAdmitted s' ↔ ReleasesOwnSlot s e := by
  have hI' := quotasInRange_step hI h
  have hbal : Balanced quotaSlot (quotaLevel s.server.quotas) s.live := hs.exact
  -- the bound follows from exactness, since the entries stay in range
  have hbounded : CountsAdmitted s' ↔
      Balanced quotaSlot (quotaLevel s'.server.quotas) s'.live :=
    ⟨fun h => h.exact, fun h => ⟨h, fun k => by rw [admittedOpen, ← h k]; exact hI'.le_limit k⟩⟩
  rw [hbounded]
  obtain ⟨c, peer, fault, now, rfl, hc, rfl⟩ | ⟨c, peer, r, rfl, hr, rfl⟩ |
    ⟨c, fault, now, r, rfl, hr, rfl⟩ := step_cases h
  · -- opening is always exact: what is raised is what the record holds
    rw [balanced_insert_iff hbal hc]
    simp [quotaLevel_newConn hI.userSpace, ReleasesOwnSlot]
  · have hkeep : Balanced quotaSlot (quotaLevel s.server.quotas)
        (s.live.insert c { r with peer := peer }) :=
      (balanced_replace_iff hr rfl).mpr hbal
    simp [hkeep, ReleasesOwnSlot]
  · -- closing: the entry lowered must be the one that the record holds
    rw [balanced_erase_iff hbal hr, quotaLevel_connClosed hI.userSpace,
      shift_eq_shift_iff (by decide), releasedIndex_eq_quotaSlot_iff hI hbal hr]
    simp [ReleasesOwnSlot, hr]

/-- **Exactness of the user-space quota.** In a run of the callbacks from the all-zero
    array, `Quotas` counts exactly the admitted open connections in every state, and no
    key ever has more than `QUOTA_LIMIT` of them, if and only if every close callback
    releases its own connection's slot. -/
theorem userSpace_countsAdmitted_iff (maxConn : UInt32) (cooldown : Bool) (es : List Event) :
    StatesAlong step CountsAdmitted (System.initial ⟨false, maxConn, cooldown⟩) es ↔
      StepsAlong step ReleasesOwnSlot (System.initial ⟨false, maxConn, cooldown⟩) es := by
  have hinit : CountsAdmitted (System.initial ⟨false, maxConn, cooldown⟩) :=
    ⟨fun _ => rfl, fun _ => show (0 : ℤ) ≤ 5 by decide⟩
  refine statesAlong_iff_stepsAlong (I := QuotasInRange) (E := fun _ => True) ?_ ?_
    (quotasInRange_initial maxConn cooldown) hinit (fun _ _ => trivial)
  · exact fun s e s' _ hI _ h => quotasInRange_step hI h
  · exact fun s e s' _ hI hs h => countsAdmitted_step_iff hI hs h

/-- Five connections from one address, a sixth that is refused and closed, and a seventh
    that is admitted. -/
def refusedCloseRun : List Event :=
  let peer : SockaddrIn := ⟨4433, ⟨192, 168, 0, 7⟩⟩
  let now : Timespec := ⟨0, 0⟩
  [.newConn 1 peer false now, .newConn 2 peer false now, .newConn 3 peer false now,
    .newConn 4 peer false now, .newConn 5 peer false now, .newConn 6 peer false now,
    .connClosed 6 false now, .newConn 7 peer false now]

/-- The close callback of the refused connection takes a slot away from the admitted ones,
    so that six connections of one key end up admitted and open. -/
theorem refusedCloseRun_not_countsAdmitted :
    (∀ e ∈ refusedCloseRun, e.KeepsPeer) ∧
      ¬ StatesAlong step CountsAdmitted (System.initial ⟨false, 0, false⟩) refusedCloseRun := by
  refine ⟨by decide, fun h => ?_⟩
  have hlast := (h.get_exec (by decide +kernel)).bounded 7
  exact absurd hlast (by decide +kernel)

/-! ## §4 Refusals have a cause -/

/-- The entries are in range, and 0 for a key without admitted open connections. -/
structure QuotasJustified (s : System) : Prop extends QuotasInRange s where
  zero_of_none : ∀ k, admittedOpen s k = 0 → quotaLevel s.server.quotas k = 0

/-- A connection is refused only while `QUOTA_LIMIT` admitted connections with its key are
    open. -/
def RefusalJustified (s : System) (e : Event) : Prop :=
  ∀ c peer fault now, e = .newConn c peer fault now →
    (httpServerOnNewConn fault now s.server c (.inet peer)).closing = true →
      quotaLimit ≤ admittedOpen s (quotaIndex (.inet peer))

/-- The invariant behind both: an entry never exceeds the number of admitted open
    connections. -/
structure QuotasBelowOpen (s : System) : Prop extends QuotasInRange s where
  peersKept : PeersKept s
  le_open : ∀ k, quotaLevel s.server.quotas k ≤ admittedOpen s k

theorem quotasBelowOpen_initial (maxConn : UInt32) (cooldown : Bool) :
    QuotasBelowOpen (System.initial ⟨false, maxConn, cooldown⟩) where
  toQuotasInRange := quotasInRange_initial maxConn cooldown
  peersKept := peersKept_initial _
  le_open _ := le_rfl

/-- Closes of refused connections lower an entry below the count, closes of admitted ones
    lower both or clamp at 0; nothing raises an entry above the count. -/
theorem quotasBelowOpen_step {s s' : System} {e : Event} (he : e.KeepsPeer)
    (hs : QuotasBelowOpen s) (h : step s e = some s') : QuotasBelowOpen s' := by
  refine ⟨quotasInRange_step hs.toQuotasInRange h, peersKept_step he hs.peersKept h, fun k => ?_⟩
  have hmode := hs.userSpace
  have hk := hs.le_open k
  have hnonneg := hs.nonneg k
  obtain ⟨c, peer, fault, now, rfl, hc, rfl⟩ | ⟨c, peer, r, rfl, hr, rfl⟩ |
    ⟨c, fault, now, r, rfl, hr, rfl⟩ := step_cases h
  · -- both sides grow together
    rw [quotaLevel_newConn hmode, admittedOpen, holders_insert hc, shift]
    simp only [admittedOpen] at hk
    split <;> push_cast <;> omega
  · exact he.elim
  · have hopen : admittedOpen s k =
        holders quotaSlot (s.live.erase c) k + if quotaSlot r = some k then 1 else 0 :=
      holders_eq_erase_add hr k
    rw [quotaLevel_connClosed hmode, shift]
    show _ ≤ (holders quotaSlot (s.live.erase c) k : ℤ)
    by_cases hslot : quotaSlot r = some k
    · -- an admitted connection: its key is the one lowered, unless that is 0
      rw [if_pos hslot] at hopen
      have hkey : quotaIndex (.inet r.peer) = k := by
        simp only [quotaSlot, Option.ite_none_right_eq_some, Option.some.injEq] at hslot
        rw [hs.peersKept c r hr]
        exact hslot.2
      by_cases hpos : quotaLevel s.server.quotas k > 0
      · rw [if_pos (by rw [releasedIndex, hkey, if_pos hpos])]
        omega
      · split <;> omega
    · rw [if_neg hslot] at hopen
      split <;> omega

/-- **No client is refused without cause.** In every run in which connections keep their
    peer address, the entries of `Quotas` stay within `0..QUOTA_LIMIT` and are 0 for keys
    without admitted open connections, and a connection is refused only while
    `QUOTA_LIMIT` admitted connections with its key are open. -/
theorem userSpace_refusal_justified (maxConn : UInt32) (cooldown : Bool) (es : List Event)
    (hes : ∀ e ∈ es, e.KeepsPeer) :
    StatesAlong step QuotasJustified (System.initial ⟨false, maxConn, cooldown⟩) es ∧
      StepsAlong step RefusalJustified (System.initial ⟨false, maxConn, cooldown⟩) es := by
  have hinv : StatesAlong step QuotasBelowOpen (System.initial ⟨false, maxConn, cooldown⟩) es :=
    statesAlong_of_invariant (fun s e s' he hs h => quotasBelowOpen_step he hs h)
      (quotasBelowOpen_initial maxConn cooldown) hes
  constructor
  · -- an entry between 0 and an empty count is 0
    refine hinv.mono fun s hs => ⟨hs.toQuotasInRange, fun k hk => ?_⟩
    have hle := hs.le_open k
    have hge := hs.nonneg k
    omega
  · -- a refusal sees an entry at the limit, and the count is no smaller
    refine stepsAlong_of_statesAlong (fun s e s' _ hs _ => ?_) hinv hes
    rintro c peer fault now - hclosing
    rw [httpServerOnNewConn_closing fault now c (.inet peer) hs.userSpace,
      reachedQuotaLimit_iff] at hclosing
    exact le_trans hclosing (hs.le_open _)

/-- The refusal in `refusedCloseRun` happens with five admitted connections open. -/
theorem userSpace_refusal_justified_refusedCloseRun :
    StatesAlong step QuotasJustified (System.initial ⟨false, 0, false⟩) refusedCloseRun ∧
      StepsAlong step RefusalJustified (System.initial ⟨false, 0, false⟩) refusedCloseRun :=
  userSpace_refusal_justified 0 false refusedCloseRun (by decide)

end Equic.Accounting
