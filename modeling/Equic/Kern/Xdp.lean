import Mathlib.Algebra.Order.Ring.Int
import Mathlib.Logic.Function.Basic

/-!
# The XDP slot of an interface

What the kernel keeps for the interface that eQUIC guards: at most one attached program.
The slot is shared by all processes, and a program stays in it until it is detached or
replaced, also when the process that attached it is gone.
-/

namespace Equic.Kern

/-- A loaded XDP program: one of the process we look at, named by its descriptor, or one of
    some other process. -/
inductive Prog where
  | own (fd : ℕ)
  | foreign (n : ℕ)
  deriving DecidableEq, Repr

/-- The interface, and the ids that the kernel gives to programs: fresh and not 0. -/
structure XdpHost where
  ifIndex : ℕ
  idOf : Prog → ℕ
  idOf_ne_zero : ∀ prog, idOf prog ≠ 0
  idOf_injective : Function.Injective idOf

/-- The XDP flags that eQUIC uses. -/
structure XdpFlags where
  /-- `XDP_FLAGS_UPDATE_IF_NOEXIST` -/
  updateIfNoexist : Bool
  deriving DecidableEq, Repr

/-- The content of the slot. -/
abbrev XdpSlot := Option Prog

/-- What another process does to the slot. -/
inductive ForeignStep where
  /-- It attaches a program, or replaces the one that is there. -/
  | put (n : ℕ)
  | remove
  deriving DecidableEq, Repr

def foreignStep (_ : XdpSlot) : ForeignStep → XdpSlot
  | .put n => some (.foreign n)
  | .remove => none

namespace XdpHost

variable (H : XdpHost)

/-- `bpf_set_link_xdp_fd` when it succeeds; `none` if it cannot. A negative descriptor
    detaches. -/
def setLinkXdpFd (slot : XdpSlot) (ifIndex : ℕ) (fd : ℤ) (flags : XdpFlags) : Option XdpSlot :=
  if ifIndex ≠ H.ifIndex then none
  else if fd < 0 then some none
  else if flags.updateIfNoexist && slot.isSome then none
  else some (some (.own fd.toNat))

/-- The id that `bpf_get_link_xdp_id` reports: 0 if no program is attached. -/
def linkId (slot : XdpSlot) (ifIndex : ℕ) : ℕ :=
  if ifIndex = H.ifIndex then slot.elim 0 H.idOf else 0

variable {H} {slot slot' : XdpSlot} {ifIndex : ℕ} {fd : ℤ} {flags : XdpFlags}

theorem setLinkXdpFd_detach (hfd : fd < 0)
    (h : H.setLinkXdpFd slot ifIndex fd flags = some slot') :
    ifIndex = H.ifIndex ∧ slot' = none := by
  unfold setLinkXdpFd at h
  split at h
  · cases h
  · rename_i hif
    exact ⟨not_not.mp hif, (Option.some.inj h).symm⟩

/-- What is attached is a program of the caller. -/
theorem setLinkXdpFd_own (hfd : 0 ≤ fd) (h : H.setLinkXdpFd slot ifIndex fd flags = some slot') :
    slot' = some (.own fd.toNat) := by
  unfold setLinkXdpFd at h
  split at h
  · cases h
  · rw [if_neg (not_lt.mpr hfd)] at h
    obtain ⟨-, h⟩ := Option.ite_none_left_eq_some.mp h
    exact (Option.some.inj h).symm

/-- With `XDP_FLAGS_UPDATE_IF_NOEXIST` only an empty slot takes a program. -/
theorem setLinkXdpFd_attach (hfd : 0 ≤ fd) (hflags : flags.updateIfNoexist = true)
    (h : H.setLinkXdpFd slot ifIndex fd flags = some slot') :
    slot = none := by
  unfold setLinkXdpFd at h
  split at h
  · cases h
  · rw [if_neg (not_lt.mpr hfd), hflags, Bool.true_and] at h
    obtain ⟨hempty, -⟩ := Option.ite_none_left_eq_some.mp h
    simpa using hempty

theorem linkId_eq_idOf {prog : Prog} (hslot : slot = some prog)
    (hid : H.linkId slot ifIndex ≠ 0) : H.linkId slot ifIndex = H.idOf prog := by
  unfold linkId at hid ⊢
  split
  · rw [hslot, Option.elim_some]
  · rename_i hif
    rw [if_neg hif] at hid
    exact absurd rfl hid

theorem linkId_ne_zero (hid : H.linkId slot ifIndex ≠ 0) :
    ifIndex = H.ifIndex ∧ slot ≠ none := by
  unfold linkId at hid
  split at hid
  · rename_i hif
    refine ⟨hif, ?_⟩
    rintro rfl
    exact hid rfl
  · exact absurd rfl hid

theorem linkId_self (prog : Prog) : H.linkId (some prog) H.ifIndex = H.idOf prog := by
  unfold linkId
  rw [if_pos rfl, Option.elim_some]

end XdpHost

end Equic.Kern
