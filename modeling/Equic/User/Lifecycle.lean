import Equic.Foundation.Process
import Equic.Kern.Xdp

/-!
# Loading and unloading the XDP program

The functions of `equic_user.c` around the life of the XDP program, as programs over the
calls they make: `equic_get_interface`, `equic_read_object` and `equic_load`, which end in
`exit` on every error, and the two signal callbacks, which always do.

A reply carries the value that the call returns and, where the call has one, the value it
stores through its out-parameter. Every read of `EQUIC_IFINDEX` or `EQUIC_PROG_ID` is a load
of its own: a handler may run beside the thread that sets them.
-/

namespace Equic.User

open Equic.Foundation Equic.Kern

/-! ## §1 Calls -/

/-- The threads: the one that runs `main`, and `tid` of `http_server.c`. -/
inductive ThreadId where
  | main
  | requestCounter
  deriving DecidableEq, Repr

inductive Signal where
  | int
  | term
  deriving DecidableEq, Repr

/-- The calls of `equic_user.c` and of the servers' `main` functions. -/
inductive Call where
  | ifNametoindex (ifName : String)
  | bpfProgLoadXattr (file : String)
  | bpfObjectFindMapByName (name : String)
  | bpfMapFd
  | bpfSetLinkXdpFd (ifIndex : ℕ) (fd : ℤ) (flags : XdpFlags)
  | bpfObjGetInfoByFd (fd : ℤ)
  | bpfGetLinkXdpId (ifIndex : ℕ) (flags : XdpFlags)
  | stat (path : String)
  | progSetOpt (opt : Char) (arg : String)
  | addAlpn (alpn : String)
  | progPrep
  /-- The event loop; the out value is the code of an `exit` in one of the stream
      callbacks, 0 if the loop ends. -/
  | progRun
  | progCleanup
  deriving DecidableEq, Repr

structure Reply where
  ret : ℤ
  out : ℕ
  deriving DecidableEq, Repr

/-- `static int EQUIC_IFINDEX` and `static __u32 EQUIC_PROG_ID`. -/
structure Globals where
  equicIfindex : ℕ
  equicProgId : ℕ
  deriving DecidableEq, Repr

inductive Store where
  | equicIfindex (v : ℕ)
  | equicProgId (v : ℕ)
  deriving DecidableEq, Repr

def Globals.set (g : Globals) : Store → Globals
  | .equicIfindex v => { g with equicIfindex := v }
  | .equicProgId v => { g with equicProgId := v }

/-- `EQUIC_XDP_FLAGS`. -/
def equicXdpFlags : XdpFlags := ⟨true⟩

abbrev Program := Proc Call Reply Store Signal Globals

abbrev ProcAct := Act Call Reply Store Signal Globals

abbrev ProcEvent := Label ThreadId Call Reply Store Signal Globals ForeignStep

/-- Which replies are possible, and what the calls do to the slot. -/
def kernelCall (H : XdpHost) (slot : XdpSlot) : Call → Reply → Option XdpSlot
  -- 0 is the error value of `if_nametoindex`
  | .ifNametoindex _, r => if r.ret = 0 ∨ r.ret = H.ifIndex then some slot else none
  | .bpfSetLinkXdpFd ifIndex fd flags, r =>
    -- a call that fails changes nothing
    if r.ret < 0 then some slot else H.setLinkXdpFd slot ifIndex fd flags
  | .bpfObjGetInfoByFd fd, r =>
    if r.ret ≠ 0 ∨ r.out = H.idOf (.own fd.toNat) then some slot else none
  | .bpfGetLinkXdpId ifIndex _, r =>
    if r.ret ≠ 0 ∨ r.out = H.linkId slot ifIndex then some slot else none
  | _, _ => some slot

/-- Only a `bpf_set_link_xdp_fd` that succeeds changes the slot. -/
theorem kernelCall_cases {H : XdpHost} {slot slot' : XdpSlot} {c : Call} {r : Reply}
    (h : kernelCall H slot c r = some slot') :
    slot' = slot ∨ ∃ ifIndex fd flags, c = .bpfSetLinkXdpFd ifIndex fd flags ∧ 0 ≤ r.ret ∧
      H.setLinkXdpFd slot ifIndex fd flags = some slot' := by
  cases c with
  | bpfSetLinkXdpFd ifIndex fd flags =>
    by_cases hret : r.ret < 0
    · simp only [kernelCall, if_pos hret] at h
      exact .inl (Option.some.inj h).symm
    · simp only [kernelCall, if_neg hret] at h
      exact .inr ⟨ifIndex, fd, flags, rfl, not_lt.mp hret, h⟩
  | ifNametoindex ifName =>
    obtain ⟨-, h⟩ := Option.ite_none_right_eq_some.mp h
    exact .inl (Option.some.inj h).symm
  | bpfObjGetInfoByFd fd =>
    obtain ⟨-, h⟩ := Option.ite_none_right_eq_some.mp h
    exact .inl (Option.some.inj h).symm
  | bpfGetLinkXdpId ifIndex flags =>
    obtain ⟨-, h⟩ := Option.ite_none_right_eq_some.mp h
    exact .inl (Option.some.inj h).symm
  | _ => exact .inl (Option.some.inj h).symm

/-! ## §2 The callbacks -/

/-- `EXIT_SUCCESS`. -/
def exitSuccess : ℤ := 0

/-- `EXIT_FAILURE`. -/
def exitFailure : ℤ := 1

/-- `equic_sigint_callback` once the id is found to be its own. -/
def unload : Program :=
  .load fun g =>
    .call (.bpfSetLinkXdpFd g.equicIfindex (-1) equicXdpFlags) fun _ => .exit exitSuccess

/-- `equic_sigint_callback` from the comparison of the ids. -/
def compareId (progId : ℕ) : Program :=
  .load fun g =>
    if progId = g.equicProgId then unload
    -- no program, or a program that is not ours: a message in either case
    else .exit exitSuccess

/-- `equic_sigint_callback`. -/
def equicSigintCallback : Program :=
  .load fun g =>
    .call (.bpfGetLinkXdpId g.equicIfindex equicXdpFlags) fun r =>
      if r.ret ≠ 0 then .exit exitFailure else compareId r.out

/-- `equic_sigterm_callback`: the same behavior as SIGINT. -/
def equicSigtermCallback : Program := equicSigintCallback

/-- A process that uses `equic_user.c`. -/
def platform (H : XdpHost) : Platform Call Reply Store Signal Globals ForeignStep XdpSlot where
  call := kernelCall H
  env := foreignStep
  store := Globals.set
  handler
    | .int => equicSigintCallback
    | .term => equicSigtermCallback

abbrev EquicProcess := Process ThreadId Call Reply Store Signal Globals XdpSlot

/-! ## §3 Loading -/

/-- `equic_t`. -/
structure EquicT where
  ifIndex : ℕ
  progFd : ℤ
  countersMapFd : ℤ

/-- `equic_get_interface`. -/
def equicGetInterface (equic : EquicT) (ifName : String) (k : EquicT → Program) : Program :=
  .call (.ifNametoindex ifName) fun r =>
    let equic := { equic with ifIndex := r.ret.toNat }
    -- the global is set before the index is checked
    .store (.equicIfindex equic.ifIndex) <|
      if equic.ifIndex = 0 then .exit exitFailure else k equic

/-- `equic_read_object`. -/
def equicReadObject (equic : EquicT) (bpfProgPath : String) (k : EquicT → Program) : Program :=
  .call (.bpfProgLoadXattr bpfProgPath) fun r =>
    let equic := { equic with progFd := r.out }
    if r.ret ≠ 0 then .exit exitFailure
    else .call (.bpfObjectFindMapByName "counters") fun r =>
      if r.ret = 0 then .exit exitFailure
      else .call .bpfMapFd fun r =>
        let equic := { equic with countersMapFd := r.ret }
        -- descriptor 0 is taken for an error
        if equic.progFd = 0 then .exit exitFailure else k equic

/-- `equic_load`. -/
def equicLoad (equic : EquicT) (k : Program) : Program :=
  .call (.bpfSetLinkXdpFd equic.ifIndex equic.progFd equicXdpFlags) fun r =>
    if r.ret < 0 then .exit exitFailure
    -- from here on the program is attached, but its id is not recorded yet
    else .call (.bpfObjGetInfoByFd equic.progFd) fun r =>
      if r.ret ≠ 0 then .exit exitFailure
      else .store (.equicProgId r.out) k

/-- `equic_t equic;`, before it is filled in. -/
def EquicT.uninit : EquicT := ⟨0, 0, 0⟩

/-- The setup that every `main` runs: the interface and the object, the handlers, and only
    then the load. -/
def equicSetup (k : Program) : Program :=
  equicGetInterface .uninit "eth0" fun equic =>
    equicReadObject equic "/src/equic/bin/equic_kern.o" fun equic =>
      .install .int <| .install .term <| equicLoad equic k

end Equic.User
