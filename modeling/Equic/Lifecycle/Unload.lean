import Equic.Lifecycle.Ownership

/-!
# Whether the program outlives the process

On an interface that no other process touches, only the handlers ever detach, and they only
detach when the program they asked about is the one whose id they find recorded. So the XDP
program stays attached after a normal end, after every error exit behind `equic_load`, and
after a signal that comes before `EQUIC_PROG_ID` is set.

`detached_iff` gives the runs that leave nothing behind: those that attach nothing, and
those in which, after the last attach, a handler that has found the recorded program gets
from its last load to its next call.
-/

namespace Equic.Lifecycle

open Equic.Foundation Equic.Kern Equic.User Equic.Server

/-! ## §1 Records of a run -/

/-- `bpf_set_link_xdp_fd` succeeded in attaching a program. -/
def IsAttach : ProcEvent → Prop
  | .thread _ (.call (.bpfSetLinkXdpFd _ fd _) r) => 0 ≤ fd ∧ 0 ≤ r.ret
  | _ => False

def IsSignal : ProcAct → Prop
  | .signal _ => True
  | _ => False

def Attaches (labels : List ProcEvent) : Prop := ∃ l ∈ labels, IsAttach l

/-- A thread whose handler has found the recorded program attached, and has read the index
    of the interface, came to its next act without another signal; nothing was attached
    after that. -/
def Unloads (H : XdpHost) (labels : List ProcEvent) : Prop :=
  ∃ pre t act post, labels = pre ++ .thread t act :: post ∧
    FoundOwn H.ifIndex (pastOf t pre) ∧ ¬ IsSignal act ∧ ∀ l ∈ post, ¬ IsAttach l

/-- The last step was such an act. -/
def UnloadsLast (H : XdpHost) (labels : List ProcEvent) (l : ProcEvent) : Prop :=
  ∃ t act, l = .thread t act ∧ FoundOwn H.ifIndex (pastOf t labels) ∧ ¬ IsSignal act

variable {H : XdpHost} {s s' : EquicProcess} {l : ProcEvent} {labels : List ProcEvent}

theorem attaches_snoc : Attaches (labels ++ [l]) ↔ Attaches labels ∨ IsAttach l := by
  simp [Attaches, or_and_right, exists_or]

theorem unloads_snoc :
    Unloads H (labels ++ [l]) ↔ Unloads H labels ∧ ¬ IsAttach l ∨ UnloadsLast H labels l := by
  constructor
  · rintro ⟨pre, t, act, post, heq, hfound, hsig, hpost⟩
    -- the act is either the end of the record or inside the old one
    obtain ⟨rfl, rfl, -⟩ | ⟨post', rfl, rfl⟩ := snoc_eq_append_cons.mp heq
    · exact .inr ⟨t, act, rfl, hfound, hsig⟩
    · refine .inl ⟨⟨pre, t, act, post', rfl, hfound, hsig, fun l' hl' => ?_⟩, hpost l (by simp)⟩
      exact hpost l' (List.mem_append_left _ hl')
  · rintro (⟨⟨pre, t, act, post, rfl, hfound, hsig, hpost⟩, hl⟩ | ⟨t, act, rfl, hfound, hsig⟩)
    · refine ⟨pre, t, act, post ++ [l], by simp, hfound, hsig, fun l' hl' => ?_⟩
      rcases List.mem_append.mp hl' with hold | hnew
      · exact hpost l' hold
      · rw [List.mem_singleton.mp hnew]
        exact hl
    · exact ⟨labels, t, act, [], rfl, hfound, hsig, by simp⟩

/-! ## §2 One step -/

/-- Nobody else touches the interface, and detaching from it does not fail. -/
def Quiet (H : XdpHost) : ProcEvent → Prop
  | .env _ => False
  | .thread _ (.call (.bpfSetLinkXdpFd ifIndex fd _) r) =>
    fd < 0 → ifIndex = H.ifIndex → 0 ≤ r.ret
  | _ => True

/-- The slot holds no program of another process, and it is empty exactly if nothing was
    attached or a handler has detached what was. -/
structure Tracks (H : XdpHost) (labels : List ProcEvent) (s : EquicProcess) : Prop where
  own : ¬ Foreign s
  empty_iff : s.world = none ↔ ¬ Attaches labels ∨ Unloads H labels

/-- A step that leaves the slot alone and is not the end of a handler's way keeps track. -/
theorem Tracks.of_still (hs : Tracks H labels s) (hworld : s'.world = s.world)
    (hattach : ¬ IsAttach l) (hlast : ¬ UnloadsLast H labels l) : Tracks H (labels ++ [l]) s' := by
  refine ⟨?_, ?_⟩
  · rw [Foreign, hworld]
    exact hs.own
  · rw [hworld, attaches_snoc, unloads_snoc, or_iff_left hattach, or_iff_left hlast,
      and_iff_left hattach]
    exact hs.empty_iff

/-- Of the acts of a thread only a successful attach and the end of a handler's way change
    the slot. -/
theorem effect_world_still {t : ThreadId} {past : List ProcAct} {act : ProcAct}
    {p p' : Program} {blocked : List Signal} {sh sh' : Shared Signal Globals XdpSlot}
    (hrole : Role H t past p) (hnext : Proc.Next (platform H).handler p act p')
    (heffect : (platform H).effect sh blocked act = some sh')
    (hattach : ¬ IsAttach (.thread t act))
    (hlast : ¬ (FoundOwn H.ifIndex past ∧ ∀ sig, act ≠ .signal sig)) :
    sh'.world = sh.world := by
  by_cases hact : ∀ c r, act ≠ .call c r
  · exact Platform.effect_world heffect hact
  · push Not at hact
    obtain ⟨c, r, rfl⟩ := hact
    obtain ⟨w, hcall, rfl⟩ := Option.map_eq_some_iff.mp heffect
    rcases kernelCall_cases hcall with hsame | ⟨ifIndex, fd, flags, rfl, hret, hset⟩
    · exact hsame
    · by_cases hfd : fd < 0
      · -- a detach comes at the end of a handler's way
        obtain ⟨rfl, -⟩ := XdpHost.setLinkXdpFd_detach hfd hset
        have hfound := (hrole.handler_of_detach hnext hfd).foundOwn_iff.mpr rfl
        exact absurd ⟨hfound, by simp⟩ hlast
      · exact absurd ⟨not_lt.mp hfd, hret⟩ hattach

/-- A successful attach leaves a program of the process in the slot. -/
theorem effect_world_attach {t : ThreadId} {act : ProcAct} {blocked : List Signal}
    {sh sh' : Shared Signal Globals XdpSlot}
    (heffect : (platform H).effect sh blocked act = some sh')
    (hattach : IsAttach (.thread t act)) : ∃ fd, sh'.world = some (.own fd) := by
  unfold IsAttach at hattach
  split at hattach
  · rename_i t' ifIndex fd flags r heq
    obtain ⟨-, rfl⟩ := Label.thread.inj heq
    obtain ⟨w, hcall, rfl⟩ := Option.map_eq_some_iff.mp heffect
    simp only [platform, kernelCall, if_neg (not_lt.mpr hattach.2)] at hcall
    exact ⟨fd.toNat, XdpHost.setLinkXdpFd_own hattach.1 hcall⟩
  · exact hattach.elim

theorem not_isSignal_iff {act : ProcAct} : ¬ IsSignal act ↔ ∀ sig, act ≠ .signal sig := by
  cases act <;> simp [IsSignal]

theorem tracks_step (hroles : Roles H labels s) (hl : Quiet H l) (hs : Tracks H labels s)
    (h : (platform H).step s l = some s') : Tracks H (labels ++ [l]) s' := by
  cases Platform.move_of_step h with
  -- nobody else moves
  | env e => exact hl.elim
  | kill sig hset =>
    refine hs.of_still rfl id ?_
    rintro ⟨t, act, heq, -⟩
    cases heq
  | thread t act p p' blocked sh hth hnext heffect =>
    have hrole := hroles t p (programOf_eq hth)
    by_cases hlast : FoundOwn H.ifIndex (pastOf t labels) ∧ ∀ sig, act ≠ .signal sig
    · -- the handler detaches, which does not fail
      obtain ⟨r, rfl⟩ := hrole.next_of_foundOwn hlast.1 hnext hlast.2
      have hret : 0 ≤ r.ret := hl (by decide) rfl
      obtain ⟨w, hcall, rfl⟩ := Option.map_eq_some_iff.mp heffect
      simp only [platform, kernelCall, if_neg (not_lt.mpr hret)] at hcall
      obtain ⟨-, rfl⟩ := XdpHost.setLinkXdpFd_detach (by decide) hcall
      refine ⟨?_, iff_of_true rfl (.inr (unloads_snoc.mpr (.inr ?_)))⟩
      · rintro ⟨n, hn⟩
        cases hn
      · exact ⟨t, _, rfl, hlast.1, not_isSignal_iff.mpr hlast.2⟩
    · have hnot : ¬ UnloadsLast H labels (.thread t act) := by
        rintro ⟨t', act', heq, hfound, hsig⟩
        obtain ⟨rfl, rfl⟩ := Label.thread.inj heq
        exact hlast ⟨hfound, not_isSignal_iff.mp hsig⟩
      by_cases hattach : IsAttach (.thread t act)
      · have hown := effect_world_attach heffect hattach
        refine ⟨?_, iff_of_false ?_ ?_⟩
        · rintro ⟨n, hn⟩
          obtain ⟨fd, hfd⟩ := hown
          cases hfd.symm.trans hn
        · intro hempty
          obtain ⟨fd, hfd⟩ := hown
          cases hfd.symm.trans hempty
        · -- an unload counts only if it comes after the last attach
          rw [attaches_snoc, unloads_snoc]
          rintro (hno | ⟨-, hno⟩ | hend)
          · exact hno (.inr hattach)
          · exact hno hattach
          · exact hnot hend
      · exact hs.of_still (effect_world_still hrole hnext heffect hattach hlast) hattach hnot

/-! ## §3 Runs -/

theorem tracks_exec {b : Binary} (hquiet : ∀ l ∈ labels, Quiet H l)
    (h : exec (platform H).step (b.start none) labels = some s) : Tracks H labels s := by
  refine exec_induction (P := fun labels s => (∀ l ∈ labels, Quiet H l) → Tracks H labels s)
    ?_ ?_ h hquiet
  · intro _
    refine ⟨?_, iff_of_true rfl (.inl (by simp [Attaches]))⟩
    rintro ⟨n, hn⟩
    cases hn
  · intro labels m l m' hexec hm hstep hquiet
    have htracks := hm fun l' hl' => hquiet l' (List.mem_append_left _ hl')
    exact tracks_step (fun t p hp => role_exec hexec hp) (hquiet l (by simp)) htracks hstep

/-- None of the programs that the process attached is attached any more. -/
def Detached (s : EquicProcess) : Prop := ∀ fd, s.world ≠ some (.own fd)

/-- **What a process leaves behind.** Start a binary on an interface without a program that
    no other process touches, let signals come at any moment in any of its threads and every
    call fail but the detach. At any moment, so also when the process has ended, none of its
    programs is attached if and only if it attached none so far, or, after the last attach, a
    handler that had found the recorded program and read the index got to its next act before
    another signal. -/
theorem detached_iff (H : XdpHost) (b : Binary) (labels : List ProcEvent)
    {t : EquicProcess} (hquiet : ∀ l ∈ labels, Quiet H l)
    (h : exec (platform H).step (b.start none) labels = some t) :
    Detached t ↔ ¬ Attaches labels ∨ Unloads H labels := by
  have htracks := tracks_exec hquiet h
  rw [← htracks.empty_iff]
  constructor
  · intro hdetached
    cases hworld : t.world with
    | none => rfl
    | some prog =>
      cases prog with
      | own fd => exact absurd hworld (hdetached fd)
      | foreign n => exact absurd ⟨n, hworld⟩ htracks.own
  · intro hempty fd hown
    rw [hempty] at hown
    cases hown

/-- An echo server whose event loop ends by itself, after as many connections as `-n` says. -/
def normalEndRun : List ProcEvent :=
  setupRun ++ List.map (Label.thread ThreadId.main)
    [.call .progPrep ⟨0, 0⟩, .call .progRun ⟨0, 0⟩, .call .progCleanup ⟨0, 0⟩, .exit 0]

theorem normalEndRun_isSome :
    (exec (platform sampleHost).step ((Binary.echoServer [.n]).start none)
      normalEndRun).isSome := by
  decide +kernel

theorem normalEndRun_quiet : ∀ l ∈ normalEndRun, Quiet sampleHost l := by
  simp [normalEndRun, setupRun, Quiet]

/-- The characterization at `normalEndRun`. -/
theorem detached_iff_normalEndRun :
    Detached ((exec (platform sampleHost).step ((Binary.echoServer [.n]).start none)
        normalEndRun).get normalEndRun_isSome) ↔
      ¬ Attaches normalEndRun ∨ Unloads sampleHost normalEndRun :=
  detached_iff sampleHost (.echoServer [.n]) normalEndRun normalEndRun_quiet
    (Option.some_get _).symm

/-- The server has exited, and its program is still attached. -/
theorem normalEndRun_not_detached :
    ∃ t, exec (platform sampleHost).step ((Binary.echoServer [.n]).start none) normalEndRun =
        some t ∧
      (∀ l ∈ normalEndRun, Quiet sampleHost l) ∧ t.ended = some (.exited 0) ∧ ¬ Detached t := by
  refine ⟨_, (Option.some_get normalEndRun_isSome).symm, normalEndRun_quiet, by rfl, ?_⟩
  intro h
  exact h 3 (by rfl)

end Equic.Lifecycle
