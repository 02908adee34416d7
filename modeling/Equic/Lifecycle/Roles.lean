import Equic.Server.Main

/-!
# What the threads are about to do

A typestate for programs that load the XDP program, `Main`: it attaches only with
`XDP_FLAGS_UPDATE_IF_NOEXIST`, leaves queries and detaches to the handlers, records no other
id than that of one of its own programs, and installs the handlers only while `EQUIC_IFINDEX`
is the index of the interface. All three binaries are such programs (`main_binary`).

A handler goes through the stages of `Stage`, and the last acts of its thread tell which one
it has come to (`Handler`). So the history of a thread determines its role (`role_exec`); the
results on signals only use the roles, not the text of the programs.
-/

namespace Equic.Lifecycle

open Equic.Foundation Equic.Kern Equic.User Equic.Server

variable {H : XdpHost}

/-! ## §1 Main programs -/

/-- The calls of a main program. -/
def IsMainCall : Call → Prop
  | .bpfSetLinkXdpFd _ fd flags => 0 ≤ fd ∧ flags.updateIfNoexist = true
  | .bpfGetLinkXdpId .. => False
  | _ => True

/-- A reply that the call can get on some slot. -/
def IsReply (H : XdpHost) (c : Call) (r : Reply) : Prop :=
  ∃ slot slot', kernelCall H slot c r = some slot'

/-- Main programs; the index says whether `EQUIC_IFINDEX` is known to be right. -/
inductive Main (H : XdpHost) : Bool → Program → Prop where
  | call {q c k} (hc : IsMainCall c) (hk : ∀ r, IsReply H c r → Main H q (k r)) :
      Main H q (.call c k)
  | setIfindex {q k} (hk : Main H true k) : Main H q (.store (.equicIfindex H.ifIndex) k)
  /-- Only right before the end may the index be another one. -/
  | loseIfindex {q v code} : Main H q (.store (.equicIfindex v) (.exit code))
  | setProgId {q fd k} (hk : Main H q k) :
      Main H q (.store (.equicProgId (H.idOf (.own fd))) k)
  | install {sig k} (hk : Main H true k) : Main H true (.install sig k)
  | exit {q code} : Main H q (.exit code)

theorem isReply_bpfObjGetInfoByFd {fd : ℤ} {r : Reply} (h : IsReply H (.bpfObjGetInfoByFd fd) r)
    (hret : r.ret = 0) : r.out = H.idOf (.own fd.toNat) := by
  obtain ⟨slot, slot', h⟩ := h
  obtain ⟨hreply, -⟩ := Option.ite_none_right_eq_some.mp h
  exact hreply.resolve_left (not_not.mpr hret)

theorem isReply_ifNametoindex {ifName : String} {r : Reply}
    (h : IsReply H (.ifNametoindex ifName) r) : r.ret = 0 ∨ r.ret = H.ifIndex := by
  obtain ⟨slot, slot', h⟩ := h
  exact (Option.ite_none_right_eq_some.mp h).1

theorem main_equicLoad {equic : EquicT} {k : Program} (hfd : 0 ≤ equic.progFd)
    (hk : Main H true k) : Main H true (equicLoad equic k) := by
  refine .call ⟨hfd, rfl⟩ fun r _ => ?_
  split
  · exact .exit
  · refine .call trivial fun r' hr' => ?_
    split
    · exact .exit
    · -- the id that is recorded is the one the kernel reported
      rename_i hret
      rw [isReply_bpfObjGetInfoByFd hr' (not_not.mp hret)]
      exact .setProgId hk

theorem main_equicReadObject {equic : EquicT} {path : String} {k : EquicT → Program}
    (hk : ∀ equic, 0 ≤ equic.progFd → Main H true (k equic)) :
    Main H true (equicReadObject equic path k) := by
  refine .call trivial fun r _ => ?_
  dsimp only
  split
  · exact .exit
  · refine .call trivial fun r' _ => ?_
    split
    · exact .exit
    · refine .call trivial fun r'' _ => ?_
      split
      · exact .exit
      · -- the descriptor is the out value of the load
        exact hk _ (Int.natCast_nonneg _)

theorem main_equicGetInterface {q : Bool} {equic : EquicT} {ifName : String}
    {k : EquicT → Program} (hk : ∀ equic, Main H true (k equic)) :
    Main H q (equicGetInterface equic ifName k) := by
  refine .call trivial fun r hr => ?_
  dsimp only
  split
  · exact .loseIfindex
  · -- a reply that is not 0 is the index of the interface
    rename_i hne
    have hret : r.ret ≠ 0 := fun h => hne (by rw [h]; rfl)
    rw [(isReply_ifNametoindex hr).resolve_left hret, Int.toNat_natCast]
    exact .setIfindex (hk _)

theorem main_equicSetup {q : Bool} {k : Program} (hk : Main H true k) :
    Main H q (equicSetup k) := by
  apply main_equicGetInterface
  intro equic
  apply main_equicReadObject
  intro equic hfd
  exact .install (.install (main_equicLoad hfd hk))

theorem main_serve (q : Bool) : Main H q serve := by
  refine .call trivial fun r _ => ?_
  split
  · exact .exit
  · refine .call trivial fun r' _ => ?_
    split
    · exact .exit
    · exact .call trivial fun _ _ => .exit

theorem main_echoOptions (opts : List EchoOpt) (q : Bool) : Main H q (echoOptions opts) := by
  induction opts with
  | nil => exact main_serve q
  | cons opt opts ih =>
    cases opt with
    | n => exact ih
    | h => exact .exit
    | other opt arg =>
      refine .call trivial fun r _ => ?_
      split
      · exact .exit
      · exact ih

theorem main_addAlpns (alpns : List String) (q : Bool) : Main H q (addAlpns alpns) := by
  induction alpns with
  | nil => exact main_serve q
  | cons alpn alpns ih =>
    refine .call trivial fun r _ => ?_
    split
    · exact ih
    · exact .exit

theorem main_httpOptions (h3Alpns : List String) (opts : List HttpOpt) (args : HttpArgs)
    (q : Bool) : Main H q (httpOptions h3Alpns opts args) := by
  -- over the command line; from the first `-e` on the index is known
  induction opts generalizing args q with
  | nil =>
    show Main H q (httpStart h3Alpns args)
    unfold httpStart
    split
    · exact .exit
    · exact main_addAlpns h3Alpns q
  | cons opt opts ih =>
    cases opt with
    | e => exact main_equicSetup (ih args true)
    | n => exact ih args q
    | p => exact ih args q
    | y => exact ih args q
    | w immediateWrite => exact ih _ q
    | P pwritev => exact ih _ q
    | h => exact .exit
    | Q alpn => exact .call trivial fun _ _ => ih args q
    | r path =>
      refine .call trivial fun r _ => ?_
      split
      · exact .exit
      · split
        · exact .exit
        · exact ih _ q
    | other opt arg =>
      refine .call trivial fun r _ => ?_
      split
      · exact .exit
      · exact ih args q

/-- Every binary runs a main program, whatever its command line. -/
theorem main_binary (b : Binary) : Main H false b.main := by
  cases b with
  | equic => exact main_equicSetup .exit
  | echoServer opts => exact main_equicSetup (main_echoOptions opts true)
  | httpServer h3Alpns opts => exact main_httpOptions h3Alpns opts _ _

/-- Main programs never detach. -/
theorem Main.fd_nonneg {q : Bool} {ifIndex : ℕ} {fd : ℤ} {flags : XdpFlags}
    {k : Reply → Program} (h : Main H q (.call (.bpfSetLinkXdpFd ifIndex fd flags) k)) :
    0 ≤ fd := by
  cases h with
  | call hc hk => exact hc.1

/-! ## §2 Handlers -/

/-- Where a handler can be. -/
inductive Stage where
  | start
  | query (ifIndex : ℕ)
  | compare (progId : ℕ)
  | unload
  | detach (ifIndex : ℕ)
  | exit (code : ℤ)

/-- What a handler at this stage goes on with. -/
def Stage.program : Stage → Program
  | .start => equicSigintCallback
  | .query ifIndex =>
    .call (.bpfGetLinkXdpId ifIndex equicXdpFlags) fun r =>
      if r.ret ≠ 0 then .exit exitFailure else compareId r.out
  | .compare progId => compareId progId
  | .unload => User.unload
  | .detach ifIndex =>
    .call (.bpfSetLinkXdpFd ifIndex (-1) equicXdpFlags) fun _ => .exit exitSuccess
  | .exit code => .exit code

/-- The thread's handler asked which program is attached, the answer was the id that it then
    found in `EQUIC_PROG_ID`, and it has just read this index from `EQUIC_IFINDEX`. -/
def FoundOwn (ifIndex : ℕ) : List ProcAct → Prop
  | .load g :: .load g' :: .call (.bpfGetLinkXdpId ..) r :: _ =>
    r.ret = 0 ∧ r.out = g'.equicProgId ∧ g.equicIfindex = ifIndex
  | _ => False

/-- The stage that a handler has come to, by the acts of its thread, the last one first. -/
inductive Handler : List ProcAct → Stage → Prop where
  | start {past} (sig) : Handler (.signal sig :: past) .start
  | query {past sig} (g) : Handler (.load g :: .signal sig :: past) (.query g.equicIfindex)
  | compare {past sig g flags} (r) (hret : r.ret = 0) :
      Handler (.call (.bpfGetLinkXdpId g.equicIfindex flags) r :: .load g :: .signal sig :: past)
        (.compare r.out)
  | unload {past sig g flags r} (g') (hret : r.ret = 0) (hid : r.out = g'.equicProgId) :
      Handler (.load g' :: .call (.bpfGetLinkXdpId g.equicIfindex flags) r :: .load g ::
        .signal sig :: past) .unload
  | detach {past sig g flags r g'} (g'') (hret : r.ret = 0) (hid : r.out = g'.equicProgId) :
      Handler (.load g'' :: .load g' :: .call (.bpfGetLinkXdpId g.equicIfindex flags) r ::
        .load g :: .signal sig :: past) (.detach g''.equicIfindex)
  | exit {past code} (hpast : ∀ ifIndex, ¬ FoundOwn ifIndex past) : Handler past (.exit code)

/-- A handler is about to detach exactly if its thread has found its own program. -/
theorem Handler.foundOwn_iff {past : List ProcAct} {stage : Stage} {ifIndex : ℕ}
    (h : Handler past stage) : FoundOwn ifIndex past ↔ stage = .detach ifIndex := by
  cases h with
  | detach g'' hret hid => simp [FoundOwn, hret, hid]
  | exit hpast => exact iff_of_false (hpast ifIndex) (by simp)
  | _ => simp [FoundOwn]

/-! ## §3 Roles -/

def IsQuery : ProcAct → Prop
  | .call (.bpfGetLinkXdpId ..) _ => True
  | _ => False

theorem not_isQuery_of_mainCall {c : Call} {r : Reply} (hc : IsMainCall c) :
    ¬ IsQuery (.call c r) := by
  cases c with
  | bpfGetLinkXdpId ifIndex flags => exact hc.elim
  | _ => exact id

/-- What a thread with this past can be about to do. -/
inductive Role (H : XdpHost) : ThreadId → List ProcAct → Program → Prop where
  | main {past q p} (hmain : Main H q p) (hpast : ∀ act ∈ past, ¬ IsQuery act) :
      Role H .main past p
  | requestCounter : Role H .requestCounter [] .idle
  | handler {t past stage} (hat : Handler past stage) : Role H t past stage.program

/-- Both callbacks are the same program. -/
theorem handler_eq (sig : Signal) : (platform H).handler sig = Stage.start.program := by
  cases sig <;> rfl

theorem not_foundOwn_of_noQuery {past : List ProcAct} (hpast : ∀ act ∈ past, ¬ IsQuery act)
    (ifIndex : ℕ) : ¬ FoundOwn ifIndex past := by
  intro h
  unfold FoundOwn at h
  split at h
  · rename_i ifIndex flags r rest
    exact hpast (.call (.bpfGetLinkXdpId ifIndex flags) r) (by simp) trivial
  · exact h

theorem noQuery_cons {past : List ProcAct} {act : ProcAct}
    (hpast : ∀ act ∈ past, ¬ IsQuery act) (hact : ¬ IsQuery act) :
    ∀ act' ∈ act :: past, ¬ IsQuery act' := by
  intro act' hmem
  rcases List.mem_cons.mp hmem with rfl | hold
  · exact hact
  · exact hpast act' hold

theorem role_signal (t : ThreadId) (past : List ProcAct) (sig : Signal) :
    Role H t (.signal sig :: past) ((platform H).handler sig) := by
  rw [handler_eq]
  exact .handler (.start sig)

/-- A possible act of a main program leads on in the main program or to a handler. -/
theorem Main.role_next {q : Bool} {p p' : Program} {past : List ProcAct} {act : ProcAct}
    (hmain : Main H q p) (hpast : ∀ act ∈ past, ¬ IsQuery act)
    (hnext : Proc.Next (platform H).handler p act p')
    (hreply : ∀ c r, act = .call c r → IsReply H c r) : Role H .main (act :: past) p' := by
  cases hnext with
  | call c k r =>
    cases hmain with
    | call hc hk =>
      exact .main (hk r (hreply c r rfl)) (noQuery_cons hpast (not_isQuery_of_mainCall hc))
  | load k g => cases hmain
  | store a k =>
    cases hmain with
    | setIfindex hk => exact .main hk (noQuery_cons hpast id)
    | loseIfindex =>
      rename_i v code
      have hexit : Main H q (.exit code) := .exit
      exact .main hexit (noQuery_cons hpast id)
    | setProgId hk => exact .main hk (noQuery_cons hpast id)
  | install sig k =>
    cases hmain with
    | install hk => exact .main hk (noQuery_cons hpast id)
  | exit code => exact .main hmain (noQuery_cons hpast id)
  | signal p sig => exact role_signal .main past sig

/-- An act of a handler leads to its next stage. -/
theorem Handler.next {past : List ProcAct} {stage : Stage} {act : ProcAct} {p' : Program}
    (hat : Handler past stage)
    (hnext : Proc.Next (platform H).handler stage.program act p') :
    ∃ stage', Handler (act :: past) stage' ∧ p' = stage'.program := by
  cases hat with
  | start sig =>
    cases hnext with
    | load k g => exact ⟨_, .query g, rfl⟩
    | signal p sig' => exact ⟨_, .start sig', handler_eq sig'⟩
  | query g =>
    cases hnext with
    | call c k r =>
      dsimp only
      split
      · exact ⟨.exit exitFailure, .exit (by simp [FoundOwn]), rfl⟩
      · rename_i hret
        exact ⟨_, .compare r (not_not.mp hret), rfl⟩
    | signal p sig' => exact ⟨_, .start sig', handler_eq sig'⟩
  | compare r hret =>
    cases hnext with
    | load k g =>
      dsimp only
      split
      · rename_i hid
        exact ⟨_, .unload g hret hid, rfl⟩
      · exact ⟨.exit exitSuccess, .exit (by simp [FoundOwn]), rfl⟩
    | signal p sig' => exact ⟨_, .start sig', handler_eq sig'⟩
  | unload g hret hid =>
    cases hnext with
    | load k g' => exact ⟨_, .detach g' hret hid, rfl⟩
    | signal p sig' => exact ⟨_, .start sig', handler_eq sig'⟩
  | detach g hret hid =>
    cases hnext with
    | call c k r => exact ⟨.exit exitSuccess, .exit (by simp [FoundOwn]), rfl⟩
    | signal p sig' => exact ⟨_, .start sig', handler_eq sig'⟩
  | @exit past code hpast =>
    cases hnext with
    | exit => exact ⟨.exit code, .exit (by simp [FoundOwn]), rfl⟩
    | signal p sig' => exact ⟨_, .start sig', handler_eq sig'⟩

/-- Every thread has its role, after every run. -/
theorem role_exec {b : Binary} {slot : XdpSlot} {labels : List ProcEvent} {s : EquicProcess}
    (h : exec (platform H).step (b.start slot) labels = some s) {t : ThreadId} {p : Program}
    (hp : s.programOf t = some p) : Role H t (pastOf t labels) p := by
  refine threads_invariant (R := Role H) ?_ ?_ h hp
  · intro t p hp
    cases t with
    | main =>
      obtain rfl : b.main = p := Option.some.inj hp
      exact .main (main_binary b) (by simp)
    | requestCounter =>
      cases b with
      | httpServer h3Alpns opts =>
        obtain rfl : Proc.idle = p := Option.some.inj hp
        exact .requestCounter
      | _ => cases hp
  · intro t past p act p' sh sh' blocked hrole hnext heffect
    cases hrole with
    | main hmain hpast =>
      refine hmain.role_next hpast hnext fun c r hact => ?_
      subst hact
      obtain ⟨w, hcall, -⟩ := Option.map_eq_some_iff.mp heffect
      exact ⟨sh.world, w, hcall⟩
    | requestCounter =>
      cases hnext with
      | signal p sig => exact role_signal .requestCounter [] sig
    | handler hat =>
      obtain ⟨stage', hat', rfl⟩ := hat.next hnext
      exact .handler hat'

/-- Only a handler that has come to it detaches. -/
theorem Role.handler_of_detach {t : ThreadId} {past : List ProcAct} {p p' : Program}
    {ifIndex : ℕ} {fd : ℤ} {flags : XdpFlags} {r : Reply} (hrole : Role H t past p)
    (hnext : Proc.Next (platform H).handler p (.call (.bpfSetLinkXdpFd ifIndex fd flags) r) p')
    (hfd : fd < 0) : Handler past (.detach ifIndex) := by
  cases hrole with
  | main hmain hpast =>
    cases hnext with
    | call c k r => exact absurd hmain.fd_nonneg (not_le.mpr hfd)
  | requestCounter => cases hnext
  | handler hat =>
    cases hat with
    | detach g hret hid =>
      cases hnext with
      | call c k r => exact .detach g hret hid
    | _ => cases hnext

/-- A thread that has found its own program detaches it, unless a signal comes first. -/
theorem Role.next_of_foundOwn {t : ThreadId} {past : List ProcAct} {p p' : Program}
    {act : ProcAct} {ifIndex : ℕ} (hrole : Role H t past p) (hfound : FoundOwn ifIndex past)
    (hnext : Proc.Next (platform H).handler p act p') (hsig : ∀ sig, act ≠ .signal sig) :
    ∃ r, act = .call (.bpfSetLinkXdpFd ifIndex (-1) equicXdpFlags) r := by
  cases hrole with
  | main hmain hpast => exact absurd hfound (not_foundOwn_of_noQuery hpast ifIndex)
  | requestCounter => exact hfound.elim
  | handler hat =>
    obtain rfl := hat.foundOwn_iff.mp hfound
    cases hnext with
    | call c k r => exact ⟨r, rfl⟩
    | signal p sig => exact absurd rfl (hsig sig)

/-- Programs are only attached to an empty slot. -/
theorem Role.updateIfNoexist_of_attach {t : ThreadId} {past : List ProcAct} {p p' : Program}
    {ifIndex : ℕ} {fd : ℤ} {flags : XdpFlags} {r : Reply} (hrole : Role H t past p)
    (hnext : Proc.Next (platform H).handler p (.call (.bpfSetLinkXdpFd ifIndex fd flags) r) p')
    (hfd : 0 ≤ fd) : flags.updateIfNoexist = true := by
  cases hrole with
  | main hmain hpast =>
    cases hnext with
    | call c k r =>
      cases hmain with
      | call hc hk => exact hc.2
  | requestCounter => cases hnext
  | handler hat =>
    cases hat with
    | detach g hret hid =>
      cases hnext with
      | call c k r => exact absurd hfd (by decide)
    | _ => cases hnext

/-! ## §4 A sample interface -/

/-- Programs of the process get odd ids, those of other processes even ones. -/
def sampleId : Prog → ℕ
  | .own fd => 2 * fd + 1
  | .foreign n => 2 * n + 2

theorem sampleId_ne_zero (prog : Prog) : sampleId prog ≠ 0 := by
  cases prog with
  | own fd => exact Nat.succ_ne_zero _
  | foreign n => exact Nat.succ_ne_zero _

theorem sampleId_injective : Function.Injective sampleId := by
  intro prog prog' h
  cases prog with
  | own fd =>
    cases prog' with
    | own fd' =>
      have hfd : 2 * fd + 1 = 2 * fd' + 1 := h
      rw [show fd = fd' by omega]
    | foreign n' =>
      have hparity : 2 * fd + 1 = 2 * n' + 2 := h
      omega
  | foreign n =>
    cases prog' with
    | own fd' =>
      have hparity : 2 * n + 2 = 2 * fd' + 1 := h
      omega
    | foreign n' =>
      have hn : 2 * n + 2 = 2 * n' + 2 := h
      rw [show n = n' by omega]

/-- An interface with index 2. -/
def sampleHost : XdpHost where
  ifIndex := 2
  idOf := sampleId
  idOf_ne_zero := sampleId_ne_zero
  idOf_injective := sampleId_injective

/-- `equicSetup` on this interface when nothing fails. -/
def setupRun : List ProcEvent :=
  List.map (Label.thread ThreadId.main)
    [.call (.ifNametoindex "eth0") ⟨2, 0⟩, .store (.equicIfindex 2),
      .call (.bpfProgLoadXattr "/src/equic/bin/equic_kern.o") ⟨0, 3⟩,
      .call (.bpfObjectFindMapByName "counters") ⟨1, 0⟩, .call .bpfMapFd ⟨4, 0⟩,
      .install .int, .install .term,
      .call (.bpfSetLinkXdpFd 2 3 equicXdpFlags) ⟨0, 0⟩,
      .call (.bpfObjGetInfoByFd 3) ⟨0, 7⟩, .store (.equicProgId 7)]

end Equic.Lifecycle
