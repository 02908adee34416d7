import Equic.Lifecycle.Roles

/-!
# Whose program the handler detaches

The slot is shared with other processes, which may attach, replace or detach programs at any
step. The handler asks for the id of the attached program, compares it with its own, and
detaches in a later call. At the first call the slot never holds a foreign program when the
ids agree, not even while `EQUIC_PROG_ID` is still 0; but it may hold one at the second.

In `http_server` two handlers may run at once, one in each thread, and each has its own
first call. `detachesOwn_iff`: the detaches are right exactly if no other process put a
program on the interface, and left it there, since the detaching thread asked.
-/

namespace Equic.Lifecycle

open Equic.Foundation Equic.Kern Equic.User Equic.Server

/-! ## §1 What a detach finds -/

/-- A step that does not take a foreign program off the interface. -/
def DetachesOwn (s : EquicProcess) (l : ProcEvent) : Prop :=
  ∀ t ifIndex fd flags r, l = .thread t (.call (.bpfSetLinkXdpFd ifIndex fd flags) r) →
    fd < 0 → 0 ≤ r.ret → ∀ n, s.world ≠ some (.foreign n)

/-- Another process put its program on the interface. Since then no other process has taken
    one off, and the thread has not asked for the id of the attached program. -/
def ArrivedUnseen (t : ThreadId) (labels : List ProcEvent) : Prop :=
  ∃ pre n mid, labels = pre ++ .env (.put n) :: mid ∧ .env .remove ∉ mid ∧
    ∀ act, IsQuery act → .thread t act ∉ mid

/-- No thread detaches after such an arrival. -/
def NoArrivalBeforeDetach (labels : List ProcEvent) : Prop :=
  ∀ pre t ifIndex fd flags r post,
    labels = pre ++ .thread t (.call (.bpfSetLinkXdpFd ifIndex fd flags) r) :: post →
      fd < 0 → 0 ≤ r.ret → ¬ ArrivedUnseen t pre

variable {H : XdpHost} {s s' : EquicProcess} {l : ProcEvent} {labels : List ProcEvent}
  {t : ThreadId}

theorem arrivedUnseen_put (t : ThreadId) (labels : List ProcEvent) (n : ℕ) :
    ArrivedUnseen t (labels ++ [.env (.put n)]) :=
  ⟨labels, n, [], rfl, by simp, by simp⟩

theorem ArrivedUnseen.snoc (h : ArrivedUnseen t labels) (hl : l ≠ .env .remove)
    (hquery : ∀ act, IsQuery act → l ≠ .thread t act) : ArrivedUnseen t (labels ++ [l]) := by
  obtain ⟨pre, n, mid, rfl, hmid, hmid'⟩ := h
  refine ⟨pre, n, mid ++ [l], by simp, ?_, fun act hact => ?_⟩
  · simp [hmid, Ne.symm hl]
  · simp [hmid' act hact, Ne.symm (hquery act hact)]

/-- The slot holds a program of another process. -/
def Foreign (s : EquicProcess) : Prop := ∃ n, s.world = some (.foreign n)

/-- No call puts a foreign program into the slot. -/
theorem kernelCall_foreign {slot : XdpSlot} {c : Call} {r : Reply} {n : ℕ}
    (h : kernelCall H slot c r = some (some (.foreign n))) : slot = some (.foreign n) := by
  rcases kernelCall_cases h with hsame | ⟨ifIndex, fd, flags, -, -, hset⟩
  · exact hsame.symm
  · by_cases hfd : fd < 0
    · cases (XdpHost.setLinkXdpFd_detach hfd hset).2
    · cases XdpHost.setLinkXdpFd_own (not_lt.mp hfd) hset

/-! ## §2 The index and the id -/

/-- The main program knows that `EQUIC_IFINDEX` is right where it needs to, and once the
    handlers are installed it is right as long as the main program goes on. -/
def IndexKept (H : XdpHost) (s : EquicProcess) : Prop :=
  ∀ p, s.programOf .main = some p →
    (∃ q, Main H q p ∧ (q = true ∨ s.installed ≠ [] → s.globals.equicIfindex = H.ifIndex)) ∨
      ∃ past stage, Handler past stage ∧ p = stage.program

/-- Handlers set no globals and install no handlers. -/
theorem Handler.next_passive {past : List ProcAct} {stage : Stage} {act : ProcAct} {p' : Program}
    (hat : Handler past stage) (hnext : Proc.Next (platform H).handler stage.program act p') :
    (∀ a, act ≠ .store a) ∧ ∀ sig, act ≠ .install sig := by
  cases hat <;> cases hnext <;> simp

theorem Role.next_passive {past : List ProcAct} {act : ProcAct} {p p' : Program}
    (hrole : Role H .requestCounter past p)
    (hnext : Proc.Next (platform H).handler p act p') :
    (∀ a, act ≠ .store a) ∧ ∀ sig, act ≠ .install sig := by
  cases hrole with
  | requestCounter =>
    cases hnext with
    | signal p sig => simp
  | handler hat => exact hat.next_passive hnext

theorem indexKept_start (b : Binary) (slot : XdpSlot) : IndexKept H (b.start slot) := by
  intro p hp
  obtain rfl : b.main = p := Option.some.inj hp
  exact .inl ⟨false, main_binary b, by simp [Binary.start]⟩

/-- A main program that goes on keeps the index. -/
theorem Main.indexKept_next {q : Bool} {p p' : Program} {act : ProcAct} {blocked : List Signal}
    {sh sh' : Shared Signal Globals XdpSlot} (hmain : Main H q p)
    (hindex : q = true ∨ sh.installed ≠ [] → sh.globals.equicIfindex = H.ifIndex)
    (hnext : Proc.Next (platform H).handler p act p')
    (heffect : (platform H).effect sh blocked act = some sh') :
    (∃ q', Main H q' p' ∧
        (q' = true ∨ sh'.installed ≠ [] → sh'.globals.equicIfindex = H.ifIndex)) ∨
      ∃ past stage, Handler past stage ∧ p' = stage.program := by
  cases hnext with
  | call c k r =>
    obtain ⟨w, hcall, rfl⟩ := Option.map_eq_some_iff.mp heffect
    cases hmain with
    | call hc hk => exact .inl ⟨q, hk r ⟨sh.world, w, hcall⟩, hindex⟩
  | load k g => cases hmain
  | store a k =>
    obtain rfl := Option.some.inj heffect
    cases hmain with
    | setIfindex hk => exact .inl ⟨true, hk, fun _ => rfl⟩
    | loseIfindex =>
      -- an `exit` is also a stage of handlers
      rename_i v code
      exact .inr ⟨[], .exit code, .exit (by simp [FoundOwn]), rfl⟩
    | setProgId hk => exact .inl ⟨q, hk, hindex⟩
  | install sig k =>
    obtain rfl := Option.some.inj heffect
    cases hmain with
    | install hk => exact .inl ⟨true, hk, fun _ => hindex (.inl rfl)⟩
  | exit code =>
    obtain rfl := Option.some.inj heffect
    exact .inl ⟨q, hmain, hindex⟩
  | signal p sig => exact .inr ⟨[.signal sig], .start, .start sig, handler_eq sig⟩

/-- What the roles of all threads are after some history. -/
def Roles (H : XdpHost) (labels : List ProcEvent) (s : EquicProcess) : Prop :=
  ∀ t p, s.programOf t = some p → Role H t (pastOf t labels) p

theorem programOf_eq {p : Program} {blocked : List Signal}
    (hth : s.threads t = some ⟨p, blocked⟩) : s.programOf t = some p := by
  rw [Process.programOf, hth, Option.map_some]

theorem indexKept_step (hroles : Roles H labels s) (hs : IndexKept H s)
    (h : (platform H).step s l = some s') : IndexKept H s' := by
  cases Platform.move_of_step h with
  | env e => exact hs
  | kill sig hset => exact hs
  | thread t act p p' blocked sh hth hnext heffect =>
    have hp := programOf_eq hth
    intro p'' hp''
    cases t with
    | main =>
      obtain rfl : p' = p'' := by simpa using hp''
      rcases hs p hp with ⟨q, hmain, hindex⟩ | ⟨past, stage, hat, rfl⟩
      · exact hmain.indexKept_next hindex hnext heffect
      · obtain ⟨stage', hat', rfl⟩ := hat.next hnext
        exact .inr ⟨_, stage', hat', rfl⟩
    | requestCounter =>
      obtain ⟨hstore, hinstall⟩ := (hroles _ p hp).next_passive hnext
      rw [Process.programOf_resume_of_ne (by decide)] at hp''
      rcases hs p'' hp'' with ⟨q, hmain, hindex⟩ | hhandler
      · refine .inl ⟨q, hmain, ?_⟩
        rw [Process.toShared_resume, Platform.effect_globals heffect hstore,
          Platform.effect_installed heffect hinstall]
        exact hindex
      · exact .inr hhandler

/-- With the handlers installed the index never becomes right again. -/
theorem IndexKept.index_before (hroles : Roles H labels s) (hs : IndexKept H s)
    (h : (platform H).step s l = some s') (hinstalled : s.installed ≠ [])
    (hindex : s'.globals.equicIfindex = H.ifIndex) : s.globals.equicIfindex = H.ifIndex := by
  cases Platform.move_of_step h with
  | env e => exact hindex
  | kill sig hset => exact hindex
  | thread t act p p' blocked sh hth hnext heffect =>
    have hp := programOf_eq hth
    have hpassive (hact : ∀ a, act ≠ .store a) : s.globals.equicIfindex = H.ifIndex := by
      rw [← Platform.effect_globals heffect hact]
      exact hindex
    cases t with
    | main =>
      rcases hs p hp with ⟨q, -, hkept⟩ | ⟨past, stage, hat, rfl⟩
      · exact hkept (.inr hinstalled)
      · exact hpassive (hat.next_passive hnext).1
    | requestCounter => exact hpassive ((hroles _ p hp).next_passive hnext).1

/-! ## §3 From the query to the detach -/

/-- What a handler at this stage may rely on: the slot holds no foreign program when it
    detaches, unless one has arrived since its query. -/
def Clean (H : XdpHost) (labels : List ProcEvent) (s : EquicProcess) (t : ThreadId) : Stage → Prop
  | .query ifIndex => ifIndex = H.ifIndex ∨ s.globals.equicIfindex ≠ H.ifIndex
  | .compare progId =>
    (∀ n, progId ≠ H.idOf (.foreign n)) → s.globals.equicIfindex = H.ifIndex → Foreign s →
      ArrivedUnseen t labels
  | .unload => s.globals.equicIfindex = H.ifIndex → Foreign s → ArrivedUnseen t labels
  | .detach ifIndex => ifIndex = H.ifIndex → Foreign s → ArrivedUnseen t labels
  | _ => True

/-- Stages stay clean while the thread itself does nothing. -/
theorem Clean.mono {labels' : List ProcEvent} {stage : Stage} (h : Clean H labels s t stage)
    (hindex : s'.globals.equicIfindex = H.ifIndex → s.globals.equicIfindex = H.ifIndex)
    (hforeign : Foreign s' → ArrivedUnseen t labels' ∨
      Foreign s ∧ (ArrivedUnseen t labels → ArrivedUnseen t labels')) :
    Clean H labels' s' t stage := by
  have harrived (hold : Foreign s → ArrivedUnseen t labels) (hs' : Foreign s') :
      ArrivedUnseen t labels' := by
    rcases hforeign hs' with hnew | ⟨hs, hkeep⟩
    · exact hnew
    · exact hkeep (hold hs)
  cases stage with
  | query ifIndex => exact h.imp_right (mt hindex)
  | compare progId => exact fun hid hif => harrived (h hid (hindex hif))
  | unload => exact fun hif => harrived (h (hindex hif))
  | detach ifIndex => exact fun hif => harrived (h hif)
  | start => trivial
  | exit code => trivial

/-- What holds of the recorded id, of the index and of every handler on its way. -/
structure Guarded (H : XdpHost) (labels : List ProcEvent) (s : EquicProcess) : Prop where
  roles : Roles H labels s
  progId : s.globals.equicProgId = 0 ∨ ∃ fd, s.globals.equicProgId = H.idOf (.own fd)
  index : IndexKept H s
  installed : ∀ t sig, .signal sig ∈ pastOf t labels → s.installed ≠ []
  clean : ∀ t stage, Handler (pastOf t labels) stage → Clean H labels s t stage

/-- A handler on its way has been started by a signal. -/
theorem Handler.exists_signal {past : List ProcAct} {stage : Stage} (hat : Handler past stage) :
    (∃ sig, .signal sig ∈ past) ∨ ∃ code, stage = .exit code := by
  cases hat with
  | exit hpast => exact .inr ⟨_, rfl⟩
  | start sig => exact .inl ⟨sig, by simp⟩
  | @query past sig => exact .inl ⟨sig, by simp⟩
  | @compare past sig => exact .inl ⟨sig, by simp⟩
  | @unload past sig => exact .inl ⟨sig, by simp⟩
  | @detach past sig => exact .inl ⟨sig, by simp⟩

/-- The stage of a thread that does nothing stays clean. -/
theorem Guarded.clean_still (hs : Guarded H labels s) (h : (platform H).step s l = some s')
    (hpast : pastOf t (labels ++ [l]) = pastOf t labels)
    (hforeign : Foreign s' → ArrivedUnseen t (labels ++ [l]) ∨
      Foreign s ∧ (ArrivedUnseen t labels → ArrivedUnseen t (labels ++ [l])))
    {stage : Stage} (hat : Handler (pastOf t (labels ++ [l])) stage) :
    Clean H (labels ++ [l]) s' t stage := by
  rw [hpast] at hat
  rcases hat.exists_signal with ⟨sig, hsig⟩ | ⟨code, rfl⟩
  · refine (hs.clean t stage hat).mono ?_ hforeign
    exact hs.index.index_before hs.roles h (hs.installed t sig hsig)
  · trivial

/-- What is recorded is no id of a foreign program. -/
theorem Guarded.progId_ne (hs : Guarded H labels s) (n : ℕ) :
    s.globals.equicProgId ≠ H.idOf (.foreign n) := by
  rcases hs.progId with hzero | ⟨fd, hfd⟩
  · rw [hzero]
    exact (H.idOf_ne_zero _).symm
  · rw [hfd]
    intro hid
    cases H.idOf_injective hid

/-- An act that is no query keeps an arrival. -/
theorem ArrivedUnseen.snoc_act {act : ProcAct} {t' : ThreadId} (h : ArrivedUnseen t labels)
    (hact : t' = t → ¬ IsQuery act) : ArrivedUnseen t (labels ++ [.thread t' act]) := by
  apply h.snoc (by simp)
  intro act' hquery heq
  obtain ⟨rfl, rfl⟩ := Label.thread.inj heq
  exact hact rfl hquery

/-- The stage that a thread comes to is clean: at the query the slot holds no foreign
    program when the answer is an id that may be recorded. -/
theorem Guarded.clean_move (hs : Guarded H labels s) {act : ProcAct} {blocked : List Signal}
    {sh : Shared Signal Globals XdpSlot} {th : Thread Call Reply Store Signal Globals}
    (heffect : (platform H).effect s.toShared blocked act = some sh) {stage : Stage}
    (hat : Handler (act :: pastOf t labels) stage) :
    Clean H (labels ++ [.thread t act]) (s.resume sh t th) t stage := by
  generalize hacts : act :: pastOf t labels = acts at hat
  cases hat with
  | start sig => trivial
  | exit hpast => trivial
  | query g =>
    obtain ⟨rfl, hpast⟩ := List.cons_eq_cons.mp hacts
    obtain ⟨rfl, hsh⟩ := Option.ite_none_right_eq_some.mp heffect
    obtain rfl := Option.some.inj hsh
    exact em _
  | compare r hret =>
    obtain ⟨rfl, hpast⟩ := List.cons_eq_cons.mp hacts
    rename_i sig g flags
    have hquery : Clean H labels s t (.query g.equicIfindex) :=
      hs.clean t _ (by rw [hpast]; exact .query g)
    obtain ⟨w, hcall, rfl⟩ := Option.map_eq_some_iff.mp heffect
    obtain ⟨hreply, hw⟩ := Option.ite_none_right_eq_some.mp hcall
    obtain rfl := Option.some.inj hw
    rintro hid hif ⟨n, hn⟩
    -- asked about the right interface, the kernel would have named the foreign program
    have hgif : g.equicIfindex = H.ifIndex := hquery.resolve_right (not_not.mpr hif)
    have hslot : s.world = some (.foreign n) := hn
    have hout : r.out = H.linkId s.world g.equicIfindex := hreply.resolve_left (not_not.mpr hret)
    rw [hgif, hslot, XdpHost.linkId_self] at hout
    exact absurd hout (hid n)
  | unload g' hret hid =>
    obtain ⟨rfl, hpast⟩ := List.cons_eq_cons.mp hacts
    rename_i sig g flags r
    have hcompare : Clean H labels s t (.compare r.out) :=
      hs.clean t _ (by rw [hpast]; exact .compare r hret)
    obtain ⟨rfl, hsh⟩ := Option.ite_none_right_eq_some.mp heffect
    obtain rfl := Option.some.inj hsh
    intro hif hforeign
    -- the answer was the recorded id, so no foreign one
    have hne : ∀ n, r.out ≠ H.idOf (.foreign n) := by
      rw [hid]
      exact hs.progId_ne
    exact (hcompare hne hif hforeign).snoc_act fun _ => id
  | detach g'' hret hid =>
    obtain ⟨rfl, hpast⟩ := List.cons_eq_cons.mp hacts
    rename_i sig g flags r g'
    have hunload : Clean H labels s t .unload :=
      hs.clean t _ (by rw [hpast]; exact .unload g' hret hid)
    obtain ⟨rfl, hsh⟩ := Option.ite_none_right_eq_some.mp heffect
    obtain rfl := Option.some.inj hsh
    exact fun hif hforeign => (hunload hif hforeign).snoc_act fun _ => id

/-- No step of the process itself brings a foreign program. -/
theorem foreign_of_effect {sh sh' : Shared Signal Globals XdpSlot} {blocked : List Signal}
    {act : ProcAct} {n : ℕ} (h : (platform H).effect sh blocked act = some sh')
    (hsh' : sh'.world = some (.foreign n)) : sh.world = some (.foreign n) := by
  by_cases hact : ∀ c r, act ≠ .call c r
  · rw [← Platform.effect_world h hact]
    exact hsh'
  · push Not at hact
    obtain ⟨c, r, rfl⟩ := hact
    obtain ⟨w, hcall, rfl⟩ := Option.map_eq_some_iff.mp h
    exact kernelCall_foreign (hcall.trans (congrArg some hsh'))

/-- Main programs record the ids of their own programs only, other threads none. -/
theorem Guarded.progId_next (hs : Guarded H labels s) {act : ProcAct} {p p' : Program}
    {blocked : List Signal} {sh : Shared Signal Globals XdpSlot} (hp : s.programOf t = some p)
    (hnext : Proc.Next (platform H).handler p act p')
    (heffect : (platform H).effect s.toShared blocked act = some sh) :
    sh.globals.equicProgId = 0 ∨ ∃ fd, sh.globals.equicProgId = H.idOf (.own fd) := by
  by_cases hact : ∀ a, act ≠ .store a
  · rw [Platform.effect_globals heffect hact]
    exact hs.progId
  · push Not at hact
    obtain ⟨a, rfl⟩ := hact
    obtain rfl := Option.some.inj heffect
    cases t with
    | requestCounter => exact absurd rfl (((hs.roles _ p hp).next_passive hnext).1 a)
    | main =>
      rcases hs.index p hp with ⟨q, hmain, -⟩ | ⟨past, stage, hat, rfl⟩
      · cases hnext with
        | store a k =>
          cases hmain with
          | setIfindex hk => exact hs.progId
          | loseIfindex => exact hs.progId
          | setProgId hk => exact .inr ⟨_, rfl⟩
      · exact absurd rfl ((hat.next_passive hnext).1 a)

/-- Signals are taken only with their handler installed, and handlers stay. -/
theorem Guarded.installed_next (hs : Guarded H labels s) {act : ProcAct} {blocked : List Signal}
    {sh : Shared Signal Globals XdpSlot} {t' : ThreadId} {sig : Signal}
    (heffect : (platform H).effect s.toShared blocked act = some sh)
    (hsig : .signal sig ∈ pastOf t' (labels ++ [.thread t act])) : sh.installed ≠ [] := by
  by_cases hinstall : ∃ sig', act = .install sig'
  · obtain ⟨sig', rfl⟩ := hinstall
    obtain rfl := Option.some.inj heffect
    exact List.cons_ne_nil sig' s.installed
  · rw [Platform.effect_installed heffect (not_exists.mp hinstall)]
    by_cases hnew : act = .signal sig
    · subst hnew
      obtain ⟨⟨hset, -⟩, -⟩ := Option.ite_none_right_eq_some.mp heffect
      exact List.ne_nil_of_mem hset
    · refine hs.installed t' sig ?_
      by_cases ht : t = t'
      · subst ht
        rw [pastOf_snoc_self] at hsig
        exact (List.mem_cons.mp hsig).resolve_left (Ne.symm hnew)
      · rwa [pastOf_snoc_of_ne ht] at hsig

theorem guarded_step (hroles : Roles H (labels ++ [l]) s') (hs : Guarded H labels s)
    (h : (platform H).step s l = some s') : Guarded H (labels ++ [l]) s' := by
  have hmove := Platform.move_of_step h
  refine ⟨hroles, ?_, indexKept_step hs.roles hs.index h, ?_, ?_⟩
  · cases hmove with
    | env e => exact hs.progId
    | kill sig hset => exact hs.progId
    | thread t act p p' blocked sh hth hnext heffect =>
      exact hs.progId_next (programOf_eq hth) hnext heffect
  · cases hmove with
    | env e => simpa using hs.installed
    | kill sig hset => simpa using hs.installed
    | thread t act p p' blocked sh hth hnext heffect =>
      exact fun t' sig hsig => hs.installed_next heffect hsig
  · intro t stage hat
    cases hmove with
    | env e =>
      refine hs.clean_still h (pastOf_snoc_env t labels e) ?_ hat
      cases e with
      | put n => exact fun _ => .inl (arrivedUnseen_put t labels n)
      | remove =>
        rintro ⟨n, hn⟩
        cases hn
    | kill sig hset =>
      refine hs.clean_still h (pastOf_snoc_kill t labels sig) (fun hs' => .inr ⟨hs', ?_⟩) hat
      exact fun harrived => harrived.snoc (by simp) (by simp)
    | thread t' act p p' blocked sh hth hnext heffect =>
      by_cases ht : t' = t
      · subst ht
        rw [pastOf_snoc_self] at hat
        exact hs.clean_move heffect hat
      · refine hs.clean_still h (pastOf_snoc_of_ne ht labels act) ?_ hat
        rintro ⟨n, hn⟩
        refine .inr ⟨⟨n, foreign_of_effect heffect hn⟩, fun harrived => ?_⟩
        exact harrived.snoc_act fun heq => absurd heq ht

theorem guarded_exec {b : Binary} {slot : XdpSlot}
    (h : exec (platform H).step (b.start slot) labels = some s) : Guarded H labels s := by
  refine exec_induction ?_ ?_ h
  · refine ⟨fun t p hp => role_exec rfl hp, .inl rfl, indexKept_start b slot, by simp, ?_⟩
    intro t stage hat
    -- without a past there is nothing to be clean about
    rcases hat.exists_signal with ⟨sig, hsig⟩ | ⟨code, rfl⟩
    · simp at hsig
    · trivial
  · intro labels m l m' hm hguarded hstep
    have hexec : exec (platform H).step (b.start slot) (labels ++ [l]) = some m' :=
      (exec_snoc_eq_some _).mpr ⟨m, hm, hstep⟩
    exact guarded_step (fun t p hp => role_exec hexec hp) hguarded hstep

/-! ## §4 Runs -/

/-- A successful detach takes a handler that has come to it. -/
theorem Guarded.handler_of_detach (hs : Guarded H labels s) {ifIndex : ℕ} {fd : ℤ}
    {flags : XdpFlags} {r : Reply} (hfd : fd < 0) (hret : 0 ≤ r.ret)
    (h : (platform H).step s (.thread t (.call (.bpfSetLinkXdpFd ifIndex fd flags) r)) =
      some s') : Handler (pastOf t labels) (.detach H.ifIndex) := by
  cases Platform.move_of_step h with
  | thread t act p p' blocked sh hth hnext heffect =>
    obtain ⟨w, hcall, -⟩ := Option.map_eq_some_iff.mp heffect
    simp only [platform, kernelCall, if_neg (not_lt.mpr hret)] at hcall
    obtain ⟨rfl, -⟩ := XdpHost.setLinkXdpFd_detach hfd hcall
    exact (hs.roles t p (programOf_eq hth)).handler_of_detach hnext hfd

/-- A foreign program stays in the slot until another process takes it off, if no step
    detaches one: attaching needs an empty slot. -/
theorem foreign_step {b : Binary} {slot : XdpSlot}
    (hexec : exec (platform H).step (b.start slot) labels = some s) (hs : Foreign s)
    (hl : l ≠ .env .remove) (hown : DetachesOwn s l) (h : (platform H).step s l = some s') :
    Foreign s' := by
  cases Platform.move_of_step h with
  | env e =>
    cases e with
    | put n => exact ⟨n, rfl⟩
    | remove => exact absurd rfl hl
  | kill sig hset => exact hs
  | thread t act p p' blocked sh hth hnext heffect =>
    by_cases hact : ∀ c r, act ≠ .call c r
    · obtain ⟨n, hn⟩ := hs
      exact ⟨n, (Platform.effect_world heffect hact).trans hn⟩
    · push Not at hact
      obtain ⟨c, r, rfl⟩ := hact
      obtain ⟨w, hcall, rfl⟩ := Option.map_eq_some_iff.mp heffect
      rcases kernelCall_cases hcall with rfl | ⟨ifIndex, fd, flags, rfl, hret, hset⟩
      · exact hs
      · obtain ⟨n, hn⟩ := hs
        by_cases hfd : fd < 0
        · exact absurd hn (hown t ifIndex fd flags r rfl hfd hret n)
        · have hrole := role_exec hexec (programOf_eq hth)
          have hempty := XdpHost.setLinkXdpFd_attach (not_lt.mp hfd)
            (hrole.updateIfNoexist_of_attach hnext (not_lt.mp hfd)) hset
          cases hn.symm.trans hempty

/-- After an arrival that nothing has undone, the slot holds a foreign program. -/
theorem foreign_of_arrivedUnseen {b : Binary} {slot : XdpSlot}
    (h : exec (platform H).step (b.start slot) labels = some s)
    (hown : StepsAlong (platform H).step DetachesOwn (b.start slot) labels)
    (harrived : ArrivedUnseen t labels) : Foreign s := by
  obtain ⟨pre, n, mid, rfl, hmid, -⟩ := harrived
  -- from the end of what came after the arrival
  induction mid using List.reverseRecOn generalizing s with
  | nil =>
    obtain ⟨m, -, hput⟩ := (exec_snoc_eq_some _).mp h
    obtain rfl := Option.some.inj hput
    exact ⟨n, rfl⟩
  | append_singleton mid l ih =>
    rw [← List.cons_append, ← List.append_assoc] at h hown
    obtain ⟨m, hm, hstep⟩ := (exec_snoc_eq_some _).mp h
    have hold : Foreign m := ih hm hown.of_append fun hmem => hmid (by simp [hmem])
    have hl : l ≠ .env .remove := fun heq => hmid (by simp [heq])
    exact foreign_step hm hold hl (stepsAlong_iff_exec.mp hown _ l [] m s rfl hm hstep) hstep

/-- **The handlers and other processes.** In a run of a binary on an interface that other
    processes use as well, with signals at any moment and in any thread, no detach ever takes
    away the program of another process, if and only if no detach follows an arrival that the
    detaching thread has not seen. -/
theorem detachesOwn_iff (H : XdpHost) (b : Binary) (slot : XdpSlot) (labels : List ProcEvent)
    {t : EquicProcess} (h : exec (platform H).step (b.start slot) labels = some t) :
    StepsAlong (platform H).step DetachesOwn (b.start slot) labels ↔
      NoArrivalBeforeDetach labels := by
  constructor
  · intro hown pre t ifIndex fd flags r post hsplit hfd hret harrived
    rw [hsplit] at h hown
    obtain ⟨m, hm, hrest⟩ := (exec_append_eq_some _).mp h
    obtain ⟨m', hm', -⟩ := Option.bind_eq_some_iff.mp hrest
    obtain ⟨n, hn⟩ := foreign_of_arrivedUnseen hm hown.of_append harrived
    exact stepsAlong_iff_exec.mp hown pre _ post m m' rfl hm hm' t ifIndex fd flags r rfl hfd
      hret n hn
  · intro hno
    rw [stepsAlong_iff_exec]
    rintro pre l post m m' hsplit hm hm' t ifIndex fd flags r rfl hfd hret n hworld
    have hguarded := guarded_exec hm
    -- the handler's way to this detach is clean, so the program has come unseen
    have hclean := hguarded.clean t _ (hguarded.handler_of_detach hfd hret hm')
    exact hno pre t ifIndex fd flags r post hsplit hfd hret (hclean rfl ⟨n, hworld⟩)

/-- The handler of an echo server finds its own program attached; before it detaches,
    another process replaces the program by one of its own. -/
def replacedProgramRun : List ProcEvent :=
  setupRun ++ [.thread .main (.call .progPrep ⟨0, 0⟩), .thread .main (.signal .int),
    .thread .main (.load ⟨2, 7⟩), .thread .main (.call (.bpfGetLinkXdpId 2 equicXdpFlags) ⟨0, 7⟩),
    .env (.put 0), .thread .main (.load ⟨2, 7⟩), .thread .main (.load ⟨2, 7⟩)] ++
    [.thread .main (.call (.bpfSetLinkXdpFd 2 (-1) equicXdpFlags) ⟨0, 0⟩)]

/-- The characterization at `replacedProgramRun`. -/
theorem detachesOwn_iff_replacedProgramRun :
    StepsAlong (platform sampleHost).step DetachesOwn ((Binary.echoServer []).start none)
        replacedProgramRun ↔
      NoArrivalBeforeDetach replacedProgramRun :=
  detachesOwn_iff sampleHost (.echoServer []) none replacedProgramRun
    (Option.some_get (show (exec (platform sampleHost).step ((Binary.echoServer []).start none)
      replacedProgramRun).isSome by decide +kernel)).symm

/-- The handler detaches the program of the other process. -/
theorem replacedProgramRun_not_detachesOwn :
    ¬ StepsAlong (platform sampleHost).step DetachesOwn ((Binary.echoServer []).start none)
      replacedProgramRun := by
  intro h
  have hlast := h.get_exec (by decide +kernel) (by decide +kernel) .main 2 (-1) equicXdpFlags
    ⟨0, 0⟩ rfl (by decide) (by decide) 0
  exact absurd (by decide +kernel) hlast

/-- Two handlers of `http_server`: the program arrives when the main thread is past its
    query, and what the second thread then learns does not help. -/
def crossedHandlersRun : List ProcEvent :=
  setupRun ++ [.thread .main (.call .progPrep ⟨0, 0⟩), .thread .main (.signal .int),
    .thread .main (.load ⟨2, 7⟩), .thread .main (.call (.bpfGetLinkXdpId 2 equicXdpFlags) ⟨0, 7⟩),
    .thread .main (.load ⟨2, 7⟩), .thread .main (.load ⟨2, 7⟩), .env (.put 0),
    .thread .requestCounter (.signal .int), .thread .requestCounter (.load ⟨2, 7⟩),
    .thread .requestCounter (.call (.bpfGetLinkXdpId 2 equicXdpFlags) ⟨0, 2⟩),
    .thread .main (.call (.bpfSetLinkXdpFd 2 (-1) equicXdpFlags) ⟨0, 0⟩)]

example : (exec (platform sampleHost).step ((Binary.httpServer [] [.e]).start none)
    crossedHandlersRun).isSome := by
  decide +kernel

end Equic.Lifecycle
