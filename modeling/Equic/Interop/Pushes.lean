import Equic.Interop.Streams
import Mathlib.Algebra.Order.BigOperators.Group.List

/-!
# Pushed streams

A pushed stream is served like one that a client has opened. Its request is a GET of a push
parameter of the request that promised it, so it may have push parameters of its own and push
further streams.

`owes` counts, in bytes of paths, what a stream can still push: every push parameter is paid
for with its own bytes and the six bytes of its separator. Nothing that happens to the server
adds to it, which bounds the number of pushed streams (`pushes_bounded`).
-/

namespace Equic.Interop

open Equic.Foundation

/-! ## §1 What a request promises -/

/-- The paths that the answer to a header set promises to push. -/
def promises (hset : Option Req) : List (List UInt8) :=
  match (answered hset).interopU with
  | .gfc gfc => gfc.pushPaths
  | _ => []

/-- The path of a request. -/
def pathOf (hset : Option Req) : List UInt8 := (hset.bind Req.path).getD []

/-- The bytes that push parameters with these values take. -/
def pushBytes (paths : List (List UInt8)) : ℕ := (paths.map fun path => path.length + 6).sum

theorem length_pushText {seps : List (List UInt8)} {pushes : List (List UInt8 × List UInt8)}
    (h : PushesFit seps pushes) (hseps : ∀ sep ∈ seps, sep.length = 6) :
    (pushText pushes).length = pushBytes (pushes.map Prod.snd) := by
  induction h with
  | nil => rfl
  | @cons sep seps w value pushes hspells hvalue hfit ih =>
    have hlen := hspells.length_eq.trans (hseps sep List.mem_cons_self)
    have htail := ih fun s hs => hseps s (List.mem_cons_of_mem _ hs)
    simp only [pushText, pushBytes, List.length_append, List.map_cons, List.sum_cons] at htail ⊢
    omega

theorem infix_pushText {pushes : List (List UInt8 × List UInt8)} {value : List UInt8}
    (h : value ∈ pushes.map Prod.snd) : value <:+: pushText pushes := by
  induction pushes with
  | nil => cases h
  | cons push pushes ih =>
    rw [List.map_cons] at h
    rw [pushText]
    obtain rfl | htail := List.mem_cons.mp h
    · exact ⟨push.1, pushText pushes, by simp⟩
    · exact (ih htail).trans ⟨push.1 ++ push.2, [], by simp⟩

/-- The push parameters of a path are pieces of it, and there is more to a path. -/
theorem PushValues.bytes {path : List UInt8} {values : List (List UInt8)}
    (h : PushValues path values) :
    pushBytes values + 2 ≤ path.length ∧ ∀ value ∈ values, value <:+: path := by
  obtain ⟨pre, k, hpre, -, f, hf, rfl, rfl⟩ := h
  have hpush := length_pushText hf.pushes (separating_pushSeps k).length
  have hpos : 1 ≤ f.pre.length := by
    rw [hf.pre.length_eq]
    rcases hpre with rfl | rfl <;> decide
  have hnumber : 1 ≤ f.number.length := List.length_pos_iff.mpr hf.number_ne
  constructor
  · simp only [Fields.text, List.length_append]
    omega
  · intro value hvalue
    refine (infix_pushText hvalue).trans ⟨f.pre ++ f.number ++ f.suffix, [], ?_⟩
    simp [Fields.text]

/-- What is promised are the push parameters of the path, if anything is. -/
theorem promises_pushValues {hset : Option Req} (h : promises hset ≠ []) :
    ∃ req path, hset = some req ∧ req.path = some path ∧ PushValues path (promises hset) := by
  unfold promises at h ⊢
  split at h
  · rename_i gfc hgfc
    cases hset with
    | none => cases hgfc
    | some req =>
      cases hpath : req.path with
      | none =>
        simp only [answered, interopOnReadHeaders, hpath] at hgfc
        split at hgfc <;> cases hgfc
      | some path =>
        obtain ⟨map, m, hfind, hhandler, hpaths⟩ := gfc_of_interopOnReadHeaders hpath hgfc
        exact ⟨req, path, rfl, hpath,
          (pushValues_iff_of_findHandler hfind hhandler gfc.pushPaths).mpr hpaths⟩
  · exact absurd rfl h

theorem pushBytes_promises_le (hset : Option Req) :
    pushBytes (promises hset) ≤ (pathOf hset).length := by
  by_cases h : promises hset = []
  · rw [h]
    exact Nat.zero_le _
  · obtain ⟨req, path, rfl, hpath, hvalues⟩ := promises_pushValues h
    have hpathOf : pathOf (some req) = path := by simp [pathOf, hpath]
    rw [hpathOf]
    have := hvalues.bytes.1
    omega

/-- What is promised is shorter than the path that promises it, and a piece of it. -/
theorem mem_promises {hset : Option Req} {q : List UInt8} (h : q ∈ promises hset) :
    q <:+: pathOf hset ∧ q.length + 8 ≤ (pathOf hset).length := by
  obtain ⟨req, path, rfl, hpath, hvalues⟩ := promises_pushValues (List.ne_nil_of_mem h)
  have hpathOf : pathOf (some req) = path := by simp [pathOf, hpath]
  rw [hpathOf]
  refine ⟨hvalues.bytes.2 q h, ?_⟩
  have hle : q.length + 6 ≤ pushBytes (promises (some req)) :=
    List.single_le_sum (fun _ _ => Nat.zero_le _) _ (List.mem_map_of_mem h)
  have := hvalues.bytes.1
  omega

/-! ## §2 What a callback does to the promises -/

/-- Reading leaves the push paths alone. -/
theorem idleRead_pushPaths {text : List UInt8} {fuel count : ℕ} {gfc gfc' : GenFileCtx}
    {out : List UInt8} (h : idleRead text fuel gfc count = some (gfc', out)) :
    gfc'.pushPaths = gfc.pushPaths := by
  obtain ⟨l, hl, heq⟩ := Option.map_eq_some_iff.mp h
  obtain ⟨rfl, -⟩ := Prod.mk.inj heq
  refine whileLoop_invariant (I := fun l => l.gfc.pushPaths = gfc.pushPaths) ?_ rfl hl
  intro l l' hpaths hbody
  simp only [idleBody, Option.ite_none_right_eq_some, Option.some.injEq] at hbody
  obtain ⟨-, rfl⟩ := hbody
  exact hpaths

theorem myInteropPreadv_pushPaths {text : List UInt8} {fuel : ℕ} (counts : List ℕ)
    {gfc gfc' : GenFileCtx} {out : List UInt8}
    (h : myInteropPreadv text fuel gfc counts = some (gfc', out)) :
    gfc'.pushPaths = gfc.pushPaths := by
  induction counts generalizing gfc out with
  | nil =>
    obtain ⟨rfl, -⟩ := Prod.mk.inj (Option.some.inj h)
    rfl
  | cons count counts ih =>
    obtain ⟨⟨gfc₁, out₁⟩, hread, h⟩ := Option.bind_eq_some_iff.mp h
    obtain ⟨⟨gfc₂, out₂⟩, hrest, h⟩ := Option.bind_eq_some_iff.mp h
    obtain ⟨rfl, -⟩ := Prod.mk.inj (Option.some.inj h)
    exact (ih hrest).trans (idleRead_pushPaths hread)

theorem serve_pushPaths {text : List UInt8} {fuel : ℕ} (calls : List IdleCall)
    {gfc gfc' : GenFileCtx} {out : List UInt8} (h : serve text fuel gfc calls = some (gfc', out)) :
    gfc'.pushPaths = gfc.pushPaths := by
  induction calls generalizing gfc out with
  | nil =>
    obtain ⟨rfl, -⟩ := Prod.mk.inj (Option.some.inj h)
    rfl
  | cons call calls ih =>
    obtain ⟨⟨gfc₁, out₁⟩, hread, h⟩ := Option.bind_eq_some_iff.mp h
    obtain ⟨⟨gfc₂, out₂⟩, hrest, h⟩ := Option.bind_eq_some_iff.mp h
    obtain ⟨rfl, -⟩ := Prod.mk.inj (Option.some.inj h)
    refine (ih hrest).trans ?_
    cases call with
    | idleRead count => exact idleRead_pushPaths hread
    | preadv counts => exact myInteropPreadv_pushPaths counts hread

/-- The promises are kept all at once, or not at all. -/
theorem idleOnWrite_pushPaths {text : List UInt8} {fuel : ℕ} {s t : IdleStream} {w : IdleWrite}
    (h : idleOnWrite text fuel s w = some t) :
    (t.gfc.pushPaths = s.gfc.pushPaths ∧ t.pushed = s.pushed) ∨
      (s.authorityStr.isSome ∧ t.gfc.pushPaths = [] ∧
        t.pushed = s.pushed ++ s.gfc.pushPaths) := by
  cases hsent : s.headersSent with
  | true =>
    simp only [idleOnWrite, hsent, if_true] at h
    obtain ⟨⟨gfc, out⟩, hserve, ht⟩ := Option.bind_eq_some_iff.mp h
    obtain rfl := Option.some.inj ht
    exact .inl ⟨serve_pushPaths _ hserve, rfl⟩
  | false =>
    rw [idleOnWrite_headers hsent, Option.some.injEq] at h
    subst h
    by_cases hauthority : s.authorityStr.isSome = true
    · refine .inr ⟨hauthority, ?_⟩
      split_ifs <;> simp [promisePushes, hauthority]
    · refine .inl ?_
      split_ifs <;> simp [promisePushes, hauthority]

namespace Exchange

variable {lib : Md5Lib} {text : List UInt8} {fuel : ℕ} {x x' : Exchange lib}

/-- The push paths that the stream holds. -/
def pending (x : Exchange lib) : List (List UInt8) :=
  match x.st.interopU with
  | .gfc gfc => gfc.pushPaths
  | _ => []

/-- What becomes of the push paths in one callback: nothing, or all are promised with the
    authority of the request and the stream holds none any more. -/
inductive Spawns (x x' : Exchange lib) : List Req → Prop
  | none : x'.pending = x.pending → Spawns x x' []
  | all {req : Req} {authority : List UInt8} {qs : List (List UInt8)} : x'.pending = [] →
      x.hset = some req → req.authorityStr = some authority → qs.Sublist x.pending →
      Spawns x x' (qs.map fun q => newReq q authority)

/-- Of the promised paths those are pushed for which lsquic creates a stream. -/
theorem sublist_zip_filter {α : Type*} (l : List α) (ok : List Bool) :
    (((l.zip ok).filter Prod.snd).map Prod.fst).Sublist l := by
  induction l generalizing ok with
  | nil => simp
  | cons a l ih =>
    cases ok with
    | nil => simp
    | cons b ok =>
      cases b with
      | false => simpa using (ih ok).trans (List.sublist_cons_self a l)
      | true => simpa using ih ok

theorem Spawns.of_onWriteIdle {w : WriteResult} {gfc : GenFileCtx} {reqs : List Req}
    (hu : x.st.interopU = .gfc gfc) (hreq : x.st.req = x.hset)
    (h : x.onWriteIdle text fuel w gfc = .ok (x', reqs)) : Spawns x x' reqs := by
  have hpending : x.pending = gfc.pushPaths := by rw [pending, hu]
  unfold Exchange.onWriteIdle at h
  split at h
  case h_2 => cases h
  rename_i status req _ hreq'
  split at h
  · cases h
  split at h
  · cases h
  rename_i s hs
  obtain ⟨rfl, rfl⟩ := Prod.mk.inj (Except.ok.inj h)
  have hpending' : (x.withIdle status s).pending = s.gfc.pushPaths := rfl
  obtain ⟨hpaths, hpushed⟩ | ⟨hauthority, hpaths, hpushed⟩ := idleOnWrite_pushPaths hs
  · have hnone : s.pushed = [] := hpushed
    rw [hnone]
    exact .none (by rw [hpending', hpending]; exact hpaths)
  · have hall : s.pushed = gfc.pushPaths := hpushed
    have hset : x.hset = some req := hreq.symm.trans hreq'
    obtain ⟨authority, hauthority'⟩ : ∃ authority, req.authorityStr = some authority := by
      rw [← Option.isSome_iff_exists]
      simpa [idle, hreq'] using hauthority
    have hmap : ((s.pushed.zip w.pushOk).filter Prod.snd).map
        (fun p => newReq p.1 (req.authorityStr.getD [])) =
        (((s.pushed.zip w.pushOk).filter Prod.snd).map Prod.fst).map
          fun q => newReq q authority := by
      rw [List.map_map, hauthority']
      rfl
    rw [hmap]
    refine .all (by rw [hpending', hpaths]) hset hauthority' ?_
    rw [hpending, ← hall]
    exact sublist_zip_filter _ _

/-- A read leaves the promises alone, except the first one, which makes them. -/
theorem onRead_pending {r : ReadResult} (h : x.onRead r = some (.ok x')) :
    (x.st.headersRead = false ∧ x' = x.readHeaders) ∨
      (x'.st.headersRead = x.st.headersRead ∧ x'.pending = x.pending) := by
  unfold Exchange.onRead at h
  split at h
  case isFalse hread => exact .inl ⟨by simpa using hread, by simpa using h.symm⟩
  refine .inr ?_
  split at h
  · -- the MD5 service
    rename_i isDone req hhandler hu
    simp only [Exchange.onReadMd5sum, readMd5_eq] at h
    split at h
    · cases h
    · split at h
      · cases h
      · split at h
        · split at h
          · obtain rfl := Except.ok.inj (Option.some.inj h)
            exact ⟨rfl, by simp [pending, reply, InteropStream.reply, hu]⟩
          · obtain rfl := Except.ok.inj (Option.some.inj h)
            exact ⟨rfl, rfl⟩
        · cases h
  · -- the verify-headers service
    simp only [Exchange.onReadVerHead] at h
    split at h
    · split at h
      · cases h
      · obtain rfl := Except.ok.inj (Option.some.inj h)
        exact ⟨rfl, rfl⟩
    · obtain ⟨s, -, hs⟩ := Option.map_eq_some_iff.mp h
      obtain rfl := Except.ok.inj hs
      split <;> exact ⟨rfl, rfl⟩
  · cases h
  · cases h
  · cases h

/-- A prepared response leaves them alone too. -/
theorem onWriteReply_pending {w : WriteResult} (h : x.onWriteReply w = .ok x') :
    x'.st.headersRead = x.st.headersRead ∧ x'.pending = x.pending := by
  have hoff : ∀ y : Exchange lib, ∀ off, (y.setOff off).st.headersRead = y.st.headersRead ∧
      (y.setOff off).pending = y.pending := by
    intro y off
    unfold setOff
    split <;> rename_i hu <;> simp [pending, hu]
  simp only [Exchange.onWriteReply, bind, Except.bind] at h
  split at h
  · cases h
  · split at h
    · cases h
    · split at h
      · simp only [sendHeaders2] at h
        split at h
        · cases h
        · rename_i hx
          split at hx
          · cases hx
          · obtain rfl := Except.ok.inj hx
            obtain rfl := Except.ok.inj h
            dsimp only
            split <;> exact ⟨rfl, rfl⟩
      · split at h
        · obtain rfl := Except.ok.inj h
          exact ⟨rfl, rfl⟩
        · obtain rfl := Except.ok.inj h
          exact hoff _ _

end Exchange

section

variable {lib : Md5Lib} {text : List UInt8} {fuel : ℕ}

/-- What a callback of a stream does to its promises, and which streams it spawns. -/
theorem Stream.Ok.spawns {s s' : Stream lib} {new : List (Stream lib)} (hs : s.Ok text)
    {e : StreamCall} (h : streamMove text fuel s e = some (.ok (s', new))) :
    (s.ex.st.headersRead = false ∧ s'.ex = s.ex.readHeaders ∧ new = []) ∨
      (s'.ex.st.headersRead = s.ex.st.headersRead ∧
        ∃ reqs, s.ex.Spawns s'.ex reqs ∧ new = reqs.map (.pushed lib)) := by
  cases e with
  | onRead r =>
    simp only [streamMove] at h
    split at h
    · cases h
    · obtain ⟨y, hy, hmap⟩ := Option.map_eq_some_iff.mp h
      cases y with
      | error f => cases hmap
      | ok x' =>
        obtain ⟨rfl, rfl⟩ := Prod.mk.inj (Except.ok.inj hmap)
        obtain ⟨hread, hx'⟩ | ⟨hread, hpending⟩ := Exchange.onRead_pending hy
        · exact .inl ⟨hread, hx', rfl⟩
        · exact .inr ⟨hread, [], .none hpending, rfl⟩
  | onWrite w =>
    simp only [streamMove, Option.ite_none_right_eq_some, Option.some.injEq] at h
    obtain ⟨-, h⟩ := h
    cases hy : s.ex.onWrite text fuel w with
    | error f =>
      rw [hy] at h
      cases h
    | ok y =>
      obtain ⟨x', reqs⟩ := y
      rw [hy] at h
      obtain ⟨rfl, rfl⟩ := Prod.mk.inj (Except.ok.inj h)
      unfold Exchange.onWrite at hy
      split at hy
      · rename_i gfc hhandler hu
        -- a stream that holds push paths is in the stage of generated responses
        have hreq : s.ex.st.req = s.ex.hset := by
          cases hs.stage with
          | unread hst =>
            rw [hst] at hu
            cases hu
          | md5 _ hst => rw [hst, (answered_answered _).req]
          | verHead _ hst => rw [hst, (answered_answered _).req]
          | replying off h => exact absurd hhandler h.notIdle
          | idling R gfc h => exact h.req
        refine .inr ⟨?_, reqs, Exchange.Spawns.of_onWriteIdle hu hreq hy, rfl⟩
        unfold Exchange.onWriteIdle at hy
        split at hy
        · split at hy
          · cases hy
          · split at hy
            · cases hy
            · obtain ⟨rfl, -⟩ := Prod.mk.inj (Except.ok.inj hy)
              rfl
        · cases hy
      · cases hy
      · cases hreply : s.ex.onWriteReply w with
        | error f =>
          rw [hreply] at hy
          cases hy
        | ok x₁ =>
          rw [hreply] at hy
          obtain ⟨rfl, rfl⟩ := Prod.mk.inj (Except.ok.inj hy)
          obtain ⟨hread, hpending⟩ := Exchange.onWriteReply_pending hreply
          exact .inr ⟨hread, [], .none hpending, rfl⟩
  | onClose =>
    simp only [streamMove] at h
    split at h
    · cases h
    · obtain ⟨rfl, rfl⟩ := Prod.mk.inj (Except.ok.inj (Option.some.inj h))
      exact .inr ⟨rfl, [], .none rfl, rfl⟩

/-- A stream whose header set has not been read is as it was. -/
theorem Exchange.Stage.eq_new {x : Exchange lib} {body : List UInt8} (h : x.Stage text body)
    (hread : x.st.headersRead = false) : x.st = .new := by
  have hanswered := (answered_answered x.hset).headersRead
  cases h with
  | unread hst => exact hst
  | md5 _ hst | verHead _ hst =>
    rw [hst, hanswered] at hread
    cases hread
  | replying _ h | idling _ _ h =>
    rw [h.headersRead] at hread
    cases hread

/-- The stream holds what its request promises, or nothing. -/
structure Stream.Keeps (text : List UInt8) (s : Stream lib) : Prop where
  ok : s.Ok text
  pending : s.ex.pending = promises s.ex.hset ∨ s.ex.pending = []

theorem newStream_keeps {junk : ℕ → UInt8} {r : Request} {s : Stream lib}
    (h : newStream lib junk r = some s) : s.Keeps text := by
  refine ⟨(newStream_ok h).1, .inr ?_⟩
  unfold newStream at h
  split at h
  · obtain rfl := Option.some.inj h
    rfl
  · split at h
    · obtain rfl := Option.some.inj h
      rfl
    · cases h

/-- The first read makes the promises of the request. -/
theorem pending_readHeaders {x : Exchange lib} (h : x.st = .new) :
    x.readHeaders.pending = promises x.hset ∧ x.readHeaders.st.headersRead = true := by
  have hst : x.readHeaders.st = answered x.hset := by
    rw [answered, ← h]
    rfl
  rw [Exchange.pending, hst, promises]
  exact ⟨rfl, (answered_answered x.hset).headersRead⟩

theorem Stream.Keeps.move (htext : 0 < text.length) (hfuel : 2 ^ 32 ≤ fuel) {s s' : Stream lib}
    {new : List (Stream lib)} (hs : s.Keeps text) {e : StreamCall} (he : e.BuffersOk)
    (h : streamMove text fuel s e = some (.ok (s', new))) :
    s'.Keeps text ∧ (∀ n ∈ new, n.Keeps text) ∧ s'.ex.hset = s.ex.hset ∧
      s'.isPushed = s.isPushed := by
  obtain ⟨herror, -⟩ | ⟨herror, -⟩ | ⟨s₁, new₁, hok, hs', hnew, hset, hpushed, -⟩ :=
    hs.ok.move htext hfuel he h
  · cases herror
  · cases herror
  obtain ⟨rfl, rfl⟩ := Prod.mk.inj (Except.ok.inj hok)
  obtain ⟨hunread, hx', rfl⟩ | ⟨-, reqs, hspawns, rfl⟩ := hs.ok.spawns h
  · refine ⟨⟨hs', .inl ?_⟩, by simp, hset, hpushed⟩
    rw [hset, hx']
    exact (pending_readHeaders (hs.ok.stage.eq_new hunread)).1
  · refine ⟨⟨hs', ?_⟩, fun n hn => ⟨hnew n hn, .inr ?_⟩, hset, hpushed⟩
    · cases hspawns with
      | none hpending =>
        rw [hpending, hset]
        exact hs.pending
      | all hnil => exact .inr hnil
    · obtain ⟨req, -, rfl⟩ := List.mem_map.mp hn
      rfl

/-! ## §3 How much is pushed -/

/-- The bytes of path that a stream can still turn into pushes. -/
def Stream.owes (s : Stream lib) : ℕ :=
  if s.ex.st.headersRead then pushBytes s.ex.pending else (pathOf s.ex.hset).length

/-- A pushed stream has cost the six bytes of a separator. -/
def Stream.cost (s : Stream lib) : ℕ := (if s.isPushed then 6 else 0) + s.owes

/-- The path of a client's request pays for what it brings about. -/
def Stream.paid (s : Stream lib) : ℕ := if s.isPushed then 0 else (pathOf s.ex.hset).length

theorem pushBytes_le_of_sublist {qs ps : List (List UInt8)} (h : qs.Sublist ps) :
    pushBytes qs ≤ pushBytes ps :=
  (h.map _).sum_le_sum fun _ _ => Nat.zero_le _

/-- The cost of pushed streams. -/
theorem sum_cost_pushed (lib : Md5Lib) (qs : List (List UInt8)) (authority : List UInt8) :
    ((qs.map fun q => Stream.pushed lib (newReq q authority)).map Stream.cost).sum =
      pushBytes qs := by
  rw [List.map_map, pushBytes]
  congr 1
  apply List.map_congr_left
  intro q _
  show 6 + q.length = q.length + 6
  omega

/-- **No callback creates a debt.** -/
theorem Stream.Keeps.cost_le (htext : 0 < text.length) (hfuel : 2 ^ 32 ≤ fuel)
    {s s' : Stream lib} {new : List (Stream lib)} (hs : s.Keeps text) {e : StreamCall}
    (he : e.BuffersOk) (h : streamMove text fuel s e = some (.ok (s', new))) :
    s'.cost + (new.map Stream.cost).sum + s.paid ≤
      s.cost + (s'.paid + (new.map Stream.paid).sum) := by
  obtain ⟨-, -, hset, hpushed⟩ := hs.move htext hfuel he h
  have hpaid : s'.paid = s.paid := by rw [paid, paid, hset, hpushed]
  suffices howes : s'.owes + (new.map Stream.cost).sum ≤ s.owes by
    rw [hpaid, cost, cost, hpushed]
    omega
  obtain ⟨hunread, hx', rfl⟩ | ⟨hread, reqs, hspawns, rfl⟩ := hs.ok.spawns h
  · obtain ⟨hpending, hread⟩ := pending_readHeaders (hs.ok.stage.eq_new hunread)
    have hle := pushBytes_promises_le s.ex.hset
    simp only [owes, hx', hread, hunread, hpending, if_true, Bool.false_eq_true, if_false,
      List.map_nil, List.sum_nil]
    omega
  · cases hspawns with
    | none hpending => simp [owes, hread, hpending, hset]
    | @all req authority qs hnil hreq hauthority hsub =>
      rw [List.map_map]
      have hnew := sum_cost_pushed lib qs authority
      have hle := pushBytes_le_of_sublist hsub
      by_cases hfirst : s.ex.st.headersRead = true
      · simp only [owes, hread, hfirst, if_true, hnil]
        simp only [List.map_map, Function.comp_def] at hnew ⊢
        rw [hnew]
        simpa [pushBytes] using hle
      · -- nothing is pending before the first read
        have hst := hs.ok.stage.eq_new (Bool.not_eq_true _ ▸ hfirst)
        have hnone : s.ex.pending = [] := by rw [Exchange.pending, hst]; rfl
        rw [hnone, List.sublist_nil] at hsub
        subst hsub
        simp [owes, hread, hfirst, hset]

/-- What stays the same of a stream: who opened it, and its header set. -/
def Stream.label (s : Stream lib) : Bool × Option Req := (s.isPushed, s.ex.hset)

/-- The second stream is pushed for a promise of the first one. -/
def Promised (l l' : Bool × Option Req) : Prop :=
  ∃ req authority q, l.2 = some req ∧ req.authorityStr = some authority ∧ q ∈ promises l.2 ∧
    l' = (true, some (newReq q authority))

theorem Stream.Keeps.promised (htext : 0 < text.length) (hfuel : 2 ^ 32 ≤ fuel)
    {s s' : Stream lib} {new : List (Stream lib)} (hs : s.Keeps text) {e : StreamCall}
    (he : e.BuffersOk) (h : streamMove text fuel s e = some (.ok (s', new))) :
    s'.label = s.label ∧ ∀ n ∈ new, Promised s.label n.label := by
  obtain ⟨-, -, hset, hpushed⟩ := hs.move htext hfuel he h
  refine ⟨by rw [label, label, hset, hpushed], ?_⟩
  obtain ⟨-, -, rfl⟩ | ⟨-, reqs, hspawns, rfl⟩ := hs.ok.spawns h
  · simp
  · cases hspawns with
    | none => simp
    | @all req authority qs _ hreq hauthority hsub =>
      intro n hn
      obtain ⟨req', hreq', rfl⟩ := List.mem_map.mp hn
      obtain ⟨q, hq, rfl⟩ := List.mem_map.mp hreq'
      refine ⟨req, authority, q, hreq, hauthority, ?_, rfl⟩
      obtain hall | hnone := hs.pending
      · rw [hall] at hsub
        exact hsub.subset hq
      · rw [hnone, List.sublist_nil] at hsub
        subst hsub
        cases hq

/-- A chain of promises ends in a piece of the path that it began with. -/
theorem Promised.descend {l l' : Bool × Option Req} (h : Relation.ReflTransGen Promised l l') :
    l' = l ∨ ∃ req authority q, l.2 = some req ∧ req.authorityStr = some authority ∧
      l'.2 = some (newReq q authority) ∧ q <:+: pathOf l.2 ∧
        q.length + 8 ≤ (pathOf l.2).length := by
  induction h with
  | refl => exact .inl rfl
  | tail _ hstep ih =>
    obtain ⟨req', authority', q', hreq', hauthority', hmem, rfl⟩ := hstep
    obtain ⟨hpiece, hlen⟩ := mem_promises hmem
    refine .inr ?_
    obtain rfl | ⟨req, authority, q, hreq, hauthority, hq, hpiece₀, hlen₀⟩ := ih
    · exact ⟨req', authority', q', hreq', hauthority', rfl, hpiece, hlen⟩
    · -- the promise is made by a pushed stream
      obtain rfl : newReq q authority = req' := Option.some.inj (hq.symm.trans hreq')
      obtain rfl : authority = authority' := Option.some.inj hauthority'
      have hpath : pathOf (some (newReq q authority)) = q := rfl
      rw [hq, hpath] at hpiece hlen
      exact ⟨req, authority, q', hreq, hauthority, rfl, hpiece.trans hpiece₀, by omega⟩

end

/-! ## §4 Every run -/

/-- The pushed streams of the server, whoever has opened the others. -/
structure PushesBounded {lib : Md5Lib} (ss : List (Stream lib)) : Prop where
  /-- Six bytes of a client's path for each of them. -/
  count : 6 * ss.countP (·.isPushed) ≤ (ss.map Stream.paid).sum
  /-- Each of them is for a piece of a client's path, with the authority of that client. -/
  origin : ∀ s ∈ ss, s.isPushed = true → ∃ c ∈ ss, c.isPushed = false ∧
    ∃ req authority q, c.ex.hset = some req ∧ req.authorityStr = some authority ∧
      s.ex.hset = some (newReq q authority) ∧ q <:+: pathOf c.ex.hset ∧
        q.length + 8 ≤ (pathOf c.ex.hset).length

section

variable {lib : Md5Lib} {text : List UInt8} {fuel : ℕ} {junk : ℕ → UInt8}

theorem countP_le_sum_cost (ss : List (Stream lib)) :
    6 * ss.countP (·.isPushed) ≤ (ss.map Stream.cost).sum := by
  induction ss with
  | nil => rfl
  | cons s ss ih =>
    rw [List.countP_cons, List.map_cons, List.sum_cons, Stream.cost]
    split <;> omega

theorem keeps_along (junk : ℕ → UInt8) (htext : 0 < text.length) (hfuel : 2 ^ 32 ≤ fuel)
    {E : Request → Prop} {ss : List (Stream lib)} (hss : ∀ s ∈ ss, s.Keeps text)
    {es : List StreamEvent} (hes : ∀ e ∈ es, e.Allowed E StreamCall.BuffersOk) :
    StatesAlong (streamStep lib text fuel junk) (PoolOk (Stream.Keeps text) fun _ => True)
      (.ok ss) es := by
  refine poolOk_along (fun r s _ h => newStream_keeps h) (fun s e r he hs h => ?_) hss hes
  cases r with
  | error f => exact .inl ⟨f, rfl, trivial⟩
  | ok r =>
    obtain ⟨hs', hnew, -⟩ := hs.move htext hfuel he h
    exact .inr ⟨r.1, r.2, rfl, hs', hnew⟩

theorem newStream_isPushed {r : Request} {s : Stream lib} (h : newStream lib junk r = some s) :
    s.isPushed = false ∧ s.ex.st = .new := by
  unfold newStream at h
  split at h
  · obtain rfl := Option.some.inj h
    exact ⟨rfl, rfl⟩
  · split at h
    · obtain rfl := Option.some.inj h
      exact ⟨rfl, rfl⟩
    · cases h

/-- **Pushes are bounded.** In every run of the server and every interleaving, the pushed
    streams cost the clients six bytes of path each, although pushed streams push further
    ones; and each is for a proper piece of the path of one client's request, with the
    authority of that request. -/
theorem pushes_bounded (lib : Md5Lib) (text : List UInt8) (htext : 0 < text.length) (fuel : ℕ)
    (hfuel : 2 ^ 32 ≤ fuel) (junk : ℕ → UInt8) (es : List StreamEvent)
    (hes : ∀ e ∈ es, e.Allowed (fun _ => True) StreamCall.BuffersOk) :
    StatesAlong (streamStep lib text fuel junk) (fun x => ∀ ss, x = .ok ss → PushesBounded ss)
      (.ok []) es := by
  have hempty : ∀ s ∈ ([] : List (Stream lib)), s.Keeps text := List.forall_mem_nil _
  have hkeeps := keeps_along junk htext hfuel hempty hes
  have hwithin : StatesAlong (streamStep lib text fuel junk) (Within Stream.cost Stream.paid)
      (.ok []) es := by
    refine within_along (fun r s _ h => ?_) (fun s e s' new he hs h => hs.cost_le htext hfuel he h)
      hkeeps le_rfl hes
    obtain ⟨hpushed, hst⟩ := newStream_isPushed h
    have hread : s.ex.st.headersRead = false := by rw [hst]; rfl
    simp [Stream.cost, Stream.paid, Stream.owes, hpushed, hread]
  have hdescends : StatesAlong (streamStep lib text fuel junk)
      (Descends Stream.label (fun l => l.1 = false) Promised) (.ok []) es := by
    refine descends_along (fun r s _ h => (newStream_isPushed h).1)
      (fun s e s' new he hs h => hs.promised htext hfuel he h) hkeeps ?_ hes
    intro s hs
    cases hs
  rw [statesAlong_iff_exec]
  rintro pre t hpre hexec ss rfl
  constructor
  · have hcost : (ss.map Stream.cost).sum ≤ (ss.map Stream.paid).sum :=
      statesAlong_iff_exec.mp hwithin pre _ hpre hexec
    exact (countP_le_sum_cost ss).trans hcost
  · intro s hs hpushed
    obtain ⟨c, hc, hroot, hdesc⟩ := statesAlong_iff_exec.mp hdescends pre _ hpre hexec s hs
    refine ⟨c, hc, hroot, ?_⟩
    obtain hsame | horigin := Promised.descend hdesc
    · -- a pushed stream is none of a client
      have hclient : s.isPushed = c.isPushed := congrArg Prod.fst hsame
      rw [hpushed] at hclient
      exact absurd (hclient.trans hroot) (by decide)
    · exact horigin

end

/-- A pushed stream pushes another one. -/
def pushRun : List StreamEvent :=
  [.start ⟨some [getHeader,
      ⟨pathName, cstr "/1?push=/2?push=/3", Nat.le_of_ble_eq_true rfl⟩, hostHeader], []⟩,
    .move 0 (.onRead ⟨false, [], false, []⟩), .move 0 (.onWrite ⟨true, [true], false, 0, []⟩),
    .move 1 (.onRead ⟨false, [], false, []⟩), .move 1 (.onWrite ⟨true, [true], false, 0, []⟩)]

theorem pushes_bounded_pushRun :
    ∃ ss, exec (streamStep md5OfNothing (cstr "a") (2 ^ 32) fun _ => 0) (.ok []) pushRun =
      some (.ok ss) ∧ ss.length = 3 ∧ PushesBounded ss := by
  have hallowed : ∀ e ∈ pushRun, e.Allowed (fun _ => True) StreamCall.BuffersOk := by
    simp only [pushRun, List.forall_mem_cons]
    simp [PoolEvent.Allowed, StreamCall.BuffersOk]
  have halong := pushes_bounded md5OfNothing (cstr "a") (by decide) (2 ^ 32) le_rfl
    (fun _ => 0) pushRun hallowed
  have hlength : (exec (streamStep md5OfNothing (cstr "a") (2 ^ 32) fun _ => 0)
      (.ok []) pushRun).map (fun y => y.toOption.map List.length) = some (some 3) := by
    decide +kernel
  obtain ⟨y, hy, hlength⟩ := Option.map_eq_some_iff.mp hlength
  have hlast := halong.last hy
  cases y with
  | error f => cases hlength
  | ok ss => exact ⟨ss, hy, by simpa [Except.toOption] using hlength, hlast ss rfl⟩

end Equic.Interop
