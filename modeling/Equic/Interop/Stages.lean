import Equic.Interop.Answer

/-!
# From stage to stage

One lemma for each branch of the two callbacks: it takes a stream to its next stage or ends
the process. `Stage.onRead` and `Stage.onWrite` put them together. The only assertion that
can fail is the one that there is something to send.
-/

namespace Equic.Interop

open Equic.Foundation

section

variable {lib : Md5Lib} {text body : List UInt8}

/-! ## §1 Reading -/

/-- The header set of a stream has the length of its serialization. -/
def HsetOk (hset : Option Req) : Prop := ∀ req, hset = some req → req.qifSz = req.qifStr.length

theorem length_md5Page {md5str : List UInt8} (h : md5str.length = 32) :
    (md5Page md5str).length = 163 := by
  simp only [md5Page, List.length_append, h]
  rfl

theorem nul_notMem_md5Page {md5str : List UInt8} (h : 0 ∉ md5str) : 0 ∉ md5Page md5str := by
  simp only [md5Page, List.mem_append, not_or]
  refine ⟨⟨⟨?_, ?_⟩, h⟩, ?_⟩ <;> decide

/-- The buffer is large enough, so nothing of the page is lost. -/
theorem md5Resp_eq (lib : Md5Lib) (message : List UInt8) :
    md5Resp lib (lib.md5.hash message) =
      ⟨md5Page (lib.hexstr (lib.md5.hash message)),
        (md5Page (lib.hexstr (lib.md5.hash message))).length, 0⟩ := by
  have hhex : (lib.hexstr (lib.md5.hash message)).length = 32 := by
    rw [lib.length_hexstr, Digest.length_hash, lib.size_eq]
  have hfits : (md5Page (lib.hexstr (lib.md5.hash message))).take 255 =
      md5Page (lib.hexstr (lib.md5.hash message)) := by
    apply List.take_of_length_le
    rw [length_md5Page hhex]
    decide
  have hstrlen : strlen (md5Page (lib.hexstr (lib.md5.hash message))) =
      (md5Page (lib.hexstr (lib.md5.hash message))).length := by
    have hnul := nul_notMem_md5Page (lib.nul_notMem_hexstr (lib.md5.hash message))
    exact congrArg List.length ((strndup_eq_iff _).mpr hnul)
  rw [md5Resp, hfits, hstrlen]

namespace Exchange

variable {x : Exchange lib}

/-- `read_md5` absorbs what it is handed. -/
theorem readMd5_eq (x : Exchange lib) (sizes : List ℕ) :
    x.readMd5 sizes = { x with
      md5ctx := lib.md5.absorb x.md5ctx (chunks sizes x.unread)
      unread := x.unread.drop sizes.sum } := by
  induction sizes generalizing x with
  | nil => rfl
  | cons sz sizes ih =>
    have hskip : (if sz ≠ 0 then lib.md5.update x.md5ctx (x.unread.take sz) else x.md5ctx) =
        lib.md5.update x.md5ctx (x.unread.take sz) := by
      by_cases hsz : sz = 0
      · subst hsz
        exact (lib.md5.update_nil x.md5ctx).symm
      · rw [if_pos hsz]
    rw [readMd5, hskip, ih]
    simp only [List.drop_drop, List.sum_cons]
    rfl

theorem Quiet.replying (hquiet : x.Quiet) (hread : x.st.headersRead = true)
    (hstatus : x.st.respStatus = (answered x.hset).respStatus) (hshut : x.st.isShut = true)
    (hhandler : x.st.interopHandler = (answered x.hset).interopHandler)
    (hidle : x.st.interopHandler ≠ .genFile) (hunset : x.st.interopU ≠ .unset)
    (hresp : x.resp = .ok
      ⟨content lib text x.hset body, (content lib text x.hset body).length, 0⟩) :
    x.Replying text body 0 where
  headersRead := hread
  respStatus := hstatus
  isShut := hshut
  handler := hhandler
  notIdle := hidle
  notUnset := hunset
  resp := hresp
  off_le := Nat.zero_le _
  handed := hquiet.handed
  announced := by
    intro v hv
    rw [hquiet.announced] at hv
    cases hv
  ordered := fun _ => ⟨hquiet.announced, rfl⟩
  shut := by
    intro hshut
    rw [hquiet.isShutWrite] at hshut
    cases hshut
  complete := fun hne hall => absurd (List.length_eq_zero_iff.mp hall.symm) hne

/-- A generated response begins. -/
theorem Quiet.idling (hquiet : x.Quiet) {gfc : GenFileCtx} (hst : x.st = answered x.hset)
    (hsome : x.hset.isSome) (hhandler : (answered x.hset).interopHandler = .genFile)
    (hu : (answered x.hset).interopU = .gfc gfc) (hwant : (answered x.hset).wantWrite = true)
    (hoff : gfc.idleOff = 0) (hle : gfc.remain ≤ 2 ^ 31) : x.Idling text body gfc.remain gfc where
  headersRead := by rw [hst, (answered_answered x.hset).headersRead]
  respStatus := by rw [hst]
  isShut := by rw [hst, (answered_answered x.hset).isShut, hwant]
  req := by rw [hst, (answered_answered x.hset).req]
  hset := hsome
  handler := by rw [hst, hhandler]
  interopU := by rw [hst, hu]
  content := by rw [Interop.content, hu]
  le := hle
  responding := by
    refine ⟨?_, ⟨Nat.min_le_left _ _, ?_, ?_⟩, ?_, fun _ => hquiet.asked⟩
    · simp [idle, hquiet.handed, hquiet.asked]
    · simp [idle, hquiet.asked]
    · simp [idle, hquiet.asked, hoff]
    · simp [idle, hquiet.announced, hquiet.headersSent]
  announced := by
    intro v hv
    rw [hquiet.announced] at hv
    cases hv
  shut := by
    intro hshut
    rw [hquiet.isShutWrite] at hshut
    cases hshut
  complete := fun hpos hzero => absurd hzero hpos.ne'

/-- The first `on_read` prepares the response or the reading of the body. -/
theorem Stage.readHeaders (hquiet : x.Quiet) (hst : x.st = .new) (hunread : x.unread = body) :
    x.readHeaders.Stage text body := by
  have hstart : x.readHeaders.st = answered x.hset := by
    rw [answered, ← hst]
    rfl
  have hanswered := answered_answered x.hset
  have hprepared := hanswered.prepared
  generalize hhandler : (answered x.hset).interopHandler = handler at hprepared
  generalize hu : (answered x.hset).interopU = u at hprepared
  generalize hwant : (answered x.hset).wantWrite = want at hprepared
  have hshut := hanswered.isShut.trans hwant
  have hquiet' : x.readHeaders.Quiet :=
    ⟨hquiet.headersSent, hquiet.announced, hquiet.asked, hquiet.handed, hquiet.isShutWrite⟩
  cases hprepared with
  | @error resp hsz hne hoff =>
    apply Stage.replying 0
    apply hquiet'.replying
    · rw [hstart, hanswered.headersRead]
    · rw [hstart]
      rfl
    · rw [hstart, hshut]
    · rw [hstart]
      rfl
    · simp [hstart, hhandler]
    · simp [hstart, hu]
    · have hcontent : content lib text x.hset body = resp.buf := by rw [content, hu]
      simp only [Exchange.resp, hstart, hhandler, hu, ← hoff]
      rw [show x.readHeaders.hset = x.hset from rfl, hcontent, ← hsz]
  | indexHtml =>
    apply Stage.replying 0
    apply hquiet'.replying
    · rw [hstart, hanswered.headersRead]
    · rw [hstart]
      rfl
    · rw [hstart, hshut]
    · rw [hstart]
      rfl
    · simp [hstart, hhandler]
    · simp [hstart, hu]
    · have hcontent : content lib text x.hset body = indexHtml := by rw [content, hu]
      simp only [Exchange.resp, hstart, hhandler, hu]
      rw [show x.readHeaders.hset = x.hset from rfl, hcontent]
  | @verHead req hset => exact .verHead req hstart hset hhandler hu hquiet'
  | md5sum =>
    refine .md5 0 hstart hhandler hu ?_ hunread hquiet'
    rw [List.take_zero, lib.md5.update_nil]
    show (if x.readHeaders.st.interopHandler = .md5sum then lib.md5.init else x.md5ctx) = _
    rw [hstart, hhandler, if_pos rfl]
  | @genFile gfc hsome hoff hle =>
    exact .idling gfc.remain gfc (hquiet'.idling hstart hsome hhandler hu hwant hoff hle)

/-- The branch for the MD5 service goes on reading, or has the page for the whole body. -/
theorem Stage.onReadMd5sum {taken : ℕ} (hquiet : x.Quiet) (hst : x.st = answered x.hset)
    (hhandler : (answered x.hset).interopHandler = .md5sum)
    (hu : (answered x.hset).interopU = .md5c false)
    (hctx : x.md5ctx = lib.md5.update lib.md5.init (body.take taken))
    (hunread : x.unread = body.drop taken) {r : ReadResult}
    {y : Except Fault (Exchange lib)} (h : x.onReadMd5sum r false = some y) :
    (y = .error (.exit 1) ∧ r.fails = true) ∨
      ∃ x', y = .ok x' ∧ x'.Stage text body ∧ x'.hset = x.hset ∧ x'.isClosed = x.isClosed := by
  have hanswered := answered_answered x.hset
  simp only [Exchange.onReadMd5sum, Bool.false_eq_true, if_false] at h
  by_cases hfails : r.fails = true
  · rw [if_pos hfails] at h
    exact .inl ⟨(Option.some.inj h).symm, hfails⟩
  rw [if_neg hfails] at h
  by_cases hmay : mayReadf x.unread r = true
  · rw [if_pos hmay, readMd5_eq] at h
    -- what has been absorbed by now
    have hctx' : lib.md5.absorb x.md5ctx (chunks r.chunks x.unread) =
        lib.md5.update lib.md5.init (body.take (taken + r.chunks.sum)) := by
      rw [Digest.absorb_eq, flatten_chunks, hctx, lib.md5.update_append, hunread, ← List.take_add]
    have hunread' : x.unread.drop r.chunks.sum = body.drop (taken + r.chunks.sum) := by
      rw [hunread, List.drop_drop]
    rw [hctx', hunread'] at h
    by_cases hdone : (r.chunks.sum = 0 || r.fin) = true
    · rw [if_pos hdone, Option.some.injEq] at h
      subst h
      refine .inr ⟨_, rfl, .replying 0 (Quiet.replying ?_ ?_ ?_ rfl ?_ ?_ ?_ ?_), rfl, rfl⟩
      · exact ⟨hquiet.headersSent, hquiet.announced, hquiet.asked, hquiet.handed,
          hquiet.isShutWrite⟩
      · show x.st.headersRead = true
        rw [hst, hanswered.headersRead]
      · show x.st.respStatus = _
        rw [hst]
        rfl
      · show x.st.interopHandler = _
        rw [hst]
        rfl
      · show x.st.interopHandler ≠ _
        simp [hst, hhandler]
      · simp [reply, InteropStream.reply]
      · -- the end of the body has been reached
        have hall : body.take (taken + r.chunks.sum) = body := by
          apply List.take_of_length_le
          have hend : r.chunks.sum = x.unread.length := by
            simp only [mayReadf, Bool.and_eq_true, Bool.or_eq_true, decide_eq_true_eq,
              List.isEmpty_iff, Bool.not_eq_true'] at hmay
            obtain ⟨⟨hle, hzero⟩, hfin⟩ := hmay
            simp only [Bool.or_eq_true, decide_eq_true_eq] at hdone
            rcases hdone with hsum | hlast
            · rcases hzero with hne | hempty
              · exact absurd hsum (by simpa using hne)
              · rw [hsum, hempty, List.length_nil]
            · rcases hfin with hnot | heq
              · rw [hlast] at hnot
                cases hnot
              · exact heq
          rw [hunread, List.length_drop] at hend
          omega
        rw [hall]
        have hcontent : content lib text x.hset body =
            md5Page (lib.hexstr (lib.md5.hash body)) := by rw [content, hu]
        show Exchange.resp _ = .ok ⟨content lib text x.hset body,
          (content lib text x.hset body).length, 0⟩
        rw [hcontent, ← md5Resp_eq]
        simp only [Exchange.resp, reply, InteropStream.reply, hst, hhandler]
        rfl
    · rw [if_neg hdone, Option.some.injEq] at h
      subst h
      refine .inr ⟨_, rfl, .md5 (taken + r.chunks.sum) hst hhandler hu rfl rfl ?_, rfl, rfl⟩
      exact ⟨hquiet.headersSent, hquiet.announced, hquiet.asked, hquiet.handed,
        hquiet.isShutWrite⟩
  · rw [if_neg hmay] at h
    cases h

/-- The branch for the verify-headers service goes on reading, or has the headers to send
    back, whatever its report is. -/
theorem Stage.onReadVerHead {req : Req} (hquiet : x.Quiet) (hst : x.st = answered x.hset)
    (hset : x.hset = some req) (hsz : req.qifSz = req.qifStr.length)
    (hhandler : (answered x.hset).interopHandler = .verHead)
    (hu : (answered x.hset).interopU = .vhc ⟨req.qifStr, req.qifSz, 0⟩) {r : ReadResult}
    {y : Except Fault (Exchange lib)} (h : x.onReadVerHead r req = some y) :
    (y = .error (.exit 1) ∧ r.fails = true) ∨
      ∃ x', y = .ok x' ∧ x'.Stage text body ∧ x'.hset = x.hset ∧ x'.isClosed = x.isClosed := by
  have hcontent : content lib text x.hset body = req.qifStr := by rw [content, hu]
  -- reading touches nothing that the response depends on
  have hreply : ∀ reqBody reqSz unread report, Stage text body
      (reply { x with
        reqBody := reqBody, reqSz := reqSz, unread := unread, report := report }) := by
    intro reqBody reqSz unread report
    refine .replying 0 (Quiet.replying ?_ ?_ ?_ rfl ?_ ?_ ?_ ?_)
    · exact ⟨hquiet.headersSent, hquiet.announced, hquiet.asked, hquiet.handed,
        hquiet.isShutWrite⟩
    · show x.st.headersRead = true
      rw [hst, (answered_answered x.hset).headersRead]
    · show x.st.respStatus = _
      rw [hst]
      rfl
    · show x.st.interopHandler = _
      rw [hst]
      rfl
    · show x.st.interopHandler ≠ _
      simp [hst, hhandler]
    · show x.st.interopU ≠ _
      simp [hst, hu]
    · show Exchange.resp _ = .ok ⟨content lib text x.hset body,
        (content lib text x.hset body).length, 0⟩
      rw [hcontent, ← hsz]
      simp only [Exchange.resp, reply, InteropStream.reply, hst, hhandler, hu]
  simp only [Exchange.onReadVerHead] at h
  by_cases hfails : r.fails = true
  · rw [if_pos hfails] at h
    split at h
    · exact .inl ⟨(Option.some.inj h).symm, hfails⟩
    · exact .inr ⟨_, (Option.some.inj h).symm, hreply _ _ _ _, rfl, rfl⟩
  · rw [if_neg hfails] at h
    obtain ⟨s, -, rfl⟩ := Option.map_eq_some_iff.mp h
    refine .inr ⟨_, rfl, ?_⟩
    split
    · exact ⟨hreply _ _ _ _, rfl, rfl⟩
    · refine ⟨.verHead req hst hset hhandler hu ?_, rfl, rfl⟩
      exact ⟨hquiet.headersSent, hquiet.announced, hquiet.asked, hquiet.handed,
        hquiet.isShutWrite⟩

/-- **Reading.** On an open read side `on_read` leads to the next stage, or ends the process
    because a read has failed. -/
theorem Stage.onRead (hs : x.Stage text body) (hset : HsetOk x.hset) (hopen : x.st.isShut = false)
    {r : ReadResult} {y : Except Fault (Exchange lib)} (h : x.onRead r = some y) :
    (y = .error (.exit 1) ∧ r.fails = true) ∨
      ∃ x', y = .ok x' ∧ x'.Stage text body ∧ x'.hset = x.hset ∧ x'.isClosed = x.isClosed := by
  have hanswered := answered_answered x.hset
  cases hs with
  | unread hst hunread hquiet =>
    have hread : x.st.headersRead = false := by rw [hst]; rfl
    simp only [Exchange.onRead, hread, Bool.false_eq_true, if_false, Option.some.injEq] at h
    exact .inr ⟨_, h.symm, Stage.readHeaders hquiet hst hunread, rfl, rfl⟩
  | md5 taken hst hhandler hu hctx hunread hquiet =>
    have hread : x.st.headersRead = true := by rw [hst, hanswered.headersRead]
    have hhandler' : x.st.interopHandler = .md5sum := by rw [hst, hhandler]
    have hu' : x.st.interopU = .md5c false := by rw [hst, hu]
    simp only [Exchange.onRead, hread, if_true, hhandler', hu'] at h
    exact Stage.onReadMd5sum hquiet hst hhandler hu hctx hunread h
  | verHead req hst hreq hhandler hu hquiet =>
    have hread : x.st.headersRead = true := by rw [hst, hanswered.headersRead]
    have hhandler' : x.st.interopHandler = .verHead := by rw [hst, hhandler]
    have hu' : x.st.interopU = .vhc ⟨req.qifStr, req.qifSz, 0⟩ := by rw [hst, hu]
    have hreq' : x.st.req = some req := by rw [hst, hanswered.req, hreq]
    simp only [Exchange.onRead, hread, if_true, hhandler', hu', hreq'] at h
    exact Stage.onReadVerHead hquiet hst hreq (hset req hreq) hhandler hu h
  | replying off hreplying =>
    rw [hreplying.isShut] at hopen
    cases hopen
  | idling R gfc hidling =>
    rw [hidling.isShut] at hopen
    cases hopen

end Exchange

/-! ## §2 Writing -/

namespace Exchange

variable {x : Exchange lib}

/-- Where the offset of the response is kept. -/
theorem resp_setOff {resp : Resp} (hresp : x.resp = .ok resp) (hunset : x.st.interopU ≠ .unset)
    (off : ℕ) : (x.setOff off).resp = .ok { resp with off := off } := by
  unfold Exchange.resp at hresp
  split at hresp
  case h_5 => exact absurd ‹_› hunset
  all_goals first
    | (obtain rfl := Except.ok.inj hresp
       simp only [Exchange.setOff, Exchange.resp, *])
    | cases hresp

/-- Moving the offset changes nothing else. -/
theorem setOff_frame (x : Exchange lib) (off : ℕ) : ∃ u resp, x.setOff off =
    { x with st := { x.st with interopU := u }, md5cResp := resp } ∧
      (x.st.interopU ≠ .unset → u ≠ .unset) := by
  unfold setOff
  split
  · exact ⟨_, _, rfl, fun _ => by simp⟩
  · exact ⟨_, _, rfl, fun _ => by simp⟩
  · exact ⟨_, _, rfl, fun _ => by simp⟩
  · exact ⟨x.st.interopU, _, rfl, id⟩
  · exact ⟨x.st.interopU, x.md5cResp, rfl, id⟩

/-- The headers of a prepared response. -/
theorem Replying.sendHeaders {off : ℕ} (h : x.Replying text body off)
    (hsent : x.headersSent = false) (sendOk : Bool) :
    ∃ x', x.sendHeaders2 sendOk (content lib text x.hset body).length = .ok x' ∧
      Replying text body off { x' with headersSent := true } ∧ x'.hset = x.hset := by
  obtain ⟨status, hstatus⟩ := Option.isSome_iff_exists.mp (answered_answered x.hset).respStatus
  obtain ⟨hnone, hoff⟩ := h.ordered hsent
  have hshut : x.isShutWrite = true → off = (content lib text x.hset body).length := h.shut
  cases sendOk with
  | true =>
    refine ⟨{ x with announced := some (status, (content lib text x.hset body).length) },
      by simp [sendHeaders2, h.respStatus, hstatus], ?_, rfl⟩
    refine ⟨h.headersRead, h.respStatus, h.isShut, h.handler, h.notIdle, h.notUnset, h.resp,
      h.off_le, h.handed, ?_, by rintro ⟨⟩, h.shut, h.complete⟩
    rintro v hv
    obtain rfl := Option.some.inj hv
    exact ⟨hstatus, rfl⟩
  | false =>
    refine ⟨x, by simp [sendHeaders2, h.respStatus, hstatus], ?_, rfl⟩
    exact ⟨h.headersRead, h.respStatus, h.isShut, h.handler, h.notIdle, h.notUnset, h.resp,
      h.off_le, h.handed, h.announced, by rintro ⟨⟩, h.shut, h.complete⟩

/-- The next bytes of a prepared response. -/
theorem Replying.advance {off nw : ℕ} (h : x.Replying text body off)
    (hsent : x.headersSent = true) (hnw : off + nw ≤ (content lib text x.hset body).length) :
    Replying text body (off + nw)
      { setOff (off + nw) { x with
          handed := x.handed ++ ((content lib text x.hset body).drop off).take nw } with
        isShutWrite :=
          x.isShutWrite || (off + nw = (content lib text x.hset body).length : Bool) } := by
  have hresp := resp_setOff (x := { x with
    handed := x.handed ++ ((content lib text x.hset body).drop off).take nw }) h.resp h.notUnset
    (off + nw)
  obtain ⟨u, resp, hframe, hunset⟩ := setOff_frame { x with
    handed := x.handed ++ ((content lib text x.hset body).drop off).take nw } (off + nw)
  rw [hframe] at hresp ⊢
  refine ⟨h.headersRead, h.respStatus, h.isShut, h.handler, h.notIdle, hunset h.notUnset, hresp,
    hnw, ?_, h.announced, ?_, ?_, ?_⟩
  · show x.handed ++ _ = _
    rw [h.handed, ← List.take_add]
  · intro hnot
    exact absurd (hsent.symm.trans hnot) (by decide)
  · intro hshut
    obtain hbefore | hnow := Bool.or_eq_true_iff.mp hshut
    · have hle := h.shut hbefore
      show off + nw = (content lib text x.hset body).length
      omega
    · exact of_decide_eq_true hnow
  · intro _ hall
    exact Bool.or_eq_true_iff.mpr (.inr (decide_eq_true hall))

/-- A prepared response is sent on, or there is nothing to send and the assertion fails. -/
theorem Replying.onWriteReply {off : ℕ} (h : x.Replying text body off) {w : WriteResult}
    (hmay : mayWrite w x = true) :
    (content lib text x.hset body = [] ∧ x.onWriteReply w = .error .assertion) ∨
      ∃ x', x.onWriteReply w = .ok x' ∧ x'.Stage text body ∧ x'.hset = x.hset := by
  by_cases hempty : content lib text x.hset body = []
  · refine .inl ⟨hempty, ?_⟩
    simp [Exchange.onWriteReply, h.resp, hempty, bind, Except.bind]
  have hsz : (content lib text x.hset body).length ≠ 0 := by simpa using hempty
  refine .inr ?_
  cases hsent : x.headersSent with
  | false =>
    obtain ⟨x', hx', hreplying, hset⟩ := h.sendHeaders hsent w.sendOk
    refine ⟨{ x' with headersSent := true }, ?_, .replying off hreplying, hset⟩
    simp [Exchange.onWriteReply, h.resp, hsz, hsent, hx', bind, Except.bind, pure, Except.pure]
  | true =>
    by_cases hfails : w.fails = true
    · refine ⟨{ x with isClosed := true }, ?_, .replying off ?_, rfl⟩
      · simp [Exchange.onWriteReply, h.resp, hsz, hsent, hfails, bind, Except.bind, pure,
          Except.pure]
      · exact ⟨h.headersRead, h.respStatus, h.isShut, h.handler, h.notIdle, h.notUnset, h.resp,
          h.off_le, h.handed, h.announced, h.ordered, h.shut, h.complete⟩
    · have hnw : off + w.nw ≤ (content lib text x.hset body).length := by
        have hle := h.off_le
        simp only [mayWrite, h.resp, decide_eq_true_eq] at hmay
        omega
      refine ⟨_, ?_, .replying _ (h.advance hsent hnw), ?_⟩
      · simp only [Exchange.onWriteReply, h.resp, hsz, hsent, hfails, bind, Except.bind, pure,
          Except.pure, if_false, Bool.not_true, Bool.false_eq_true]
      · obtain ⟨u, resp, hframe, -⟩ := setOff_frame { x with
          handed := x.handed ++ ((content lib text x.hset body).drop off).take w.nw } (off + w.nw)
        rw [hframe]

/-- What the first `idle_on_write` and the later ones do to the state of the stream. -/
theorem idleOnWrite_cases {fuel : ℕ} {s t : IdleStream} {w : IdleWrite}
    (h : idleOnWrite text fuel s w = some t) :
    (s.headersSent = false ∧ t.asked = s.asked ∧ t.isShut = s.isShut) ∨
      (s.headersSent = true ∧ t.isShut = (s.isShut || (t.gfc.remain = 0 : Bool))) := by
  cases hsent : s.headersSent with
  | false =>
    rw [idleOnWrite_headers hsent, Option.some.injEq] at h
    subst h
    refine .inl ⟨rfl, ?_, ?_⟩ <;> split_ifs <;> unfold promisePushes <;> split_ifs <;> rfl
  | true =>
    simp only [idleOnWrite, hsent, if_true] at h
    obtain ⟨⟨gfc, out⟩, -, ht⟩ := Option.bind_eq_some_iff.mp h
    obtain rfl := Option.some.inj ht
    exact .inr ⟨rfl, rfl⟩

/-- A generated response is sent on. -/
theorem Idling.onWriteIdle (htext : 0 < text.length) {R fuel : ℕ} {gfc : GenFileCtx}
    (h : x.Idling text body R gfc) (hopen : x.isShutWrite = false) {w : WriteResult}
    (hw : SizesOk fuel w.calls) :
    (x.onWriteIdle text fuel w gfc = .error (.exit 1) ∧ w.fails = true) ∨
      ∃ x' reqs, x.onWriteIdle text fuel w gfc = .ok (x', reqs) ∧ x'.Stage text body ∧
        x'.hset = x.hset := by
  obtain ⟨status, hstatus⟩ := Option.isSome_iff_exists.mp (answered_answered x.hset).respStatus
  obtain ⟨req, hreq⟩ := Option.isSome_iff_exists.mp h.hset
  have hstatus' : x.st.respStatus = some status := h.respStatus.trans hstatus
  have hreq' : x.st.req = some req := h.req.trans hreq
  simp only [Exchange.onWriteIdle, hstatus', hreq']
  by_cases hfails : (x.headersSent && w.fails) = true
  · rw [if_pos hfails]
    exact .inl ⟨rfl, (Bool.and_eq_true_iff.mp hfails).2⟩
  rw [if_neg hfails]
  obtain ⟨t, ht, hresponding⟩ := responding_idleOnWrite (w := ⟨w.sendOk, w.calls⟩) htext h.le hw
    h.responding
  rw [ht]
  refine .inr ⟨_, _, rfl, .idling R t.gfc ?_, rfl⟩
  have hremain := hresponding.position.remain
  have hasked := h.responding.asked_zero
  obtain ⟨hsent, hsame, hshut⟩ | ⟨-, hshut⟩ := idleOnWrite_cases ht
  · have hquiet : t.asked = 0 := hsame.trans (hasked hsent)
    refine ⟨h.headersRead, h.respStatus, h.isShut, h.req, h.hset, h.handler, rfl, h.content, h.le,
      ?_, ?_, ?_, ?_⟩
    · refine ⟨hresponding.produced, hresponding.position, ?_, hresponding.asked_zero⟩
      simpa [idle, withIdle, Function.comp_def] using hresponding.announced
    · intro v hv
      obtain ⟨n, -, rfl⟩ := Option.map_eq_some_iff.mp hv
      exact hstatus
    · intro hshut'
      exact absurd (hshut.symm.trans hshut') (by simp [idle, hopen])
    · intro hpos hzero
      have hnone : min R t.asked = 0 := by rw [hquiet, Nat.min_zero]
      omega
  · have hshut' : t.isShut = (t.gfc.remain = 0 : Bool) := by
      rw [hshut]
      simp [idle, hopen]
    refine ⟨h.headersRead, h.respStatus, h.isShut, h.req, h.hset, h.handler, rfl, h.content, h.le,
      ?_, ?_, ?_, ?_⟩
    · refine ⟨hresponding.produced, hresponding.position, ?_, hresponding.asked_zero⟩
      simpa [idle, withIdle, Function.comp_def] using hresponding.announced
    · intro v hv
      obtain ⟨n, -, rfl⟩ := Option.map_eq_some_iff.mp hv
      exact hstatus
    · intro hshut
      exact of_decide_eq_true (hshut'.symm.trans hshut)
    · intro _ hzero
      exact hshut'.trans (decide_eq_true hzero)

/-- **Writing.** On a stream that wants to write `on_write` leads to the next stage, or ends
    the process: because a write of a generated response has failed, or by the assertion if
    there is nothing to send. -/
theorem Stage.onWrite (htext : 0 < text.length) {fuel : ℕ} (hs : x.Stage text body)
    (hwant : x.st.wantWrite = true) (hopen : x.isShutWrite = false) {w : WriteResult}
    (hw : SizesOk fuel w.calls) (hmay : mayWrite w x = true) :
    (x.onWrite text fuel w = .error .assertion ∧
        (answered x.hset).interopHandler = .verHead ∧
        ∃ req, x.hset = some req ∧ req.qifStr = []) ∨
      (x.onWrite text fuel w = .error (.exit 1) ∧ w.fails = true) ∨
      ∃ x' reqs, x.onWrite text fuel w = .ok (x', reqs) ∧ x'.Stage text body ∧
        x'.hset = x.hset := by
  have hprepared := (answered_answered x.hset).prepared
  cases hs with
  | unread hst =>
    rw [hst] at hwant
    cases hwant
  | md5 taken hst hhandler =>
    rw [hst, hprepared.not_ready (.inl hhandler)] at hwant
    cases hwant
  | verHead req hst hreq hhandler =>
    rw [hst, hprepared.not_ready (.inr hhandler)] at hwant
    cases hwant
  | replying off h =>
    have hbranch : x.onWrite text fuel w = (x.onWriteReply w).map fun x => (x, []) := by
      unfold Exchange.onWrite
      split
      · exact absurd ‹_› h.notIdle
      · exact absurd ‹_› h.notIdle
      · rfl
    rw [hbranch]
    obtain ⟨hempty, herror⟩ | ⟨x', hok, hstage, hset⟩ := h.onWriteReply hmay
    · have hidle : (answered x.hset).interopHandler ≠ .genFile := h.handler ▸ h.notIdle
      exact .inl ⟨by rw [herror]; rfl, verHead_of_content_nil hempty hidle⟩
    · exact .inr (.inr ⟨x', [], by rw [hok]; rfl, hstage, hset⟩)
  | idling R gfc h =>
    have hbranch : x.onWrite text fuel w = x.onWriteIdle text fuel w gfc := by
      simp only [Exchange.onWrite, h.handler, h.interopU]
    rw [hbranch]
    exact .inr (h.onWriteIdle htext hopen hw)

end Exchange

end

end Equic.Interop
