import Equic.Interop.Exchange

/-!
# What a stream is answered

`content` says what a stream is to be answered, from its header set and its request body
alone: the service, the size and the error text are those that its first `on_read` selects,
which the other modules judge. `Stage` is the invariant of the callbacks: where the stream is
on the way to that answer. Every callback takes a stream from one stage to the next or ends
the process, and in every stage what has been sent is of that answer (`Stage.delivers`).
-/

namespace Equic.Interop

open Equic.Foundation

/-! ## §1 After the header set -/

/-- The stream after its first `on_read`. -/
def answered (hset : Option Req) : InteropStream :=
  interopOnReadHeaders (initMapRegexes reqMaps) hset .new

/-- The responses that are prepared, and whether they are ready to be sent. -/
inductive Prepared (hset : Option Req) : InteropHandler → InteropU → Bool → Prop
  | error {resp : Resp} : resp.sz = resp.buf.length → resp.buf ≠ [] → resp.off = 0 →
      Prepared hset .error (.err resp) true
  | indexHtml : Prepared hset .indexHtml (.ihc ⟨indexHtml, indexHtml.length, 0⟩) true
  | verHead {req : Req} : hset = some req →
      Prepared hset .verHead (.vhc ⟨req.qifStr, req.qifSz, 0⟩) false
  | md5sum : Prepared hset .md5sum (.md5c false) false
  | genFile {gfc : GenFileCtx} : hset.isSome → gfc.idleOff = 0 → gfc.remain ≤ 2 ^ 31 →
      Prepared hset .genFile (.gfc gfc) true

/-- A service that wants the body is not ready to answer. -/
theorem Prepared.not_ready {hset : Option Req} {handler : InteropHandler} {u : InteropU}
    {ready : Bool} (h : Prepared hset handler u ready)
    (hbody : handler = .md5sum ∨ handler = .verHead) : ready = false := by
  cases h with
  | verHead | md5sum => rfl
  | error | indexHtml | genFile => simp at hbody

/-- The header callback has run on `hset`. -/
structure Answered (hset : Option Req) (st : InteropStream) : Prop where
  headersRead : st.headersRead = true
  req : st.req = hset
  respStatus : st.respStatus.isSome
  prepared : Prepared hset st.interopHandler st.interopU st.wantWrite
  isShut : st.isShut = st.wantWrite

theorem answered_errorResp {hset : Option Req} (st : InteropStream) (hread : st.headersRead = true)
    (hreq : st.req = hset) (code : String) {text : List UInt8} (htext : text ≠ []) :
    Answered hset (st.errorResp code text) := by
  have hsz : (if text.length ≥ 256 then 255 else text.length) = (text.take 255).length := by
    rw [List.length_take]
    split <;> omega
  have hne : text.take 255 ≠ [] := by
    rw [Ne, List.take_eq_nil_iff]
    simp [htext]
  exact ⟨hread, hreq, rfl, .error hsz hne rfl, rfl⟩

/-- The handlers of the table: which of them want a body, and that there are no others. -/
theorem handler_cases {map : ReqMap} (h : map ∈ initMapRegexes reqMaps) :
    (map.handler = .indexHtml ∧ map.wantBody = false) ∨
      (map.handler = .md5sum ∧ map.wantBody = true) ∨
      (map.handler = .verHead ∧ map.wantBody = true) ∨
      (map.handler = .genFile ∧ map.wantBody = false) := by
  have htable : ∀ route ∈ reqMaps, (route.handler = .indexHtml ∧ route.wantBody = false) ∨
      (route.handler = .md5sum ∧ route.wantBody = true) ∨
      (route.handler = .verHead ∧ route.wantBody = true) ∨
      (route.handler = .genFile ∧ route.wantBody = false) := by decide
  obtain ⟨route, hmem, rfl⟩ := List.mem_map.mp h
  have hsame := htable route hmem
  split <;> exact hsame

theorem sizeLimit_eq : sizeLimit = 2 ^ 31 := by decide

/-- A route prepares one of the responses. -/
theorem answered_prepare {req : Req} {path : List UInt8} {map : ReqMap}
    {m : ℕ → Option (ℕ × ℕ)} (hmap : map ∈ initMapRegexes reqMaps) {st : InteropStream}
    (hread : st.headersRead = true) (hreq : st.req = some req) (hshut : st.isShut = false)
    (hwant : st.wantWrite = false) : Answered (some req) (st.prepare req path map m) := by
  obtain ⟨hhandler, hbody⟩ | ⟨hhandler, hbody⟩ | ⟨hhandler, hbody⟩ | ⟨hhandler, hbody⟩ :=
    handler_cases hmap
  · simp only [InteropStream.prepare, hhandler, hbody, Bool.false_eq_true, if_false]
    exact ⟨hread, hreq, rfl, .indexHtml, rfl⟩
  · simp only [InteropStream.prepare, hhandler, hbody, if_true]
    refine ⟨hread, hreq, rfl, ?_, hshut.trans hwant.symm⟩
    dsimp only
    rw [hwant]
    exact .md5sum
  · simp only [InteropStream.prepare, hhandler, hbody, if_true]
    refine ⟨hread, hreq, rfl, ?_, hshut.trans hwant.symm⟩
    dsimp only
    rw [hwant]
    exact .verHead rfl
  · simp only [InteropStream.prepare, hhandler, hbody, Bool.false_eq_true, if_false]
    split
    · exact answered_errorResp _ hread hreq _ (by simp [cstr])
    · rename_i hlimit
      rw [sizeLimit_eq, not_lt] at hlimit
      exact ⟨hread, hreq, rfl, .genFile rfl rfl hlimit, rfl⟩

/-- An error before a route is found. -/
theorem answered_error (hset : Option Req) (code : String) {text : List UInt8} (htext : text ≠ []) :
    Answered hset
      (InteropStream.errorResp ⟨true, .error, hset, none, .unset, false, false⟩ code text) :=
  answered_errorResp ⟨true, .error, hset, none, .unset, false, false⟩ rfl rfl code htext

/-- **The header callback always prepares a response**, for every header set and for none. -/
theorem answered_answered (hset : Option Req) : Answered hset (answered hset) := by
  cases hset with
  | none => exact answered_error none _ (by decide)
  | some req =>
    simp only [answered, interopOnReadHeaders]
    split
    · exact answered_error _ _ (by decide)
    · cases hpath : req.path with
      | none => exact answered_error _ _ (by decide)
      | some path =>
        dsimp only
        split
        · exact answered_error _ _ (by simp [cstr])
        · cases hfind : findHandler (initMapRegexes reqMaps) req.method path with
          | none => exact answered_error _ _ (by simp [cstr])
          | some found =>
            obtain ⟨map, m⟩ := found
            exact answered_prepare (findHandler_eq_some hfind).1 rfl rfl rfl rfl

/-! ## §2 The answer -/

section

variable {lib : Md5Lib} {text body : List UInt8}

/-- What the stream is to be answered, by what its first `on_read` has selected. -/
def content (lib : Md5Lib) (text : List UInt8) (hset : Option Req) (body : List UInt8) :
    List UInt8 :=
  match (answered hset).interopU with
  | .err resp | .ihc resp | .vhc resp => resp.buf
  | .md5c _ => md5Page (lib.hexstr (lib.md5.hash body))
  | .gfc gfc => segment text 0 gfc.remain
  | .unset => []

theorem cstr_eq_nil_iff (s : String) : cstr s = [] ↔ s = "" := by
  rw [cstr, List.map_eq_nil_iff, String.toList_eq_nil_iff]

theorem indexHtml_ne_nil : indexHtml ≠ [] := by
  rw [indexHtml, Ne, cstr_eq_nil_iff]
  simp

theorem md5Page_ne_nil (md5str : List UInt8) : md5Page md5str ≠ [] := by
  simp [md5Page, cstr]

/-- Only a serialization can be empty, and a generated response. -/
theorem verHead_of_content_nil {hset : Option Req} (hnil : content lib text hset body = [])
    (hidle : (answered hset).interopHandler ≠ .genFile) :
    (answered hset).interopHandler = .verHead ∧ ∃ req, hset = some req ∧ req.qifStr = [] := by
  have hprepared := (answered_answered hset).prepared
  unfold content at hnil
  generalize (answered hset).interopHandler = handler at hprepared hidle ⊢
  generalize (answered hset).interopU = u at hprepared hnil
  generalize (answered hset).wantWrite = want at hprepared
  cases hprepared with
  | error _ hne => exact absurd hnil hne
  | indexHtml =>
    dsimp only at hnil
    exact absurd hnil indexHtml_ne_nil
  | @verHead req hset => exact ⟨rfl, req, hset, hnil⟩
  | md5sum => exact absurd hnil (md5Page_ne_nil _)
  | genFile => exact absurd rfl hidle

/-- What lsquic has been given for a stream is of its answer: the headers, if it has taken them,
    are those of the answer and come first; the body is the beginning of the answer; and the
    stream is shut down exactly when the body is complete. -/
structure Delivers (text body : List UInt8) (x : Exchange lib) : Prop where
  announced : ∀ v, x.announced = some v →
    (answered x.hset).respStatus = some v.1 ∧ v.2 = (content lib text x.hset body).length
  ordered : x.headersSent = false → x.announced = none ∧ x.handed = []
  handed : x.handed <+: content lib text x.hset body
  shut : x.isShutWrite = true → x.handed = content lib text x.hset body
  complete : content lib text x.hset body ≠ [] → x.handed = content lib text x.hset body →
    x.isShutWrite = true

namespace Exchange

/-- Nothing has been sent. -/
structure Quiet (x : Exchange lib) : Prop where
  headersSent : x.headersSent = false
  announced : x.announced = none
  asked : x.asked = 0
  handed : x.handed = []
  isShutWrite : x.isShutWrite = false

/-- A prepared response is being sent, the first `off` bytes of it have been. -/
structure Replying (text body : List UInt8) (off : ℕ) (x : Exchange lib) : Prop where
  headersRead : x.st.headersRead = true
  respStatus : x.st.respStatus = (answered x.hset).respStatus
  isShut : x.st.isShut = true
  handler : x.st.interopHandler = (answered x.hset).interopHandler
  notIdle : x.st.interopHandler ≠ .genFile
  notUnset : x.st.interopU ≠ .unset
  resp : x.resp = .ok
    ⟨content lib text x.hset body, (content lib text x.hset body).length, off⟩
  off_le : off ≤ (content lib text x.hset body).length
  handed : x.handed = (content lib text x.hset body).take off
  announced : ∀ v, x.announced = some v →
    (answered x.hset).respStatus = some v.1 ∧ v.2 = (content lib text x.hset body).length
  ordered : x.headersSent = false → x.announced = none ∧ off = 0
  shut : x.isShutWrite = true → off = (content lib text x.hset body).length
  complete : content lib text x.hset body ≠ [] → off = (content lib text x.hset body).length →
    x.isShutWrite = true

/-- A response of `R` bytes is being generated. -/
structure Idling (text body : List UInt8) (R : ℕ) (gfc : GenFileCtx) (x : Exchange lib) : Prop where
  headersRead : x.st.headersRead = true
  respStatus : x.st.respStatus = (answered x.hset).respStatus
  isShut : x.st.isShut = true
  req : x.st.req = x.hset
  hset : x.hset.isSome
  handler : x.st.interopHandler = .genFile
  interopU : x.st.interopU = .gfc gfc
  content : content lib text x.hset body = segment text 0 R
  le : R ≤ 2 ^ 31
  responding : Responding text R (x.idle gfc)
  announced : ∀ v, x.announced = some v → (answered x.hset).respStatus = some v.1
  shut : x.isShutWrite = true → gfc.remain = 0
  complete : 0 < R → gfc.remain = 0 → x.isShutWrite = true

/-- How far a stream is on the way to its answer. -/
inductive Stage (text body : List UInt8) (x : Exchange lib) : Prop
  | unread : x.st = .new → x.unread = body → x.Quiet → Stage text body x
  | md5 (taken : ℕ) : x.st = answered x.hset → (answered x.hset).interopHandler = .md5sum →
      (answered x.hset).interopU = .md5c false →
      x.md5ctx = lib.md5.update lib.md5.init (body.take taken) → x.unread = body.drop taken →
      x.Quiet → Stage text body x
  | verHead (req : Req) : x.st = answered x.hset → x.hset = some req →
      (answered x.hset).interopHandler = .verHead →
      (answered x.hset).interopU = .vhc ⟨req.qifStr, req.qifSz, 0⟩ → x.Quiet →
      Stage text body x
  | replying (off : ℕ) : x.Replying text body off → Stage text body x
  | idling (R : ℕ) (gfc : GenFileCtx) : x.Idling text body R gfc → Stage text body x

end Exchange

/-! ## §3 Every stage delivers -/

namespace Exchange

variable {x : Exchange lib}

theorem Quiet.delivers (h : x.Quiet) : Delivers text body x := by
  refine ⟨fun v hv => ?_, fun _ => ⟨h.announced, h.handed⟩, ?_, fun hshut => ?_, fun hne hall => ?_⟩
  · rw [h.announced] at hv
    cases hv
  · rw [h.handed]
    exact List.nil_prefix
  · rw [h.isShutWrite] at hshut
    cases hshut
  · rw [h.handed] at hall
    exact absurd hall.symm hne

theorem Replying.delivers {off : ℕ} (h : x.Replying text body off) : Delivers text body x := by
  refine ⟨h.announced, fun hsent => ?_, ?_, fun hshut => ?_, fun hne hall => ?_⟩
  · obtain ⟨hnone, rfl⟩ := h.ordered hsent
    exact ⟨hnone, h.handed⟩
  · rw [h.handed]
    exact List.take_prefix _ _
  · rw [h.handed, h.shut hshut, List.take_length]
  · apply h.complete hne
    have hlength := congrArg List.length hall
    rw [h.handed, List.length_take] at hlength
    have hle := h.off_le
    omega

theorem Idling.delivers {R : ℕ} {gfc : GenFileCtx} (h : x.Idling text body R gfc) :
    Delivers text body x := by
  have hproduced : x.handed = segment text 0 (min R x.asked) := h.responding.produced
  have hremain : gfc.remain = R - min R x.asked := h.responding.position.remain
  have hcontent := h.content
  have hlength : (Interop.content lib text x.hset body).length = R := by simp [hcontent]
  refine ⟨fun v hv => ⟨h.announced v hv, ?_⟩, fun hsent => ?_, ?_, fun hshut => ?_,
    fun hne hall => ?_⟩
  · -- the length of the response was announced with the headers
    have hannounced : x.announced.map Prod.snd = if x.headersSent then some R else none :=
      h.responding.announced
    rw [hv, Option.map_some] at hannounced
    obtain ⟨-, hR⟩ := Option.ite_none_right_eq_some.mp hannounced.symm
    rw [hlength, ← Option.some.inj hR]
  · have hasked : x.asked = 0 := h.responding.asked_zero hsent
    have hannounced : x.announced.map Prod.snd = if x.headersSent then some R else none :=
      h.responding.announced
    rw [hsent] at hannounced
    refine ⟨Option.map_eq_none_iff.mp hannounced, ?_⟩
    rw [hproduced, hasked, Nat.min_zero, segment_zero]
  · rw [hproduced, hcontent]
    refine ⟨segment text (min R x.asked) (R - min R x.asked), ?_⟩
    have happend := segment_append text 0 (min R x.asked) (R - min R x.asked)
    rw [Nat.zero_add] at happend
    rw [happend, Nat.add_sub_cancel' (Nat.min_le_left _ _)]
  · have hzero := h.shut hshut
    have hall : min R x.asked = R := by
      have := Nat.min_le_left R x.asked
      omega
    rw [hproduced, hall, hcontent]
  · have hall' := congrArg List.length hall
    rw [hproduced, length_segment, hlength] at hall'
    have hpos : 0 < R := hlength ▸ List.length_pos_iff.mpr hne
    exact h.complete hpos (by omega)

/-- **What has been sent is of the answer in every stage.** -/
theorem Stage.delivers (h : Stage text body x) : Delivers text body x := by
  cases h with
  | unread _ _ hquiet => exact hquiet.delivers
  | md5 _ _ _ _ _ _ hquiet => exact hquiet.delivers
  | verHead _ _ _ _ _ hquiet => exact hquiet.delivers
  | replying _ h => exact h.delivers
  | idling _ _ h => exact h.delivers

end Exchange

end

end Equic.Interop
