import Equic.Interop.Pushes

/-!
# The assertion that there is something to send

`http_server_interop_on_write` asserts that the response has a body. The verify-headers
service sends back the serialized header set, which `new_req` leaves empty for a pushed
stream. `find_handler` does not compare methods, so a push of that service is routed to it
although it is a GET.

`assertion_fails_iff` says which clients can bring the server down in this way: those whose
path promises, directly or through further pushes, to push the service.
-/

namespace Equic.Interop

open Equic.Foundation

/-! ## §1 Promises depend on the path -/

/-- The method is one that the table knows. -/
def IsServed (req : Req) : Prop := req.method = .get ∨ req.method = .post

/-- What a path promises, whoever asks for it. -/
def promisesOf (path : List UInt8) : List (List UInt8) :=
  match findHandler (initMapRegexes reqMaps) .get path with
  | none => []
  | some (map, m) =>
    if map.handler = .genFile ∧ requestedSize path m ≤ sizeLimit then pushPathsFrom path m [3, 4, 5]
    else []

/-- The route of a request that is served. -/
theorem answered_served {req : Req} {path : List UInt8} (hserved : IsServed req)
    (hpath : req.path = some path) {map : ReqMap} {m : ℕ → Option (ℕ × ℕ)}
    (hfind : findHandler (initMapRegexes reqMaps) .get path = some (map, m)) :
    answered (some req) = InteropStream.prepare
      ⟨true, .error, some req, none, .unset, false, false⟩ req path map m := by
  have hfind' : findHandler (initMapRegexes reqMaps) req.method path = some (map, m) := hfind
  have hunset : req.method ≠ .unset := by rcases hserved with h | h <;> simp [h]
  have hunsupported : req.method ≠ .unsupported := by rcases hserved with h | h <;> simp [h]
  simp only [answered, interopOnReadHeaders, hpath, if_neg hunset, if_neg hunsupported, hfind',
    InteropStream.new]

theorem promises_eq {req : Req} {path : List UInt8} (hserved : IsServed req)
    (hpath : req.path = some path) : promises (some req) = promisesOf path := by
  unfold promisesOf
  cases hfind : findHandler (initMapRegexes reqMaps) .get path with
  | none =>
    have hfind' : findHandler (initMapRegexes reqMaps) req.method path = none := hfind
    have hunset : req.method ≠ .unset := by rcases hserved with h | h <;> simp [h]
    have hunsupported : req.method ≠ .unsupported := by rcases hserved with h | h <;> simp [h]
    simp only [promises, answered, interopOnReadHeaders, hpath, if_neg hunset,
      if_neg hunsupported, hfind']
    rfl
  | some found =>
    obtain ⟨map, m⟩ := found
    rw [promises, answered_served hserved hpath hfind]
    obtain ⟨hhandler, hbody⟩ | ⟨hhandler, hbody⟩ | ⟨hhandler, hbody⟩ | ⟨hhandler, hbody⟩ :=
      handler_cases (findHandler_eq_some hfind).1
    · simp [InteropStream.prepare, hhandler, hbody, InteropStream.reply]
    · simp [InteropStream.prepare, hhandler, hbody]
    · simp [InteropStream.prepare, hhandler, hbody]
    · by_cases hlimit : requestedSize path m ≤ sizeLimit
      · simp [InteropStream.prepare, hhandler, hbody, InteropStream.reply, hlimit,
          Nat.not_lt.mpr hlimit]
      · simp [InteropStream.prepare, hhandler, InteropStream.errorResp, InteropStream.reply,
          hlimit, Nat.lt_of_not_le hlimit]

/-- A request that promises something is served. -/
theorem isServed_of_promises {req : Req} (h : promises (some req) ≠ []) : IsServed req := by
  cases hmethod : req.method with
  | get => exact .inl hmethod
  | post => exact .inr hmethod
  | unset =>
    simp only [promises, answered, interopOnReadHeaders, hmethod, if_true] at h
    exact absurd rfl h
  | unsupported =>
    have hunset : ¬ Method.unsupported = .unset := by decide
    simp only [promises, answered, interopOnReadHeaders, hmethod, if_neg hunset] at h
    cases hpath : req.path with
    | none =>
      rw [hpath] at h
      exact absurd rfl h
    | some path =>
      rw [hpath] at h
      exact absurd rfl h

/-- A path promises another one. -/
def PromisesTo (path q : List UInt8) : Prop := q ∈ promisesOf path

/-- The path of the verify-headers service, in any case. -/
def IsVerify (path : List UInt8) : Prop :=
  strcasecmpEq path (cstr "/cgi-bin/verify-headers.cgi") = true

/-- The handler of a route is that of the stream, except that a size can be refused. -/
theorem verHead_prepare_iff {st : InteropStream} {req : Req} {path : List UInt8} {map : ReqMap}
    {m : ℕ → Option (ℕ × ℕ)} (hmap : map ∈ initMapRegexes reqMaps) :
    (st.prepare req path map m).interopHandler = .verHead ↔ map.handler = .verHead := by
  obtain ⟨hhandler, hbody⟩ | ⟨hhandler, hbody⟩ | ⟨hhandler, hbody⟩ | ⟨hhandler, hbody⟩ :=
    handler_cases hmap
  · simp [InteropStream.prepare, hhandler, hbody, InteropStream.reply]
  · simp [InteropStream.prepare, hhandler, hbody]
  · simp [InteropStream.prepare, hhandler, hbody]
  · simp only [InteropStream.prepare, hhandler]
    split <;> simp [InteropStream.errorResp, InteropStream.reply, hbody]

/-- The entry for the service is the one with its path. -/
theorem verHead_entry {map : ReqMap} (h : map ∈ initMapRegexes reqMaps) :
    map.handler = .verHead ↔ map.path = "/cgi-bin/verify-headers.cgi" ∧ map.isRegex = false := by
  have htable : ∀ route ∈ reqMaps, route.handler = .verHead ↔
      route.path = "/cgi-bin/verify-headers.cgi" ∧ route.isRegex = false := by decide +kernel
  obtain ⟨route, hmem, -, hpath, hhandler, hregex⟩ := exists_route h
  rw [hpath, hhandler, hregex]
  exact htable route hmem

/-- The path of the service matches no other entry. -/
theorem verHead_of_matches {map : ReqMap} {path : List UInt8} (hmem : map ∈ initMapRegexes reqMaps)
    (hmatches : map.Matches path) (hpath : IsVerify path) : map.handler = .verHead := by
  have hverify : literalMap .post "/cgi-bin/verify-headers.cgi" .verHead true ∈
      initMapRegexes reqMaps := by
    rw [initMapRegexes_reqMaps]
    simp
  have hmatches' :
      (literalMap .post "/cgi-bin/verify-headers.cgi" .verHead true).Matches path := hpath
  obtain ⟨method, literal, handler, wantBody, hliteral, rfl⟩ | ⟨pattern, pre, k, hpre, -, rfl⟩ :=
    mem_initMapRegexes hmem
  · rw [verHead_entry hmem]
    refine ⟨literalPaths_inj literal hliteral _ (by simp [literalPaths]) ?_, rfl⟩
    rw [← matches_literalMap_iff.mp hmatches]
    exact matches_literalMap_iff.mp hmatches'
  · obtain ⟨f, hf, rfl⟩ := fields_of_matches hmem hmatches
    exact absurd hmatches' (not_matches_literalMap (by simp [literalPaths]) hverify hpre hf)

/-- A request reaches the service exactly by its path. -/
theorem verHead_iff {req : Req} {path : List UInt8} (hserved : IsServed req)
    (hpath : req.path = some path) :
    (answered (some req)).interopHandler = .verHead ↔ IsVerify path := by
  cases hfind : findHandler (initMapRegexes reqMaps) .get path with
  | none =>
    have hfind' : findHandler (initMapRegexes reqMaps) req.method path = none := hfind
    have hunset : req.method ≠ .unset := by rcases hserved with h | h <;> simp [h]
    have hunsupported : req.method ≠ .unsupported := by rcases hserved with h | h <;> simp [h]
    refine iff_of_false ?_ fun hverify => ?_
    · simp only [answered, interopOnReadHeaders, hpath, if_neg hunset, if_neg hunsupported,
        hfind']
      rintro ⟨⟩
    · have hsome : (findHandler (initMapRegexes reqMaps) .get path).isSome := by
        rw [findHandler_isSome_iff]
        refine ⟨literalMap .post "/cgi-bin/verify-headers.cgi" .verHead true, ?_, hverify⟩
        rw [initMapRegexes_reqMaps]
        simp
      rw [hfind] at hsome
      cases hsome
  | some found =>
    obtain ⟨map, m⟩ := found
    obtain ⟨hmem, -, -, -, -, hmatches, -⟩ := findHandler_eq_some hfind
    rw [answered_served hserved hpath hfind, verHead_prepare_iff hmem]
    constructor
    · intro hhandler
      obtain ⟨hentry, hregex⟩ := (verHead_entry hmem).mp hhandler
      rw [ReqMap.Matches, if_neg (by simp [hregex]), hentry] at hmatches
      exact hmatches
    · exact verHead_of_matches hmem hmatches

/-! ## §2 Only such a path fails -/

section

variable {lib : Md5Lib} {text : List UInt8} {fuel : ℕ} {junk : ℕ → UInt8}

theorem isServed_newReq (path authority : List UInt8) : IsServed (newReq path authority) := .inl rfl

/-- What is promised by a request is promised by its path. -/
theorem promisesTo_of_mem {req : Req} {path q : List UInt8} (hpath : req.path = some path)
    (h : q ∈ promises (some req)) : PromisesTo path q := by
  rw [promises_eq (isServed_of_promises (List.ne_nil_of_mem h)) hpath] at h
  exact h

/-- A chain of promises is one of paths. -/
theorem Promised.paths {l l' : Bool × Option Req} (h : Relation.ReflTransGen Promised l l') :
    l' = l ∨ ∃ req path q authority, l.2 = some req ∧ IsServed req ∧ req.path = some path ∧
      Relation.TransGen PromisesTo path q ∧ l'.2 = some (newReq q authority) := by
  induction h with
  | refl => exact .inl rfl
  | tail _ hstep ih =>
    obtain ⟨req', authority', q', hreq', -, hmem, rfl⟩ := hstep
    rw [hreq'] at hmem
    refine .inr ?_
    obtain rfl | ⟨req, path, q, authority, hreq, hserved, hpath, hchain, hq⟩ := ih
    · obtain ⟨req, path, hreq, hpath, -⟩ := promises_pushValues (List.ne_nil_of_mem hmem)
      obtain rfl := Option.some.inj hreq
      exact ⟨_, path, q', authority', hreq', isServed_of_promises (List.ne_nil_of_mem hmem), hpath,
        .single (promisesTo_of_mem hpath hmem), rfl⟩
    · obtain rfl : newReq q authority = req' := Option.some.inj (hq.symm.trans hreq')
      exact ⟨req, path, q', authority', hreq, hserved, hpath,
        hchain.tail (promisesTo_of_mem rfl hmem), rfl⟩

/-- If the assertion fails, the path of a client leads to the service. -/
theorem exists_verify_of_assertion (htext : 0 < text.length) (hfuel : 2 ^ 32 ≤ fuel)
    {ss : List (Stream lib)} (hss : ∀ s ∈ ss, ∃ r, newStream lib junk r = some s)
    {es : List StreamEvent} (hes : ∀ e ∈ es, e.Allowed (fun _ => False) StreamCall.BuffersOk)
    (h : exec (streamStep lib text fuel junk) (.ok ss) es = some (.error .assertion)) :
    ∃ s ∈ ss, ∃ req path q, s.ex.hset = some req ∧ IsServed req ∧ req.path = some path ∧
      Relation.TransGen PromisesTo path q ∧ IsVerify q := by
  have hkeeps := keeps_along junk htext hfuel
    (fun s hs => (hss s hs).elim fun r hr => newStream_keeps hr) hes
  have hdescends : StatesAlong (streamStep lib text fuel junk)
      (Descends Stream.label (fun l => l.1 = false ∧ l ∈ ss.map Stream.label) Promised)
      (.ok ss) es := by
    refine descends_along (fun r s hno => hno.elim)
      (fun s e s' new he hs h => hs.promised htext hfuel he h) hkeeps ?_ hes
    intro s hs
    obtain ⟨r, hr⟩ := hss s hs
    exact ⟨s, hs, ⟨(newStream_isPushed hr).1, List.mem_map_of_mem hs⟩, .refl⟩
  obtain ⟨pre, i, e, ss', s, hpre, he, hexec, hs, hmove⟩ := exec_fault h
  have hmem : s ∈ ss' := List.mem_of_getElem? hs
  have hok : s.Keeps text := statesAlong_iff_exec.mp hkeeps pre _ hpre hexec s hmem
  obtain ⟨c, -, ⟨hclient, hroot⟩, hdesc⟩ :=
    statesAlong_iff_exec.mp hdescends pre _ hpre hexec s hmem
  obtain ⟨hexit, -⟩ | ⟨-, hpushed, hhandler⟩ | ⟨_, _, hok', -⟩ :=
    hok.ok.move htext hfuel (hes _ he) hmove
  · cases hexit
  · obtain hsame | ⟨req, path, q, authority, hreq, hserved, hpath, hchain, hq⟩ :=
      Promised.paths hdesc
    · have hno : s.isPushed = c.label.1 := congrArg Prod.fst hsame
      rw [hpushed, hclient] at hno
      cases hno
    · obtain ⟨s₀, hs₀, hlabel⟩ := List.mem_map.mp hroot
      have hq' : s.ex.hset = some (newReq q authority) := hq
      rw [hq'] at hhandler
      refine ⟨s₀, hs₀, req, path, q, ?_, hserved, hpath, hchain,
        (verHead_iff (isServed_newReq q authority) rfl).mp hhandler⟩
      exact (congrArg Prod.snd hlabel).trans hreq
  · cases hok'

/-! ## §3 Every such path fails -/

/-- A first `on_read`. -/
def firstRead : StreamCall := .onRead ⟨false, [], false, []⟩

/-- An `on_write` in which lsquic takes the headers and creates `n` pushed streams. -/
def firstWrite (n : ℕ) : StreamCall := .onWrite ⟨true, List.replicate n true, false, 0, []⟩

theorem zip_replicate_true {α : Type*} (l : List α) :
    ((l.zip (List.replicate l.length true)).filter Prod.snd).map Prod.fst = l := by
  induction l with
  | nil => rfl
  | cons a l ih => simpa [List.replicate_succ] using ih

/-- A stream that has just begun reads its header set. -/
theorem streamMove_firstRead (text : List UInt8) (fuel : ℕ) {s : Stream lib}
    (hst : s.ex.st = .new)
    (hclosed : s.ex.isClosed = false) : streamMove text fuel s firstRead =
      some (.ok ({ s with ex := s.ex.readHeaders }, [])) := by
  have hshut : s.ex.st.isShut = false := by rw [hst]; rfl
  have hread : s.ex.st.headersRead = false := by rw [hst]; rfl
  simp only [firstRead, streamMove, hclosed, hshut, Exchange.onRead, hread]
  rfl

/-- Sending the headers keeps all promises, if lsquic creates all the streams. -/
theorem onWriteIdle_firstWrite (text : List UInt8) (fuel : ℕ) (gfc : GenFileCtx)
    {x : Exchange lib} {req : Req} {authority : List UInt8} {status : String}
    (hreq : x.st.req = some req) (hauthority : req.authorityStr = some authority)
    (hstatus : x.st.respStatus = some status) (hsent : x.headersSent = false) :
    ∃ x', x.onWriteIdle text fuel
      ⟨true, List.replicate gfc.pushPaths.length true, false, 0, []⟩ gfc =
        .ok (x', gfc.pushPaths.map fun q => newReq q authority) := by
  have hidle : (x.idle gfc).headersSent = false := hsent
  have hsome : (x.idle gfc).authorityStr.isSome = true := by
    simp [Exchange.idle, hreq, hauthority]
  have hpushed : (promisePushes (x.idle gfc)).pushed = gfc.pushPaths := by
    rw [promisePushes, if_pos hsome]
    rfl
  refine ⟨x.withIdle status { promisePushes (x.idle gfc) with
    headersSent := true, contentLength := some (promisePushes (x.idle gfc)).gfc.remain }, ?_⟩
  simp only [Exchange.onWriteIdle, hstatus, hreq, hsent, Bool.false_and, Bool.false_eq_true,
    if_false, idleOnWrite_headers hidle, if_true, hpushed, hauthority, Option.getD_some]
  have hmap : (gfc.pushPaths.zip (List.replicate gfc.pushPaths.length true)).filter Prod.snd =
      gfc.pushPaths.zip (List.replicate gfc.pushPaths.length true) := by
    rw [List.filter_eq_self]
    intro p hp
    exact List.eq_of_mem_replicate (List.of_mem_zip hp).2
  rw [hmap]
  congr 2
  conv_rhs => rw [← zip_replicate_true gfc.pushPaths, hmap, List.map_map]
  rfl

/-- A stream of a generated response keeps all its promises in the first `on_write`. -/
theorem streamMove_firstWrite (lib : Md5Lib) (text : List UInt8) (fuel : ℕ) (body : List UInt8)
    (isPushed : Bool) {req : Req} {authority : List UInt8}
    (hauthority : req.authorityStr = some authority) (hsome : promises (some req) ≠ []) :
    ∃ s', streamMove text fuel
      ⟨(Exchange.start lib (some req) body).readHeaders, body, isPushed⟩
        (firstWrite (promises (some req)).length) =
      some (.ok (s', (promises (some req)).map fun q => .pushed lib (newReq q authority))) := by
  have hanswered := answered_answered (some req)
  have hprepared := hanswered.prepared
  obtain ⟨status, hstatus⟩ := Option.isSome_iff_exists.mp hanswered.respStatus
  -- only the response of a generated file holds promises
  unfold promises at hsome
  split at hsome
  case h_2 => exact absurd rfl hsome
  rename_i gfc hgfc
  have hpromises : promises (some req) = gfc.pushPaths := by rw [promises, hgfc]
  rw [hgfc] at hprepared
  have hready : (answered (some req)).interopHandler = .genFile ∧
      (answered (some req)).wantWrite = true := by
    generalize (answered (some req)).interopHandler = handler at hprepared ⊢
    generalize (answered (some req)).wantWrite = want at hprepared ⊢
    cases hprepared
    exact ⟨rfl, rfl⟩
  have hst : (Exchange.start lib (some req) body).readHeaders.st = answered (some req) := rfl
  obtain ⟨x', hx'⟩ := onWriteIdle_firstWrite text fuel gfc
    (x := (Exchange.start lib (some req) body).readHeaders) hanswered.req hauthority hstatus rfl
  have hmay : (Exchange.start lib (some req) body).readHeaders.mayWrite
      ⟨true, List.replicate gfc.pushPaths.length true, false, 0, []⟩ = true := by
    rw [Exchange.mayWrite, Exchange.resp, hst, hready.1]
  have hopen : (Exchange.start lib (some req) body).readHeaders.isClosed = false ∧
      (Exchange.start lib (some req) body).readHeaders.isShutWrite = false := ⟨rfl, rfl⟩
  refine ⟨⟨x', body, isPushed⟩, ?_⟩
  rw [hpromises]
  simp only [firstWrite, streamMove, hmay, Exchange.onWrite, hst, hready.1, hready.2, hgfc, hx',
    hopen.1, hopen.2, Bool.not_false, Bool.and_true, if_true]
  simp [Except.map, List.map_map, Function.comp_def]

/-- The calls that bring the process down on a stream of the verify-headers service. -/
def fatalCalls : List StreamCall :=
  [firstRead, .onRead ⟨false, [], false, []⟩, .onWrite ⟨true, [], false, 0, []⟩]

/-- A pushed stream that has read its header set. -/
theorem verHead_pushed {q : List UInt8} (authority : List UInt8) (hq : IsVerify q) :
    (answered (some (newReq q authority))).interopHandler = .verHead ∧
      (answered (some (newReq q authority))).interopU = .vhc ⟨[], 0, 0⟩ := by
  have hhandler := (verHead_iff (isServed_newReq q authority) rfl).mpr hq
  have hprepared := (answered_answered (some (newReq q authority))).prepared
  rw [hhandler] at hprepared
  refine ⟨hhandler, ?_⟩
  generalize (answered (some (newReq q authority))).interopU = u at hprepared ⊢
  generalize (answered (some (newReq q authority))).wantWrite = want at hprepared
  cases hprepared with
  | verHead hreq =>
    obtain rfl := Option.some.inj hreq
    rfl

/-- **A pushed stream for the verify-headers service fails the assertion**: it reads its empty
    body, reports, and has nothing to send. -/
theorem exec_fatalCalls {q authority : List UInt8} (hq : IsVerify q) {ss : List (Stream lib)}
    {i : ℕ} {junk : ℕ → UInt8} (hs : ss[i]? = some (.pushed lib (newReq q authority))) :
    exec (streamStep lib text fuel junk) (.ok ss) (fatalCalls.map (.move i)) =
      some (.error .assertion) := by
  have hanswered := answered_answered (some (newReq q authority))
  obtain ⟨hhandler, hu⟩ := verHead_pushed authority hq
  obtain ⟨status, hstatus⟩ := Option.isSome_iff_exists.mp hanswered.respStatus
  -- the header set is read
  let x₁ := (Exchange.start lib (some (newReq q authority)) []).readHeaders
  have hst : x₁.st = answered (some (newReq q authority)) := rfl
  have hshut : x₁.st.isShut = false := by
    rw [hst, hanswered.isShut, hanswered.prepared.not_ready (.inr hhandler)]
  have hfirst : streamMove text fuel (.pushed lib (newReq q authority)) firstRead =
      some (.ok (⟨x₁, [], true⟩, [])) := streamMove_firstRead text fuel rfl rfl
  -- the end of the empty body
  let x₂ : Exchange lib := { x₁ with reqBody := some [], report := some .checkOut }.reply
  have hread : x₁.onRead ⟨false, [], false, []⟩ = some (.ok x₂) := by
    simp only [Exchange.onRead, hst, hanswered.headersRead, if_true, hhandler, hu, hanswered.req,
      Exchange.onReadVerHead]
    rfl
  have hsecond : streamMove text fuel ⟨x₁, [], true⟩ (.onRead ⟨false, [], false, []⟩) =
      some (.ok (⟨x₂, [], true⟩, [])) := by
    simp only [streamMove, hshut, hread]
    rfl
  -- nothing to send
  have hresp : x₂.resp = .ok ⟨[], 0, 0⟩ := by
    have hhandler₂ : x₂.st.interopHandler = .verHead := hhandler
    have hu₂ : x₂.st.interopU = .vhc ⟨[], 0, 0⟩ := hu
    rw [Exchange.resp, hhandler₂, hu₂]
  have hwrite : x₂.onWrite text fuel ⟨true, [], false, 0, []⟩ = .error .assertion := by
    have hhandler₂ : x₂.st.interopHandler = .verHead := hhandler
    simp only [Exchange.onWrite, hhandler₂, Exchange.onWriteReply, hresp]
    rfl
  have hthird : streamMove text fuel ⟨x₂, [], true⟩ (.onWrite ⟨true, [], false, 0, []⟩) =
      some (.error .assertion) := by
    have hmay : x₂.mayWrite ⟨true, [], false, 0, []⟩ = true := by
      rw [Exchange.mayWrite, hresp]
      rfl
    simp only [streamMove, hmay, hwrite]
    rfl
  obtain ⟨hexec₁, hs₁⟩ := exec_move (newStream lib junk) hs hfirst
    [.move i (.onRead ⟨false, [], false, []⟩), .move i (.onWrite ⟨true, [], false, 0, []⟩)]
  obtain ⟨hexec₂, hs₂⟩ := exec_move (newStream lib junk) hs₁ hsecond
    [.move i (.onWrite ⟨true, [], false, 0, []⟩)]
  rw [fatalCalls, List.map_cons, List.map_cons, List.map_singleton, hexec₁, hexec₂, exec_cons,
    poolStep_fault hs₂ hthird]
  rfl

/-- The calls need no buffers. -/
theorem fatalCalls_allowed (i : ℕ) : ∀ e ∈ fatalCalls.map (PoolEvent.move i),
    e.Allowed (fun _ : Request => False) StreamCall.BuffersOk := by
  intro e he
  obtain ⟨c, hc, rfl⟩ := List.mem_map.mp he
  simp only [fatalCalls, List.mem_cons, List.not_mem_nil, or_false] at hc
  rcases hc with rfl | rfl | rfl
  · trivial
  · trivial
  · simp [PoolEvent.Allowed, StreamCall.BuffersOk]

/-- **A promise can be kept**: the two first calls of a stream push what its path promises. -/
theorem exists_pushed {req : Req} {authority body path p : List UInt8} {isPushed : Bool}
    {junk : ℕ → UInt8} (hserved : IsServed req) (hauthority : req.authorityStr = some authority)
    (hpath : req.path = some path) (hp : PromisesTo path p) {ss : List (Stream lib)} {i : ℕ}
    (hs : ss[i]? = some ⟨.start lib (some req) body, body, isPushed⟩) :
    ∃ (es : List StreamEvent) (ss' : List (Stream lib)) (j : ℕ),
      (∀ e ∈ es, PoolEvent.Allowed (fun _ : Request => False) StreamCall.BuffersOk e) ∧
      exec (streamStep lib text fuel junk) (.ok ss) es = some (.ok ss') ∧
        ss'[j]? = some (Stream.pushed lib (newReq p authority)) := by
  have hmem : p ∈ promises (some req) := by
    rw [promises_eq hserved hpath]
    exact hp
  have hfirst := streamMove_firstRead text fuel
    (s := (⟨.start lib (some req) body, body, isPushed⟩ : Stream lib)) rfl rfl
  obtain ⟨s', hwrite⟩ := streamMove_firstWrite lib text fuel body isPushed
    hauthority (List.ne_nil_of_mem hmem)
  obtain ⟨hexec₁, hs₁⟩ := exec_move (newStream lib junk) hs hfirst
    [.move i (firstWrite (promises (some req)).length)]
  obtain ⟨hexec₂, -⟩ := exec_move (newStream lib junk) hs₁ hwrite []
  obtain ⟨j, hj⟩ := List.getElem?_of_mem (List.mem_append_right
    ((ss.set i ⟨(Exchange.start lib (some req) body).readHeaders, body, isPushed⟩ ++ []).set i s')
    (List.mem_map_of_mem (f := fun q => Stream.pushed lib (newReq q authority)) hmem))
  refine ⟨_, _, j, ?_, hexec₁.trans hexec₂, hj⟩
  intro e he
  simp only [List.mem_cons, List.not_mem_nil, or_false] at he
  rcases he with rfl | rfl
  · trivial
  · simp [PoolEvent.Allowed, StreamCall.BuffersOk, firstWrite]

/-- A stream whose path leads to the service can bring the process down. -/
theorem exists_exec_assertion {req : Req} {authority body path q : List UInt8} {isPushed : Bool}
    {junk : ℕ → UInt8} (hserved : IsServed req) (hauthority : req.authorityStr = some authority)
    (hpath : req.path = some path) (hchain : Relation.TransGen PromisesTo path q)
    (hq : IsVerify q) {ss : List (Stream lib)} {i : ℕ}
    (hs : ss[i]? = some ⟨.start lib (some req) body, body, isPushed⟩) :
    ∃ es, (∀ e ∈ es, PoolEvent.Allowed (fun _ : Request => False) StreamCall.BuffersOk e) ∧
      exec (streamStep lib text fuel junk) (.ok ss) es = some (.error .assertion) := by
  -- from the first path on; each promise that is kept puts its stream in the pool
  induction hchain using Relation.TransGen.head_induction_on
    generalizing req body isPushed ss i with
  | single hp =>
    obtain ⟨es, ss', j, hes, hexec, hj⟩ := exists_pushed hserved hauthority hpath hp hs
    refine ⟨es ++ fatalCalls.map (.move j), ?_, ?_⟩
    · exact List.forall_mem_append.mpr ⟨hes, fatalCalls_allowed j⟩
    · rw [exec_append, hexec, Option.bind_some, exec_fatalCalls hq hj]
  | head hp _ ih =>
    obtain ⟨es, ss', j, hes, hexec, hj⟩ := exists_pushed hserved hauthority hpath hp hs
    obtain ⟨fs, hfs, hfail⟩ := ih (isServed_newReq _ authority) rfl rfl hj
    refine ⟨es ++ fs, List.forall_mem_append.mpr ⟨hes, hfs⟩, ?_⟩
    rw [exec_append, hexec, Option.bind_some, hfail]

/-! ## §4 Who can bring the server down -/

/-- The stream of a client with a request. -/
theorem newStream_client {junk : ℕ → UInt8} {r : Request} {s : Stream lib}
    (h : newStream lib junk r = some s) {req : Req} (hreq : s.ex.hset = some req) :
    req.authorityStr.isSome ∧ s = ⟨.start lib (some req) s.body, s.body, false⟩ := by
  unfold newStream at h
  split at h
  · obtain rfl := Option.some.inj h
    cases hreq
  · split at h
    · rename_i hok
      obtain rfl := Option.some.inj h
      obtain rfl := Option.some.inj hreq
      refine ⟨?_, rfl⟩
      rw [(assembled_of_ok hok).pseudo.authority_isSome_iff, ← List.length_pos_iff]
      exact ((exists_assemble_iff junk _).mp ⟨_, hok⟩).2.2
    · cases h

/-- **Who can bring the server down by its assertion.** Clients have opened streams, and no
    further one is opened. Some order of callbacks ends the process by the assertion exactly
    if the path of a request promises, itself or through the paths that it promises, to push
    the verify-headers service. -/
theorem assertion_fails_iff (lib : Md5Lib) (text : List UInt8) (htext : 0 < text.length)
    (fuel : ℕ) (hfuel : 2 ^ 32 ≤ fuel) (junk : ℕ → UInt8) (ss : List (Stream lib))
    (hss : ∀ s ∈ ss, ∃ r, newStream lib junk r = some s) :
    (∃ es : List StreamEvent, (∀ e ∈ es, e.Allowed (fun _ => False) StreamCall.BuffersOk) ∧
        exec (streamStep lib text fuel junk) (.ok ss) es = some (.error .assertion)) ↔
      ∃ s ∈ ss, ∃ req path q, s.ex.hset = some req ∧ IsServed req ∧ req.path = some path ∧
        Relation.TransGen PromisesTo path q ∧ IsVerify q := by
  constructor
  · rintro ⟨es, hes, h⟩
    exact exists_verify_of_assertion htext hfuel hss hes h
  · rintro ⟨s, hs, req, path, q, hreq, hserved, hpath, hchain, hq⟩
    obtain ⟨r, hr⟩ := hss s hs
    obtain ⟨hauthority, hclient⟩ := newStream_client hr hreq
    obtain ⟨authority, hauthority⟩ := Option.isSome_iff_exists.mp hauthority
    obtain ⟨i, hi⟩ := List.getElem?_of_mem hs
    rw [hclient] at hi
    exact exists_exec_assertion hserved hauthority hpath hchain hq hi

end

/-- A client asks for the service to be pushed. -/
def verifyPush : Request :=
  ⟨some [getHeader,
    ⟨pathName, cstr "/1?push=/cgi-bin/verify-headers.cgi", Nat.le_of_ble_eq_true rfl⟩,
    hostHeader], []⟩

theorem assertion_fails_verifyPush :
    ∃ es : List StreamEvent, (∀ e ∈ es, e.Allowed (fun _ => False) StreamCall.BuffersOk) ∧
      exec (streamStep md5OfNothing (cstr "a") (2 ^ 32) fun _ => 0)
        (.ok (newStream md5OfNothing (fun _ => 0) verifyPush).toList) es =
          some (.error .assertion) := by
  refine (assertion_fails_iff md5OfNothing (cstr "a") (by decide) (2 ^ 32) le_rfl (fun _ => 0)
    _ ?_).mpr ?_
  · intro s hs
    exact ⟨verifyPush, Option.mem_toList.mp hs⟩
  · have hrequest : (newStream md5OfNothing (fun _ => 0) verifyPush).map
        (fun s => s.ex.hset.map fun req => (req.method, req.path)) =
          some (some (.get, some (cstr "/1?push=/cgi-bin/verify-headers.cgi"))) := by
      decide +kernel
    obtain ⟨s, hs, hrequest⟩ := Option.map_eq_some_iff.mp hrequest
    obtain ⟨req, hreq, hpath⟩ := Option.map_eq_some_iff.mp hrequest
    obtain ⟨hget, hpath⟩ := Prod.mk.inj hpath
    refine ⟨s, Option.mem_toList.mpr hs, req, _, cstr "/cgi-bin/verify-headers.cgi", hreq,
      .inl hget, hpath, .single ?_, ?_⟩
    · have hpromises : promisesOf (cstr "/1?push=/cgi-bin/verify-headers.cgi") =
          [cstr "/cgi-bin/verify-headers.cgi"] := by decide +kernel
      rw [PromisesTo, hpromises]
      exact List.mem_singleton_self _
    · unfold IsVerify
      decide +kernel

end Equic.Interop
