import Equic.Interop.OnRead

/-!
# Routing by the table

`find_handler` is given the method of the request and its path, and returns the first entry
of `req_maps` whose pattern matches the path. The table lists a method with each entry, but
`find_handler` does not compare it. `RespectsTable` says what the table asks for.

The entries that match a path are all for one method (`method_eq_of_matches`), so the table
is respected exactly if the request has that method. The captures are the push parameters of
the path in any case.
-/

namespace Equic.Interop

open Equic.Foundation

/-! ## §1 What the table asks for -/

/-- The pattern of an entry matches the path: an expression somewhere in it, a literal all of
    it, both without case. -/
def ReqMap.Matches (map : ReqMap) (path : List UInt8) : Prop :=
  if map.isRegex then
    ∃ re, regcomp map.path = some re ∧ ∃ c ∈ starts path, ∃ d, Reads true re c d
  else strcasecmpEq path (cstr map.path) = true

/-- The values of the push parameters of a path for a generated file, from left to right. -/
def PushValues (path : List UInt8) (values : List (List UInt8)) : Prop :=
  ∃ pre k, IsPre pre ∧ k ≤ 3 ∧
    ∃ f : Fields, f.Fits pre k ∧ f.text = path ∧ values = f.pushes.map Prod.snd

/-- Requests for `path` are routed as the table says. -/
structure RespectsTable (method : Method) (path : List UInt8) : Prop where
  found_iff : (findHandler (initMapRegexes reqMaps) method path).isSome ↔
    ∃ map ∈ initMapRegexes reqMaps, map.method = method ∧ map.Matches path
  first : ∀ map m, findHandler (initMapRegexes reqMaps) method path = some (map, m) →
    ∃ before after, initMapRegexes reqMaps = before ++ map :: after ∧
      (map.method = method ∧ map.Matches path) ∧
      ∀ map' ∈ before, ¬ (map'.method = method ∧ map'.Matches path)
  captures : ∀ map m, findHandler (initMapRegexes reqMaps) method path = some (map, m) →
    map.handler = .genFile →
      ∀ values, PushValues path values ↔ values = pushPathsFrom path m [3, 4, 5]
  pushPaths : ∀ req ctx, req.method = method → req.path = some path →
    (interopOnReadHeaders (initMapRegexes reqMaps) (some req) .new).interopU = .gfc ctx →
      ∀ values, PushValues path values ↔ values = ctx.pushPaths

/-! ## §2 The search -/

/-- An entry reports itself. -/
theorem eq_of_hit {map map' : ReqMap} {path : List UInt8} {m : ℕ → Option (ℕ × ℕ)}
    (h : map.hit path = some (map', m)) : map' = map := by
  unfold ReqMap.hit at h
  split at h
  · obtain ⟨m', -, hmap⟩ := Option.map_eq_some_iff.mp h
    exact (Prod.mk.inj hmap).1.symm
  · obtain ⟨-, hmap⟩ := Option.ite_none_right_eq_some.mp h
    exact (Prod.mk.inj (Option.some.inj hmap)).1.symm

theorem re_eq_regcomp {map : ReqMap} (h : map ∈ initMapRegexes reqMaps)
    (hregex : map.isRegex = true) : map.re = regcomp map.path := by
  obtain ⟨route, -, rfl⟩ := List.mem_map.mp h
  by_cases hroute : route.isRegex = true
  · simp only [if_pos hroute]
  · rw [if_neg hroute] at hregex
    exact absurd hregex hroute

/-- An entry is hit exactly by the paths that its pattern matches. -/
theorem hit_isSome_iff {map : ReqMap} (h : map ∈ initMapRegexes reqMaps) (path : List UInt8) :
    (map.hit path).isSome ↔ map.Matches path := by
  obtain ⟨method, literal, handler, wantBody, -, rfl⟩ | ⟨pattern, pre, k, -, -, rfl⟩ :=
    mem_initMapRegexes h
  · by_cases heq : strcasecmpEq path (cstr literal) = true
    · simp [ReqMap.hit, ReqMap.Matches, literalMap, heq]
    · simp [ReqMap.hit, ReqMap.Matches, literalMap, heq]
  · have hre : some (genFileRe pre k) = regcomp pattern := re_eq_regcomp h rfl
    have hhit : (compiledGenFile pattern pre k).hit path =
        ((genFileRe pre k).regexec true path).map fun m => (compiledGenFile pattern pre k, m) :=
      rfl
    have hregex : (compiledGenFile pattern pre k).isRegex = true := rfl
    rw [hhit, Option.isSome_map, regexec_isSome_iff, ReqMap.Matches, if_pos hregex]
    constructor
    · exact fun hread => ⟨_, hre.symm, hread⟩
    · rintro ⟨re, hsome, hread⟩
      obtain rfl : genFileRe pre k = re := Option.some.inj (hre.trans hsome)
      exact hread

/-- The method of the request plays no part in the search. -/
theorem findHandler_isSome_iff (method : Method) (path : List UInt8) :
    (findHandler (initMapRegexes reqMaps) method path).isSome ↔
      ∃ map ∈ initMapRegexes reqMaps, map.Matches path := by
  rw [findHandler, List.findSome?_isSome_iff]
  constructor
  · rintro ⟨map, hmem, hhit⟩
    exact ⟨map, hmem, (hit_isSome_iff hmem path).mp hhit⟩
  · rintro ⟨map, hmem, hmatches⟩
    exact ⟨map, hmem, (hit_isSome_iff hmem path).mpr hmatches⟩

/-- What the search returns is the first entry that matches. -/
theorem findHandler_eq_some {method : Method} {path : List UInt8} {map : ReqMap}
    {m : ℕ → Option (ℕ × ℕ)}
    (h : findHandler (initMapRegexes reqMaps) method path = some (map, m)) :
    map ∈ initMapRegexes reqMaps ∧ map.hit path = some (map, m) ∧ ∃ before after,
      initMapRegexes reqMaps = before ++ map :: after ∧ map.Matches path ∧
        ∀ map' ∈ before, ¬ map'.Matches path := by
  obtain ⟨before, map', after, htable, hhit, hbefore⟩ := List.findSome?_eq_some_iff.mp h
  obtain rfl := eq_of_hit hhit
  have hmem : map ∈ initMapRegexes reqMaps := by
    rw [htable]
    exact List.mem_append_right _ List.mem_cons_self
  refine ⟨hmem, hhit, before, after, htable, (hit_isSome_iff hmem path).mp ?_, fun map' hmap' => ?_⟩
  · rw [hhit]
    rfl
  · have hmem' : map' ∈ initMapRegexes reqMaps := by
      rw [htable]
      exact List.mem_append_left _ hmap'
    rw [← hit_isSome_iff hmem', hbefore map' hmap']
    exact Bool.false_ne_true

/-! ## §3 The methods of the table -/

/-- Compiling an entry changes nothing but its `re`. -/
theorem exists_route {map : ReqMap} (h : map ∈ initMapRegexes reqMaps) :
    ∃ route ∈ reqMaps, map.method = route.method ∧ map.path = route.path ∧
      map.handler = route.handler ∧ map.isRegex = route.isRegex := by
  obtain ⟨route, hmem, rfl⟩ := List.mem_map.mp h
  refine ⟨route, hmem, ?_⟩
  split <;> exact ⟨rfl, rfl, rfl, rfl⟩

/-- No two entries with the same path text differ in their method. -/
theorem method_eq_of_path {map map' : ReqMap} (h : map ∈ initMapRegexes reqMaps)
    (h' : map' ∈ initMapRegexes reqMaps) (hpath : map.path = map'.path) :
    map.method = map'.method := by
  have htable : ∀ route ∈ reqMaps, ∀ route' ∈ reqMaps, route.path = route'.path →
      route.method = route'.method := by decide +kernel
  obtain ⟨route, hmem, hm, hp, -⟩ := exists_route h
  obtain ⟨route', hmem', hm', hp', -⟩ := exists_route h'
  rw [hm, hm']
  exact htable route hmem route' hmem' (hp.symm.trans (hpath.trans hp'))

/-- Generated files are requested by expressions only. -/
theorem isRegex_of_genFile {map : ReqMap} (h : map ∈ initMapRegexes reqMaps)
    (hhandler : map.handler = .genFile) : map.isRegex = true := by
  have htable : ∀ route ∈ reqMaps, route.handler = .genFile → route.isRegex = true := by decide
  obtain ⟨route, hmem, -, -, hh, hregex⟩ := exists_route h
  rw [hregex]
  exact htable route hmem (hh.symm.trans hhandler)

/-- The literals differ in more than case. -/
theorem literalPaths_inj : ∀ p ∈ literalPaths, ∀ q ∈ literalPaths,
    (cstr p).map toLower = (cstr q).map toLower → p = q := by
  decide +kernel

/-- A literal entry matches the paths that are equal to it without case. -/
theorem matches_literalMap_iff {method : Method} {literal : String} {handler : InteropHandler}
    {wantBody : Bool} {path : List UInt8} :
    (literalMap method literal handler wantBody).Matches path ↔
      path.map toLower = (cstr literal).map toLower := by
  rw [ReqMap.Matches, if_neg (by simp [literalMap]), strcasecmpEq, decide_eq_true_iff]
  rfl

/-- A path that an entry for generated files matches has the parts for it. -/
theorem fields_of_matches {pattern : String} {pre : List UInt8} {k : ℕ} {path : List UInt8}
    (h : compiledGenFile pattern pre k ∈ initMapRegexes reqMaps)
    (hmatches : (compiledGenFile pattern pre k).Matches path) :
    ∃ f : Fields, f.Fits pre k ∧ f.text = path := by
  obtain ⟨⟨map, m⟩, hhit⟩ := Option.isSome_iff_exists.mp ((hit_isSome_iff h path).mpr hmatches)
  obtain ⟨m', hm', -⟩ := Option.map_eq_some_iff.mp hhit
  obtain ⟨f, hf, htext, -⟩ := regexec_genFileRe hm'
  exact ⟨f, hf, htext⟩

/-- A path with the parts for generated files matches no literal. -/
theorem not_matches_literalMap {method : Method} {literal : String} {handler : InteropHandler}
    {wantBody : Bool} (hliteral : literal ∈ literalPaths)
    (h : literalMap method literal handler wantBody ∈ initMapRegexes reqMaps)
    {pre : List UInt8} (hpre : IsPre pre) {k : ℕ} {f : Fields} (hf : f.Fits pre k) :
    ¬ (literalMap method literal handler wantBody).Matches f.text := by
  rw [← hit_isSome_iff h, hit_literalMap hpre hf hliteral]
  exact Bool.false_ne_true

/-- **All entries that match a path are for one method.** -/
theorem method_eq_of_matches {map map' : ReqMap} {path : List UInt8}
    (h : map ∈ initMapRegexes reqMaps) (h' : map' ∈ initMapRegexes reqMaps)
    (hmatches : map.Matches path) (hmatches' : map'.Matches path) :
    map.method = map'.method := by
  obtain ⟨method, literal, handler, wantBody, hliteral, rfl⟩ | ⟨pattern, pre, k, hpre, -, rfl⟩ :=
    mem_initMapRegexes h
  · obtain ⟨method', literal', handler', wantBody', hliteral', rfl⟩ |
      ⟨pattern', pre', k', hpre', -, rfl⟩ := mem_initMapRegexes h'
    · apply method_eq_of_path h h'
      apply literalPaths_inj literal hliteral literal' hliteral'
      rw [← matches_literalMap_iff.mp hmatches]
      exact matches_literalMap_iff.mp hmatches'
    · obtain ⟨f, hf, rfl⟩ := fields_of_matches h' hmatches'
      exact absurd hmatches (not_matches_literalMap hliteral h hpre' hf)
  · obtain ⟨method', literal', handler', wantBody', hliteral', rfl⟩ |
      ⟨pattern', pre', k', hpre', -, rfl⟩ := mem_initMapRegexes h'
    · obtain ⟨f, hf, rfl⟩ := fields_of_matches h hmatches
      exact absurd hmatches' (not_matches_literalMap hliteral' h' hpre hf)
    · rfl

/-! ## §4 The captures -/

/-- Only the groups that are looked at matter. -/
theorem pushPathsFrom_congr {path : List UInt8} {m m' : ℕ → Option (ℕ × ℕ)} {is : List ℕ}
    (h : ∀ i ∈ is, m i = m' i) : pushPathsFrom path m is = pushPathsFrom path m' is := by
  induction is with
  | nil => rfl
  | cons i is ih =>
    have htail := ih fun j hj => h j (List.mem_cons_of_mem i hj)
    rw [pushPathsFrom, pushPathsFrom, h i List.mem_cons_self, htail]

/-- The groups from `n` on are the values of the push parameters, and behind them there is no
    group. -/
theorem pushPathsFrom_pushEnd {path : List UInt8} (pushes : List (List UInt8 × List UInt8))
    {n : ℕ} {c : Cursor} (hpath : path = c.before ++ pushText pushes)
    (hnone : ∀ i, n ≤ i → c.sub i = none) (extra : ℕ) :
    pushPathsFrom path (pushEnd n c pushes).sub (List.range' n (pushes.length + extra)) =
      pushes.map Prod.snd := by
  induction pushes generalizing n c with
  | nil =>
    cases extra with
    | zero => rfl
    | succ extra =>
      rw [List.length_nil, Nat.zero_add, List.range'_succ, pushPathsFrom, pushEnd,
        hnone n le_rfl]
      rfl
  | cons push pushes ih =>
    obtain ⟨sep, value⟩ := push
    -- the group of this parameter
    have hsub : (pushEnd n c ((sep, value) :: pushes)).sub n =
        some ((c.before ++ sep).length, (c.before ++ sep ++ value).length) := by
      rw [pushEnd, pushEnd_sub (Nat.lt_succ_self n)]
      exact Cursor.capture_sub_self _ _ _
    have hlen : (c.before ++ sep ++ value).length - (c.before ++ sep).length = value.length := by
      rw [List.length_append, Nat.add_sub_cancel_left]
    have hvalue : (path.drop (c.before ++ sep).length).take
        ((c.before ++ sep ++ value).length - (c.before ++ sep).length) = value := by
      rw [hpath, pushText, hlen, ← List.append_assoc, List.drop_left, List.take_left]
    rw [List.length_cons, Nat.succ_add, List.range'_succ, pushPathsFrom, hsub]
    rw [List.map_cons, ← ih (n := n + 1)]
    · exact congrArg₂ _ hvalue rfl
    · simp only [Cursor.capture, Cursor.advance]
      rw [hpath, pushText, List.append_assoc, List.append_assoc]
    · intro i hi
      rw [Cursor.capture_sub_of_ne (by omega)]
      exact hnone i (by omega)

/-- The captured push paths are the values of the push parameters. -/
theorem pushPathsFrom_matches {pre : List UInt8} {k : ℕ} (hk : k ≤ 3) {f : Fields}
    (hf : f.Fits pre k) : pushPathsFrom f.text f.matches [3, 4, 5] = f.pushes.map Prod.snd := by
  have hlen : f.pushes.length + (3 - k) = 3 := by
    rw [hf.pushes.length_eq, length_pushSeps]
    omega
  have hwhole : ∀ i ∈ [3, 4, 5], f.matches i = (pushEnd 3 f.afterSuffix f.pushes).sub i := by
    intro i hi
    apply Cursor.capture_sub_of_ne
    rintro rfl
    simp at hi
  have hpath : f.text = f.afterSuffix.before ++ pushText f.pushes := by
    simp [Fields.text, Fields.afterSuffix, Fields.afterNumber, Fields.afterPre, Fields.start,
      Cursor.capture, Cursor.advance]
  have hnone : ∀ i, 3 ≤ i → f.afterSuffix.sub i = none := by
    intro i hi
    rw [Fields.afterSuffix, Cursor.capture_sub_of_ne (by omega)]
    exact Cursor.capture_sub_of_ne (by omega) _ _
  have hgroups := pushPathsFrom_pushEnd f.pushes hpath hnone (3 - k)
  rw [hlen] at hgroups
  rw [pushPathsFrom_congr hwhole]
  exact hgroups

/-- A path has one list of push parameters. -/
theorem PushValues.eq {path : List UInt8} {values values' : List (List UInt8)}
    (h : PushValues path values) (h' : PushValues path values') : values = values' := by
  obtain ⟨pre, k, hpre, -, f, hf, rfl, rfl⟩ := h
  obtain ⟨pre', k', hpre', -, g, hg, htext, rfl⟩ := h'
  obtain ⟨-, -, rfl⟩ := hf.eq hpre hpre' hg htext.symm
  rfl

/-- A route for generated files comes with the push parameters of the path. -/
theorem pushValues_iff_of_findHandler {method : Method} {path : List UInt8} {map : ReqMap}
    {m : ℕ → Option (ℕ × ℕ)}
    (h : findHandler (initMapRegexes reqMaps) method path = some (map, m))
    (hhandler : map.handler = .genFile) (values : List (List UInt8)) :
    PushValues path values ↔ values = pushPathsFrom path m [3, 4, 5] := by
  obtain ⟨hmem, hhit, -⟩ := findHandler_eq_some h
  have hcaptured : PushValues path (pushPathsFrom path m [3, 4, 5]) := by
    obtain ⟨method', literal, handler, wantBody, -, rfl⟩ | ⟨pattern, pre, k, hpre, hk, rfl⟩ :=
      mem_initMapRegexes hmem
    · exact absurd (isRegex_of_genFile hmem hhandler) Bool.false_ne_true
    · obtain ⟨m', hm', hpair⟩ := Option.map_eq_some_iff.mp hhit
      obtain rfl : m' = m := (Prod.mk.inj hpair).2
      obtain ⟨f, hf, rfl, rfl⟩ := regexec_genFileRe hm'
      exact ⟨pre, k, hpre, hk, f, hf, rfl, pushPathsFrom_matches hk hf⟩
  constructor
  · exact fun hvalues => hvalues.eq hcaptured
  · rintro rfl
    exact hcaptured

/-- The callback keeps the captures of the route, and only for generated files. -/
theorem gfc_of_prepare {st : InteropStream} {req : Req} {path : List UInt8} {map : ReqMap}
    {m : ℕ → Option (ℕ × ℕ)} {ctx : GenFileCtx} (hst : st.interopU = .unset)
    (h : (st.prepare req path map m).interopU = .gfc ctx) :
    map.handler = .genFile ∧ ctx.pushPaths = pushPathsFrom path m [3, 4, 5] := by
  -- replying leaves the response as it is
  have hreply : ∀ st : InteropStream,
      (if map.wantBody then st else st.reply).interopU = st.interopU := by
    intro st
    split <;> rfl
  cases hhandler : map.handler with
  | genFile =>
    simp only [InteropStream.prepare, hhandler] at h
    split at h
    · cases h
    · rw [hreply] at h
      exact ⟨rfl, congrArg GenFileCtx.pushPaths (InteropU.gfc.inj h).symm⟩
  | error | echo =>
    simp only [InteropStream.prepare, hhandler, hreply, hst] at h
    cases h
  | indexHtml | md5sum | verHead =>
    simp only [InteropStream.prepare, hhandler, hreply] at h
    cases h

/-- A request for generated files has a route. -/
theorem gfc_of_interopOnReadHeaders {req : Req} {path : List UInt8} {ctx : GenFileCtx}
    {maps : List ReqMap} (hpath : req.path = some path)
    (h : (interopOnReadHeaders maps (some req) .new).interopU = .gfc ctx) :
    ∃ map m, findHandler maps req.method path = some (map, m) ∧ map.handler = .genFile ∧
      ctx.pushPaths = pushPathsFrom path m [3, 4, 5] := by
  simp only [interopOnReadHeaders, hpath] at h
  split at h
  · cases h
  · split at h
    · cases h
    · cases hfind : findHandler maps req.method path with
      | none =>
        rw [hfind] at h
        cases h
      | some found =>
        obtain ⟨map, m⟩ := found
        rw [hfind] at h
        exact ⟨map, m, rfl, gfc_of_prepare rfl h⟩

/-! ## §5 When the table is respected -/

/-- **Requests are routed by the table exactly if the method is that of every entry that
    matches the path**, for every method and every path. -/
theorem respectsTable_iff (method : Method) (path : List UInt8) :
    RespectsTable method path ↔
      ∀ map ∈ initMapRegexes reqMaps, map.Matches path → map.method = method := by
  constructor
  · intro h map hmem hmatches
    have hfound := (findHandler_isSome_iff method path).mpr ⟨map, hmem, hmatches⟩
    obtain ⟨map', hmem', hmethod, hmatches'⟩ := h.found_iff.mp hfound
    rw [← hmethod]
    exact method_eq_of_matches hmem hmem' hmatches hmatches'
  · intro h
    refine ⟨?_, ?_, ?_, ?_⟩
    · rw [findHandler_isSome_iff]
      constructor
      · rintro ⟨map, hmem, hmatches⟩
        exact ⟨map, hmem, h map hmem hmatches, hmatches⟩
      · rintro ⟨map, hmem, -, hmatches⟩
        exact ⟨map, hmem, hmatches⟩
    · intro map m hfind
      obtain ⟨hmem, -, before, after, htable, hmatches, hbefore⟩ := findHandler_eq_some hfind
      exact ⟨before, after, htable, ⟨h map hmem hmatches, hmatches⟩,
        fun map' hmap' hboth => hbefore map' hmap' hboth.2⟩
    · intro map m hfind hhandler values
      exact pushValues_iff_of_findHandler hfind hhandler values
    · intro req ctx hmethod hpath hgfc values
      obtain ⟨map, m, hfind, hhandler, hctx⟩ := gfc_of_interopOnReadHeaders hpath hgfc
      rw [hctx]
      exact pushValues_iff_of_findHandler hfind hhandler values

/-- A GET of `/cgi-bin/md5sum.cgi` and a POST to `/` are served, and no entry is for them. -/
theorem wrong_method_served :
    ¬ RespectsTable .get (cstr "/cgi-bin/md5sum.cgi") ∧ ¬ RespectsTable .post (cstr "/") := by
  constructor
  · intro h
    obtain ⟨_, _, -, ⟨hmethod, -⟩, -⟩ :=
      h.first (literalMap .post "/cgi-bin/md5sum.cgi" .md5sum true) _ rfl
    cases hmethod
  · intro h
    obtain ⟨_, _, -, ⟨hmethod, -⟩, -⟩ := h.first (literalMap .get "/" .indexHtml false) _ rfl
    cases hmethod

end Equic.Interop
