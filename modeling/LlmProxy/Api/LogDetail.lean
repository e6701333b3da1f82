import LlmProxy.Api.Surface
import LlmProxy.Storage.Logs

/-! `logDetail`: the way from the path of a request to a row of `detail_logs`.  The handler takes
the trace id from the path, but the mux knows a path of the same subtree that is not an id. -/

namespace LlmProxy.Api

open ProofKit Proxy Storage

/-- `strings.TrimPrefix`. -/
def trimPrefix (text front : List Char) : List Char :=
  if front.isPrefixOf text then text.drop front.length else text

/-- The trace id that a request asks for. -/
def traceIDOf (r : Incoming) : String :=
  String.ofList (trimPrefix (r.urlPath?.getD "").toList "/admin/logs/".toList)

def logDetail (getDetail : String → Except GoError (Option DetailLog)) (r : Incoming) :
    Except Refusal DetailLog :=
  if r.method ≠ "GET" then .error ⟨405, "method not allowed"⟩
  else if traceIDOf r = "" then .error ⟨400, "missing trace id"⟩
  else
    match getDetail (traceIDOf r) with
    | .error err => .error ⟨500, err.text⟩
    | .ok none => .error ⟨404, "detail not found"⟩
    | .ok (some detail) => .ok detail

/-- `GetDetail`, as long as the database answers. -/
def getDetail (t : Details) (traceID : String) : Except GoError (Option DetailLog) :=
  .ok (t.get? traceID)

/-- What `logDetail` answers to a request, if the request comes to it. -/
def detailAnswer (deps : Deps) (t : Details) (r : Incoming) : Option (Except Refusal DetailLog) :=
  match (serveHTTP deps r).reply with
  | .handled .logDetail req => some (logDetail (getDetail t) req.toIncoming)
  | _ => none

variable {deps : Deps} {t : Details} {r : Incoming} {detail : DetailLog}

theorem Admits.incoming {guard : Guard} {req : Request} (h : Admits deps r guard req) :
    req.toIncoming = r := by
  cases h <;> rfl

theorem logDetail_eq_ok : logDetail (getDetail t) r = .ok detail ↔
    r.method = "GET" ∧ traceIDOf r ≠ "" ∧ detail ∈ t ∧ detail.traceID = traceIDOf r := by
  unfold logDetail getDetail
  split
  · next hmethod => simp [hmethod]
  · next hmethod =>
    split
    · next hempty => simp [hempty]
    · next hid =>
      rw [Decidable.not_not] at hmethod
      rw [← Keyed.get?_eq_some]
      cases t.get? (traceIDOf r) <;> simp [hmethod, hid]

theorem detailAnswer_eq_ok : detailAnswer deps t r = some (.ok detail) ↔
    (∃ req, (serveHTTP deps r).reply = .handled .logDetail req) ∧ r.method = "GET" ∧
      traceIDOf r ≠ "" ∧ detail ∈ t ∧ detail.traceID = traceIDOf r := by
  unfold detailAnswer
  split
  · next req hreply =>
    rw [Option.some.injEq, logDetail_eq_ok, (handled_iff.mp hreply).2.incoming]
    simp [hreply]
  · next hother =>
    refine iff_of_false (by simp) ?_
    rintro ⟨⟨req, hreply⟩, -⟩
    exact hother req hreply

/-! ### The id of a request that comes to the handler -/

theorem trimPrefix_append (front v : List Char) : trimPrefix (front ++ v) front = v := by
  simp [trimPrefix]

theorem traceIDOf_eq {v : List Char}
    (h : Url.unescape r.target.path.toList = some ("/admin/logs/".toList ++ v)) :
    traceIDOf r = String.ofList v := by
  rw [traceIDOf, Incoming.urlPath?, h, Option.map_some, Option.getD_some, String.toList_ofList,
    trimPrefix_append]

theorem mux_logDetail : ∀ route ∈ mux, route.2 = .logDetail →
    route.1 = Mux.parsePattern "/admin/logs/" := by
  decide

theorem mux_logExport : (Mux.parsePattern "/admin/logs/export", .logExport) ∈ mux := by decide

theorem traceID_ne_export (h : routed r = some (.handler .logDetail)) : traceIDOf r ≠ "export" := by
  obtain ⟨escaped, hescaped, hroute⟩ := Option.map_eq_some_iff.mp h
  obtain ⟨found, hfind, hlogDetail⟩ := Mux.find_of_route hroute
  obtain ⟨hmem, hmeets⟩ := Mux.meets_of_find hfind
  have hpattern := mux_logDetail found hmem hlogDetail
  rw [hpattern] at hmeets
  obtain ⟨path, hpath, -⟩ := Option.map_eq_some_iff.mp hescaped
  obtain ⟨rest, v, rfl, hrest, hsegments⟩ :=
    Mux.read_of_meets_subtree (by decide) (by decide) hmeets
    ((Url.unescape_escapedPath r.target.path_bytes hescaped).trans hpath)
  intro hexport
  have hv : v = "export".toList := by
    rw [← hexport, traceIDOf_eq hpath, String.toList_ofList]
  -- The path is that of the export, which the mux prefers.
  have hexact : Mux.meets (Mux.parsePattern "/admin/logs/export") (Mux.segmentsOf escaped) =
      true := by
    rw [hsegments, Mux.segmentsOf_of_read hrest (hv ▸ by decide), hv]
    decide
  have hsubtree := Mux.find_exact mux_logExport (by decide) hexact hfind
  rw [hpattern] at hsubtree
  exact absurd hsubtree (by decide)

/-! ### A request for an id -/

/-- The path for a trace id, with every byte of the id in escapes. -/
def detailPath (traceID : String) : String :=
  String.ofList ("/admin/logs/".toList ++ Url.escapeAll traceID.toList)

theorem toList_detailPath (traceID : String) :
    (detailPath traceID).toList = "/admin/logs/".toList ++ Url.escapeAll traceID.toList :=
  String.toList_ofList

/-- What is true of the characters of the subtree and of escapes is true of the whole path. -/
theorem forall_detailPath {traceID : String} (hid : Url.OfBytes traceID.toList) {p : Char → Prop}
    (hfront : ∀ c ∈ "/admin/logs/".toList, p c) (hpercent : p '%')
    (hdigits : ∀ n < 16, p (Url.upperHex n)) : ∀ c ∈ (detailPath traceID).toList, p c := by
  intro c hc
  rw [toList_detailPath] at hc
  rcases List.mem_append.mp hc with hc | hc
  · exact hfront c hc
  · exact Url.forall_escapeAll hid hpercent hdigits c hc

theorem question_notMem {traceID : String} (hid : Url.OfBytes traceID.toList) :
    '?' ∉ (detailPath traceID).toList := by
  have hfront : '?' ∉ "/admin/logs/".toList := by decide
  have hall : ∀ c ∈ (detailPath traceID).toList, c ≠ '?' :=
    forall_detailPath hid (fun c hc heq => hfront (heq ▸ hc)) (by decide) (by decide)
  exact fun hmem => hall _ hmem rfl

theorem ofBytes_detailPath {traceID : String} (hid : Url.OfBytes traceID.toList) :
    Url.OfBytes (detailPath traceID).toList := by
  have hfront : Url.OfBytes "/admin/logs/".toList := by decide
  exact forall_detailPath hid hfront (by decide) (by decide)

/-- The request for the detail of a trace id, with every byte of the id and of the token in
escapes. -/
def detailRequest (traceID token : String) (hid : Url.OfBytes traceID.toList) : Incoming where
  method := "GET"
  target :=
    { path := detailPath traceID
      query := some (String.ofList ("token=".toList ++ Url.escapeAll token.toList))
      path_ends := question_notMem hid
      path_bytes := ofBytes_detailPath hid }
  header := []
  body := .ok []
  names_distinct := List.nodup_nil

variable {traceID token : String} (hid : Url.OfBytes traceID.toList)

theorem queryParams_token (htoken : Url.OfBytes token.toList) :
    queryParams (String.ofList ("token=".toList ++ Url.escapeAll token.toList)) =
      [("token".toList, token.toList)] := by
  have hplain : ∀ c ∈ Url.escapeAll token.toList, c ≠ '&' ∧ c ≠ ';' ∧ c ≠ '+' :=
    Url.forall_escapeAll htoken (by decide) (by decide)
  have hpart : ("token=".toList ++ Url.escapeAll token.toList).splitOn '&' =
      ["token=".toList ++ Url.escapeAll token.toList] := by
    apply List.splitOn_eq_singleton
    rw [List.mem_append, not_or]
    exact ⟨by decide, fun hmem => (hplain _ hmem).1 rfl⟩
  have hsemicolon : ';' ∉ "token=".toList ++ Url.escapeAll token.toList := by
    rw [List.mem_append, not_or]
    exact ⟨by decide, fun hmem => (hplain _ hmem).2.1 rfl⟩
  have hkey : ("token=".toList ++ Url.escapeAll token.toList).takeWhile (· ≠ '=') =
    "token".toList := rfl
  have hvalue : (("token=".toList ++ Url.escapeAll token.toList).dropWhile (· ≠ '=')).drop 1 =
      Url.escapeAll token.toList := rfl
  have hplus : (Url.escapeAll token.toList).map (fun c => if c = '+' then ' ' else c) =
      Url.escapeAll token.toList := by
    rw [List.map_congr_left fun c hc => if_neg (hplain c hc).2.2, List.map_id']
  have hname : Url.unescape ("token".toList.map fun c => if c = '+' then ' ' else c) =
      some "token".toList := by
    decide
  simp only [queryParams, String.toList_ofList, hpart, List.filterMap_cons, List.filterMap_nil,
    hsemicolon, hkey, hvalue, hplus, hname, Url.unescape_escapeAll htoken]
  rfl

theorem presentedToken_detailRequest (htoken : Url.OfBytes token.toList) (hset : token ≠ "") :
    (detailRequest traceID token hid).presentedToken = some token := by
  have hquery : (detailRequest traceID token hid).queryValue "token" = token := by
    simp only [Incoming.queryValue, detailRequest, Option.getD_some, queryParams_token htoken]
    simp
  have hnone : Auth.extractToken (detailRequest traceID token hid).header = none := rfl
  rw [Incoming.presentedToken, hnone, hquery]
  exact if_neg hset

/-- The segments of the path, without their escapes. -/
def detailSegments (traceID : String) : List (List Char) :=
  [[], "admin".toList, "logs".toList, traceID.toList]

theorem mux_depth : ∀ route ∈ mux,
    if route.1.subtree then route.1.segments.length ≤ 3 else route.1.segments.length ≤ 4 := by
  decide

theorem mux_exact : ∀ route ∈ mux, route.1.subtree = false → route.1.segments.length = 4 →
    route.1.segments.take 3 = (detailSegments "").take 3 →
      route.1.segments = detailSegments "export" := by
  decide

theorem mux_subtree : ∀ route ∈ mux, route.1.subtree = true → 3 ≤ route.1.segments.length →
    route.1.segments = (detailSegments "").take 3 →
      route = (Mux.parsePattern "/admin/logs/", .logDetail) := by
  decide

theorem find_detail (hexport : traceID ≠ "export") :
    Mux.find mux (detailSegments traceID) = some (Mux.parsePattern "/admin/logs/", .logDetail) := by
  have hlogs : (Mux.parsePattern "/admin/logs/", Endpoint.logDetail) ∈ mux := by decide
  have hmeets : Mux.meets (Mux.parsePattern "/admin/logs/") (detailSegments traceID) = true := rfl
  obtain ⟨route, hfind⟩ := Option.isSome_iff_exists.mp (Mux.find_isSome hlogs hmeets)
  obtain ⟨hmem, hroute⟩ := Mux.meets_of_find hfind
  rw [hfind, Option.some.injEq]
  cases hsubtree : route.1.subtree with
  | false =>
    simp only [Mux.meets, hsubtree, Bool.false_eq_true, if_false, beq_iff_eq] at hroute
    have hsame := mux_exact route hmem hsubtree (by rw [hroute]; rfl) (by rw [hroute]; rfl)
    rw [hroute] at hsame
    have hid : traceID.toList = "export".toList := by simpa [detailSegments] using hsame
    exact absurd (String.toList_injective hid) hexport
  | true =>
    simp only [Mux.meets, hsubtree, if_true, Bool.and_eq_true, List.isPrefixOf_iff_prefix] at hroute
    have hdeep : 3 ≤ route.1.segments.length :=
      (Mux.find_subtree hlogs (by decide) hmeets hfind).resolve_left (by simp [hsubtree])
    have hdepth : route.1.segments.length ≤ 3 := by simpa [hsubtree] using mux_depth route hmem
    refine mux_subtree route hmem hsubtree hdeep ?_
    rw [List.prefix_iff_eq_take.mp hroute.1, Nat.le_antisymm hdepth hdeep]
    rfl

/-- The subtree is not met exactly, so that no slash is added to the path. -/
theorem find_slashed : (Mux.find mux (detailSegments traceID ++ [[]])).any
    (Mux.exactMatch · (detailSegments traceID ++ [[]])) = false := by
  cases hfind : Mux.find mux (detailSegments traceID ++ [[]]) with
  | none => rfl
  | some route =>
    obtain ⟨hmem, hroute⟩ := Mux.meets_of_find hfind
    have hdepth := mux_depth route hmem
    cases hsubtree : route.1.subtree with
    | false =>
      simp only [Mux.meets, hsubtree, Bool.false_eq_true, if_false, beq_iff_eq] at hroute
      simp [hsubtree, hroute, detailSegments] at hdepth
    | true =>
      have hlong : (detailSegments traceID ++ [[]]).length = 5 := rfl
      simp only [hsubtree, if_true] at hdepth
      simp only [Option.any_some, Mux.exactMatch, hsubtree, hlong, Bool.not_true, Bool.false_or,
        decide_eq_false_iff_not]
      omega

theorem path_detailRequest : (detailRequest traceID token hid).target.path.toList =
    ['/'].intercalate [[], "admin".toList, "logs".toList, Url.escapeAll traceID.toList] := by
  simp [detailRequest, toList_detailPath, List.intercalate_cons_cons]

theorem unescape_detailRequest :
    Url.unescape (detailRequest traceID token hid).target.path.toList =
      some ("/admin/logs/".toList ++ traceID.toList) := by
  rw [detailRequest, toList_detailPath, Url.unescape_append (Url.unescape_eq_self (by decide)),
    Url.unescape_escapeAll hid]
  rfl

theorem slash_notMem_detail (hid : Url.OfBytes traceID.toList) :
    ∀ segment ∈ ["admin".toList, "logs".toList, Url.escapeAll traceID.toList], '/' ∉ segment := by
  intro segment hsegment
  rcases List.mem_cons.mp hsegment with rfl | hsegment
  · decide
  · rcases List.mem_cons.mp hsegment with rfl | hsegment
    · decide
    · rw [List.mem_singleton.mp hsegment]
      exact fun hslash =>
        Url.forall_escapeAll hid (p := (· ≠ '/')) (by decide) (by decide) _ hslash rfl

theorem segmentsOf_detailRequest :
    Mux.segmentsOf (detailRequest traceID token hid).target.path.toList =
      detailSegments traceID := by
  have hplain : ∀ segment ∈ [] :: ["admin".toList, "logs".toList, Url.escapeAll traceID.toList],
      '/' ∉ segment := List.forall_mem_cons.mpr ⟨List.not_mem_nil, slash_notMem_detail hid⟩
  have hread : Url.unescapeSegment (Url.escapeAll traceID.toList) = traceID.toList := by
    simp [Url.unescapeSegment, Url.unescape_escapeAll hid]
  rw [path_detailRequest, Mux.segmentsOf_intercalate (by simp) hplain]
  simp only [List.map_cons, List.map_nil, hread]
  rfl

theorem cleanPath_detailRequest (hne : traceID ≠ "") :
    Mux.cleanPath (detailRequest traceID token hid).target.path.toList =
      (detailRequest traceID token hid).target.path.toList := by
  obtain ⟨c, rest, hcons⟩ := List.exists_cons_of_ne_nil (String.toList_eq_nil_iff.not.mpr hne)
  have hescape : Url.escapeAll traceID.toList = '%' ::
      ((Url.escapeByte c).drop 1 ++ Url.escapeAll rest) := by
    rw [hcons]
    rfl
  rw [path_detailRequest]
  refine Mux.cleanPath_eq_self (by simp) ?_ (slash_notMem_detail hid)
  intro segment hsegment
  rcases List.mem_cons.mp hsegment with rfl | hsegment
  · decide
  · rcases List.mem_cons.mp hsegment with rfl | hsegment
    · decide
    · rw [List.mem_singleton.mp hsegment, hescape]
      simp

theorem routed_detailRequest (hne : traceID ≠ "") (hexport : traceID ≠ "export") :
    routed (detailRequest traceID token hid) = some (.handler .logDetail) := by
  have hvalid : Url.validEncoded (detailRequest traceID token hid).target.path.toList = true :=
    List.all_eq_true.mpr
      (forall_detailPath hid (List.all_eq_true.mp (by decide)) (by decide) (by decide))
  have hsegments : Mux.segmentsOf (detailRequest traceID token hid).target.path.toList =
      detailSegments traceID := segmentsOf_detailRequest hid
  rw [routed, Url.escapedPath, unescape_detailRequest]
  simp only [Option.map_some, hvalid, if_true, Option.some.injEq]
  refine Mux.route_handler (cleanPath_detailRequest hid hne)
    (r := (Mux.parsePattern "/admin/logs/", Endpoint.logDetail)) ?_ ?_
  · rw [hsegments]
    exact find_detail hexport
  · rw [Mux.segmentsOf_append_slash, hsegments]
    exact find_slashed

/-- With an administrator's token, a detail can be looked up by its trace id, in whatever
characters, if the id is neither empty nor that of the export; the detail of a request whose client
has chosen the id `export` cannot. -/
theorem detail_shown_iff (deps : Deps) (hset : deps.adminToken ≠ "")
    (htoken : Url.OfBytes deps.adminToken.toList) {t : Details} {detail : DetailLog}
    (hdetail : detail ∈ t) (hid : Url.OfBytes detail.traceID.toList) :
    (∃ r, detailAnswer deps t r = some (.ok detail)) ↔
      detail.traceID ≠ "" ∧ detail.traceID ≠ "export" := by
  constructor
  · rintro ⟨r, hanswer⟩
    obtain ⟨⟨req, hreply⟩, -, hne, -, hsame⟩ := detailAnswer_eq_ok.mp hanswer
    rw [hsame]
    exact ⟨hne, traceID_ne_export (handled_iff.mp hreply).1⟩
  · rintro ⟨hne, hexport⟩
    have hasked : traceIDOf (detailRequest detail.traceID deps.adminToken hid) =
        detail.traceID := by
      rw [traceIDOf_eq (unescape_detailRequest hid), String.ofList_toList]
    have hadmits : Admits deps (detailRequest detail.traceID deps.adminToken hid) .admin _ :=
      .admin (by simp [detailRequest]) hset (presentedToken_detailRequest hid htoken hset)
    have hreply := handled_iff.mpr ⟨routed_detailRequest hid hne hexport, hadmits⟩
    refine ⟨detailRequest detail.traceID deps.adminToken hid, ?_⟩
    rw [detailAnswer_eq_ok, hasked]
    exact ⟨⟨_, hreply⟩, rfl, hne, hdetail, rfl⟩

/-- A detail whose id would lead elsewhere if it stood in the path as it is. -/
def climbingDetail : DetailLog := { traceID := "../keys?a=%41", timestamp := ⟨0, by decide⟩ }

theorem detail_shown_iff_climbing :
    ∃ r, detailAnswer keylessDeps (Keyed.empty.insertNew climbingDetail) r =
      some (.ok climbingDetail) :=
  (detail_shown_iff keylessDeps (by decide) (by decide) (t := Keyed.empty.insertNew climbingDetail)
    (List.mem_singleton.mpr rfl) (by decide)).mpr (by decide)

end LlmProxy.Api
