import LlmProxy.ProofKit.Mux
import LlmProxy.Proxy.Request

/-! `NewServer`: the patterns of the mux, the middleware around each handler, and which handler a
request comes to.  A handler is named here, with the context that the middleware has given to its
request; what it does is modelled elsewhere.  The header is that of the response when the handler is
called, or when the middleware answers in its place. -/

namespace LlmProxy.Api

open ProofKit Proxy

/-! ### The client's request -/

/-- The target of a request line: the path as the client spells it, in bytes, and what follows the
first question mark. -/
structure Target where
  path : String
  query : Option String := none
  path_ends : '?' ∉ path.toList
  path_bytes : Url.OfBytes path.toList

def Target.text (t : Target) : String :=
  match t.query with
  | none => t.path
  | some query => t.path ++ "?" ++ query

/-- A request as the server delivers it, with what `io.ReadAll` gives of its body. -/
structure Incoming where
  method : String
  target : Target
  header : Header
  body : Except GoError Bytes
  names_distinct : (header.map (·.1)).Nodup

/-- `URL.Path`, if the path can be read. -/
def Incoming.urlPath? (r : Incoming) : Option String :=
  (Url.unescape r.target.path.toList).map String.ofList

/-- What the middleware found out. -/
structure ProxyContext where
  requestID : String
  apiKey : APIKey

/-- The status and the text of `writeError`. -/
structure Refusal where
  status : Nat
  message : String
  deriving DecidableEq

/-! ### The patterns -/

/-- The handlers that are registered. -/
inductive Endpoint
  | chatCompletions
  | embeddings
  | responses
  | listModels
  | stats
  | statsTimeSeries
  | statsTop
  | nodes
  | nodeByID
  | keys
  | logs
  | logExport
  | logDetail
  | metrics
  | health
  | ui
  | root
  deriving DecidableEq

/-- The middleware around a handler. -/
inductive Guard
  /-- None. -/
  | none
  /-- `openAIMW` and `adminMW`. -/
  | key
  | admin
  deriving DecidableEq

def Endpoint.guard : Endpoint → Guard
  | chatCompletions | embeddings | responses | listModels => .key
  | stats | statsTimeSeries | statsTop | nodes | nodeByID | keys | logs | logExport | logDetail
  | metrics => .admin
  | health | ui | root => .none

/-- The calls of `mux.Handle` and `mux.HandleFunc`, in their order. -/
def registered : List (String × Endpoint) :=
  [("/v1/chat/completions", .chatCompletions), ("/v1/completions", .chatCompletions),
    ("/v1/embeddings", .embeddings), ("/v1/responses", .responses), ("/v1/models", .listModels),
    ("/admin/stats", .stats), ("/admin/stats/timeseries", .statsTimeSeries),
    ("/admin/stats/top", .statsTop), ("/admin/nodes", .nodes), ("/admin/nodes/", .nodeByID),
    ("/admin/keys", .keys), ("/admin/logs", .logs), ("/admin/logs/export", .logExport),
    ("/admin/logs/", .logDetail), ("/metrics", .metrics), ("/health", .health), ("/ui/", .ui),
    ("/", .root)]

def mux : List (MuxPattern × Endpoint) := registered.map fun r => (Mux.parsePattern r.1, r.2)

/-! ### Middleware -/

/-- A request with the values of its context. -/
structure Request extends Incoming where
  requestID : String := ""
  sessionID : String := ""
  proxyCtx : Option ProxyContext := none

/-- What becomes of a request: the server cannot read its path, the mux redirects it or knows no
handler, the middleware answers a preflight or refuses it, or a handler gets it. -/
inductive Reply
  | unread
  | redirected
  | notFound
  | noContent
  | refused (refusal : Refusal)
  | handled (e : Endpoint) (r : Request)

structure Served where
  header : Header
  reply : Reply

/-- A handler, with the header that was set before it. -/
abbrev Handler := Request → Header → Served

abbrev Middleware := Handler → Handler

def Incoming.headerValue (r : Incoming) (name : String) : String := (r.header.get name).headD ""

def writeError (refusal : Refusal) (header : Header) : Served :=
  ⟨header.set "Content-Type" "application/json", .refused refusal⟩

/-- Whether `corsMiddleware` lets the pages of an origin read the response. -/
def allowsOrigin (origins : List String) (origin : String) : Bool :=
  origin ≠ "" && (origins == ["*"] || origins.contains origin)

/-- The header that `corsMiddleware` leaves to the next handler. -/
def corsHeader (origins : List String) (r : Incoming) (header : Header) : Header :=
  let origin := r.headerValue "Origin"
  if allowsOrigin origins origin then
    (((header.set "Access-Control-Allow-Origin" origin).set
      "Access-Control-Allow-Methods" "GET,POST,PUT,DELETE,OPTIONS").set
      "Access-Control-Allow-Headers" "Content-Type,Authorization,X-Session-Id").set
      "Access-Control-Max-Age" "86400"
  else header

def corsMiddleware (origins : List String) : Middleware := fun next r header =>
  let header := corsHeader origins r.toIncoming header
  if r.method = "OPTIONS" then ⟨header, .noContent⟩ else next r header

/-- `traceMiddleware`, with the id that `GenerateID` would give. -/
def traceMiddleware (generated : String) : Middleware := fun next r header =>
  let rid := if r.headerValue "X-Request-Id" = "" then generated else r.headerValue "X-Request-Id"
  next { r with requestID := rid, sessionID := r.headerValue "X-Session-Id" }
    (header.set "X-Request-Id" rid)

/-- The line that it logs is not part of the response. -/
def accessLogMiddleware : Middleware := fun next r header => next r header

def authMiddleware (getAPIKeyByValue : String → Except GoError (Option APIKey)) (now : Int) :
    Middleware := fun next r header =>
  match Auth.extractToken r.header with
  | none => writeError ⟨401, "missing or invalid Authorization header"⟩ header
  | some token =>
    match Auth.authenticate getAPIKeyByValue now token with
    | .error .expired => writeError ⟨401, "api key expired"⟩ header
    | .error .unauthorized => writeError ⟨401, "unauthorized"⟩ header
    | .ok apiKey => next { r with proxyCtx := some { requestID := r.requestID, apiKey } } header

/-- The parameters of a query, as `URL.Query` reads them: a part that cannot be read is left out. -/
def queryParams (query : String) : List (List Char × List Char) :=
  let read (text : List Char) := Url.unescape (text.map fun c => if c = '+' then ' ' else c)
  (query.toList.splitOn '&').filterMap fun part =>
    if part = [] ∨ ';' ∈ part then none
    else do
      let key ← read (part.takeWhile (· ≠ '='))
      let value ← read ((part.dropWhile (· ≠ '=')).drop 1)
      some (key, value)

/-- `Query().Get`. -/
def Incoming.queryValue (r : Incoming) (name : String) : String :=
  match (queryParams (r.target.query.getD "")).find? (·.1 = name.toList) with
  | some (_, value) => String.ofList value
  | none => ""

/-- The token that a request presents to `adminAuthMiddleware`. -/
def Incoming.presentedToken (r : Incoming) : Option String :=
  match Auth.extractToken r.header with
  | some token => some token
  | none => if r.queryValue "token" = "" then none else some (r.queryValue "token")

def adminAuthMiddleware (adminToken : String) : Middleware := fun next r header =>
  if adminToken = "" then
    writeError ⟨403, "admin access disabled: no admin_token configured"⟩ header
  else if r.presentedToken = some adminToken then next r header
  else writeError ⟨401, "unauthorized"⟩ header

/-- The last middleware is the innermost. -/
def chain (h : Handler) (middlewares : List Middleware) : Handler := middlewares.foldr (· ·) h

/-! ### The server -/

/-- What `NewServer` is given, the time, and what `GenerateID` returns. -/
structure Deps where
  adminToken : String
  corsOrigins : List String
  getAPIKeyByValue : String → Except GoError (Option APIKey)
  now : Int
  generated : String

def Deps.openAIMW (deps : Deps) : List Middleware :=
  [corsMiddleware deps.corsOrigins, traceMiddleware deps.generated, accessLogMiddleware,
    authMiddleware deps.getAPIKeyByValue deps.now]

def Deps.adminMW (deps : Deps) : List Middleware :=
  [corsMiddleware deps.corsOrigins, traceMiddleware deps.generated, accessLogMiddleware,
    adminAuthMiddleware deps.adminToken]

def Deps.middlewares (deps : Deps) : Guard → List Middleware
  | .none => []
  | .key => deps.openAIMW
  | .admin => deps.adminMW

/-- What the mux finds for the path of a request. -/
def routed (r : Incoming) : Option (Mux.Routed Endpoint) :=
  (Url.escapedPath r.target.path.toList).map (Mux.route mux (r.method ≠ "CONNECT"))

def serveHTTP (deps : Deps) (r : Incoming) : Served :=
  match routed r with
  | none => ⟨[], .unread⟩
  | some .redirect => ⟨[], .redirected⟩
  | some .notFound => ⟨[], .notFound⟩
  | some (.handler e) =>
    chain (fun r header => ⟨header, .handled e r⟩) (deps.middlewares e.guard) { r with } []

/-! ### Who comes through -/

/-- A request with the context that the middleware gives it. -/
def contextOf (deps : Deps) (r : Incoming) (apiKey : Option APIKey) : Request :=
  let rid :=
    if r.headerValue "X-Request-Id" = "" then deps.generated else r.headerValue "X-Request-Id"
  { r with
    requestID := rid
    sessionID := r.headerValue "X-Session-Id"
    proxyCtx := apiKey.map fun apiKey => { requestID := rid, apiKey } }

/-- Which requests the middleware lets through, and as which requests they come to the handler. -/
inductive Admits (deps : Deps) (r : Incoming) : Guard → Request → Prop
  | none : Admits deps r .none { r with }
  | admin (hmethod : r.method ≠ "OPTIONS") (hset : deps.adminToken ≠ "")
      (htoken : r.presentedToken = some deps.adminToken) :
        Admits deps r .admin (contextOf deps r .none)
  | key {token : String} {apiKey : APIKey} (hmethod : r.method ≠ "OPTIONS")
      (htoken : Auth.extractToken r.header = some token)
      (hfound : deps.getAPIKeyByValue token = .ok (some apiKey)) (henabled : apiKey.enabled = true)
      (hexpired : apiKey.expired deps.now = false) :
        Admits deps r .key (contextOf deps r (some apiKey))

section Middleware

variable {next : Handler} {r : Request} {header : Header} {e : Endpoint} {req : Request}

theorem reply_auth {getAPIKeyByValue : String → Except GoError (Option APIKey)} {now : Int} :
    (authMiddleware getAPIKeyByValue now next r header).reply = .handled e req ↔
      ∃ token apiKey, Auth.extractToken r.header = some token ∧
        Auth.authenticate getAPIKeyByValue now token = .ok apiKey ∧
        (next { r with proxyCtx := some { requestID := r.requestID, apiKey } } header).reply =
          .handled e req := by
  unfold authMiddleware
  split
  · next hnone => simp [hnone, writeError]
  · next token htoken =>
    split
    · next hauth => simp [htoken, hauth, writeError]
    · next hauth => simp [htoken, hauth, writeError]
    · next apiKey hauth => simp [htoken, hauth]

theorem reply_adminAuth {adminToken : String} :
    (adminAuthMiddleware adminToken next r header).reply = .handled e req ↔
      adminToken ≠ "" ∧ r.presentedToken = some adminToken ∧
        (next r header).reply = .handled e req := by
  unfold adminAuthMiddleware
  split
  · next hempty => simp [hempty, writeError]
  · next hset =>
    split
    · next htoken => simp [hset, htoken]
    · next htoken => simp [htoken, writeError]

theorem reply_cors {origins : List String} :
    (corsMiddleware origins next r header).reply = .handled e req ↔
      r.method ≠ "OPTIONS" ∧ (next r (corsHeader origins r.toIncoming header)).reply =
        .handled e req := by
  unfold corsMiddleware
  split
  · next hmethod => simp [hmethod]
  · next hmethod => simp [hmethod]

end Middleware

variable {deps : Deps} {r : Incoming} {e : Endpoint} {req : Request}

theorem reply_chain {e' : Endpoint} (guard : Guard) :
    (chain (fun r header => ⟨header, .handled e r⟩) (deps.middlewares guard) { r with } []).reply =
        .handled e' req ↔ e = e' ∧ Admits deps r guard req := by
  cases guard with
  | none =>
    simp only [Deps.middlewares, chain, List.foldr_nil, Reply.handled.injEq]
    refine and_congr_right fun _ => ⟨?_, ?_⟩
    · rintro rfl
      exact .none
    · rintro ⟨⟩
      rfl
  | admin =>
    simp only [Deps.middlewares, Deps.adminMW, chain, List.foldr_cons, List.foldr_nil, reply_cors,
      traceMiddleware, accessLogMiddleware, reply_adminAuth, Reply.handled.injEq]
    constructor
    · rintro ⟨hmethod, hset, htoken, rfl, rfl⟩
      exact ⟨rfl, .admin hmethod hset htoken⟩
    · rintro ⟨rfl, hadmits⟩
      cases hadmits with
      | admin hmethod hset htoken => exact ⟨hmethod, hset, htoken, rfl, rfl⟩
  | key =>
    simp only [Deps.middlewares, Deps.openAIMW, chain, List.foldr_cons, List.foldr_nil, reply_cors,
      traceMiddleware, accessLogMiddleware, reply_auth, Auth.authenticate_eq_ok,
      Reply.handled.injEq]
    constructor
    · rintro ⟨hmethod, token, apiKey, htoken, ⟨hfound, henabled, hexpired⟩, rfl, rfl⟩
      exact ⟨rfl, .key hmethod htoken hfound henabled hexpired⟩
    · rintro ⟨rfl, hadmits⟩
      cases hadmits with
      | key hmethod htoken hfound henabled hexpired =>
        exact ⟨hmethod, _, _, htoken, ⟨hfound, henabled, hexpired⟩, rfl, rfl⟩

/-- Which requests a handler gets: those that the mux finds it for and the middleware lets
through. -/
theorem handled_iff :
    (serveHTTP deps r).reply = .handled e req ↔
      routed r = some (.handler e) ∧ Admits deps r e.guard req := by
  unfold serveHTTP
  split
  · next h => simp [h]
  · next h => simp [h]
  · next h => simp [h]
  · next found h =>
    rw [reply_chain, h]
    simp only [Option.some.injEq, Mux.Routed.handler.injEq]
    exact and_congr_right fun heq => by rw [heq]

/-- A pattern names the path of a URL, or a subtree that the path is in. -/
def Names (pattern : String) (path : List Char) : Prop :=
  path = pattern.toList ∨ pattern.toList.getLast? = some '/' ∧ pattern.toList <+: path

theorem registered_plain : ∀ route ∈ registered, '%' ∉ route.1.toList := by decide

theorem registered_subtree : ∀ route ∈ registered,
    (Mux.parsePattern route.1).subtree = true → route.1.toList.getLast? = some '/' := by decide

theorem registered_clean : ∀ route ∈ registered,
    Url.escapedPath route.1.toList = some route.1.toList ∧
    ∀ canonical, Mux.route mux canonical route.1.toList = .handler route.2 := by decide

theorem names_of_routed (h : routed r = some (.handler e)) :
    ∃ pattern path, (pattern, e) ∈ registered ∧ r.urlPath? = some (String.ofList path) ∧
      Names pattern path := by
  obtain ⟨escaped, hescaped, hroute⟩ := Option.map_eq_some_iff.mp h
  obtain ⟨found, hfind, rfl⟩ := Mux.find_of_route hroute
  obtain ⟨hmem, hmeets⟩ := Mux.meets_of_find hfind
  obtain ⟨⟨pattern, e⟩, hregistered, rfl⟩ := List.mem_map.mp hmem
  have hread := Url.unescape_escapedPath r.target.path_bytes hescaped
  have hplain := registered_plain _ hregistered
  by_cases hsubtree : (Mux.parsePattern pattern).subtree = true
  · obtain ⟨path, hpath, -⟩ := Option.map_eq_some_iff.mp hescaped
    obtain ⟨rest, v, rfl, -, -⟩ :=
      Mux.read_of_meets_subtree hsubtree hplain hmeets (hread.trans hpath)
    refine ⟨pattern, _, hregistered, by
      rw [Incoming.urlPath?, hpath]; rfl, .inr ⟨?_, List.prefix_append _ _⟩⟩
    exact registered_subtree _ hregistered hsubtree
  · have hexact := Mux.read_of_meets_exact (Bool.not_eq_true _ ▸ hsubtree) hplain hmeets
    exact ⟨pattern, _, hregistered, by rw [Incoming.urlPath?, ← hread, hexact]; rfl, .inl rfl⟩

theorem routed_of_registered (h : (r.target.path, e) ∈ registered) :
    routed r = some (.handler e) := by
  obtain ⟨hescaped, hroute⟩ := registered_clean _ h
  simp only [routed, hescaped, hroute, Option.map_some]

/-- A handler gets the requests that the mux finds it for and the middleware lets through, with the
context of the key that they present.  However the path is spelled, the handler's pattern names it;
and the path that is spelled as a pattern comes to its handler. -/
theorem reached_iff (deps : Deps) (r : Incoming) (e : Endpoint) :
    (∀ req, (serveHTTP deps r).reply = .handled e req ↔
      routed r = some (.handler e) ∧ Admits deps r e.guard req) ∧
    (routed r = some (.handler e) → ∃ pattern path, (pattern, e) ∈ registered ∧
      r.urlPath? = some (String.ofList path) ∧ Names pattern path) ∧
    ((r.target.path, e) ∈ registered → routed r = some (.handler e)) :=
  ⟨fun _ => handled_iff, names_of_routed, routed_of_registered⟩

/-- A request for the page of the keys, with its path in escapes and the token in its query. -/
def escapedRequest : Incoming where
  method := "GET"
  target :=
    { path := "/%61dmin/key%73"
      query := some "page=1&token=s%65cret"
      path_ends := by decide
      path_bytes := by decide }
  header := []
  body := .ok []
  names_distinct := by decide

/-- A server with an administrator's token and no keys. -/
def keylessDeps : Deps where
  adminToken := "secret"
  corsOrigins := []
  getAPIKeyByValue _ := .ok none
  now := 0
  generated := "0"

theorem reached_iff_escaped :
    (serveHTTP keylessDeps escapedRequest).reply =
      .handled .keys (contextOf keylessDeps escapedRequest none) := by
  refine ((reached_iff keylessDeps escapedRequest .keys).1 _).mpr ⟨?_, ?_⟩
  · decide
  · exact .admin (by decide) (by decide) (by decide)

/-! ### What other origins may read -/

/-- A handler that leaves what the header has under a name. -/
def Keeps (name : String) (next : Handler) : Prop :=
  ∀ r header, (next r header).header.get name = header.get name

section Headers

variable {name : String} {next : Handler}

theorem get_writeError (hname : name ≠ "Content-Type") (refusal : Refusal) (header : Header) :
    (writeError refusal header).header.get name = header.get name := by
  simp [writeError, hname]

theorem keeps_auth (hname : name ≠ "Content-Type") (hnext : Keeps name next)
    (getAPIKeyByValue : String → Except GoError (Option APIKey)) (now : Int) :
    Keeps name (authMiddleware getAPIKeyByValue now next) := by
  intro r header
  unfold authMiddleware
  split
  · exact get_writeError hname _ _
  · split
    · exact get_writeError hname _ _
    · exact get_writeError hname _ _
    · exact hnext _ _

theorem keeps_adminAuth (hname : name ≠ "Content-Type") (hnext : Keeps name next)
    (adminToken : String) :
    Keeps name (adminAuthMiddleware adminToken next) := by
  intro r header
  unfold adminAuthMiddleware
  split
  · exact get_writeError hname _ _
  · split
    · exact hnext _ _
    · exact get_writeError hname _ _

theorem keeps_trace (hname : name ≠ "X-Request-Id") (hnext : Keeps name next) (generated : String) :
    Keeps name (traceMiddleware generated next) := by
  intro r header
  simp only [traceMiddleware]
  rw [hnext]
  simp [hname]

theorem get_cors (hnext : Keeps name next) (origins : List String) (r : Request) (header : Header) :
    (corsMiddleware origins next r header).header.get name =
      (corsHeader origins r.toIncoming header).get name := by
  unfold corsMiddleware
  split
  · rfl
  · exact hnext _ _

end Headers

theorem get_chain (e : Endpoint) (hguard : e.guard ≠ .none) :
    (chain (fun r header => ⟨header, .handled e r⟩) (deps.middlewares e.guard) { r with }
      []).header.get
        "Access-Control-Allow-Origin" =
      (corsHeader deps.corsOrigins r []).get "Access-Control-Allow-Origin" := by
  have hlast : Keeps "Access-Control-Allow-Origin" fun r header => ⟨header, .handled e r⟩ :=
    fun _ _ => rfl
  cases hcase : e.guard with
  | none => exact absurd hcase hguard
  | admin => exact get_cors (keeps_trace (by decide) (keeps_adminAuth (by decide) hlast _) _) _ _ _
  | key => exact get_cors (keeps_trace (by decide) (keeps_auth (by decide) hlast _ _) _) _ _ _

theorem allowsOrigin_iff {origins : List String} {origin : String} :
    allowsOrigin origins origin = true ↔ origin ≠ "" ∧ (origins = ["*"] ∨ origin ∈ origins) := by
  simp [allowsOrigin]

theorem mem_get_corsHeader {origins : List String} {origin : String} :
    origin ∈ (corsHeader origins r []).get "Access-Control-Allow-Origin" ↔
      origin = r.headerValue "Origin" ∧ origin ≠ "" ∧ (origins = ["*"] ∨ origin ∈ origins) := by
  by_cases hallowed : allowsOrigin origins (r.headerValue "Origin") = true
  · simp only [corsHeader, hallowed, if_true, Header.get_set]
    rw [allowsOrigin_iff] at hallowed
    constructor
    · intro h
      obtain rfl : origin = r.headerValue "Origin" := by simpa using h
      exact ⟨rfl, hallowed⟩
    · rintro ⟨rfl, -⟩
      simp
  · simp only [corsHeader, hallowed]
    rw [allowsOrigin_iff] at hallowed
    refine iff_of_false List.not_mem_nil ?_
    rintro ⟨rfl, h⟩
    exact hallowed h

/-- The middleware lets the pages of another origin read a response exactly if the origin is allowed
and the response comes from behind it, be it from the handler, a preflight or a refusal.  A handler
is called with this header and may add to it. -/
theorem allowOrigin_iff (deps : Deps) (r : Incoming) (origin : String) :
    origin ∈ (serveHTTP deps r).header.get "Access-Control-Allow-Origin" ↔
      (origin = r.headerValue "Origin" ∧ origin ≠ "" ∧
        (deps.corsOrigins = ["*"] ∨ origin ∈ deps.corsOrigins)) ∧
        ∃ e, routed r = some (.handler e) ∧ e.guard ≠ .none := by
  unfold serveHTTP
  split
  · next h => simp [h, Header.get]
  · next h => simp [h, Header.get]
  · next h => simp [h, Header.get]
  · next e h =>
    simp only [h, Option.some.injEq, Mux.Routed.handler.injEq, exists_eq_left']
    by_cases hguard : e.guard = .none
    · simp [hguard, Deps.middlewares, chain, Header.get]
    · rw [get_chain e hguard, mem_get_corsHeader]
      simp only [hguard, ne_eq, not_false_eq_true, and_true]

end LlmProxy.Api
