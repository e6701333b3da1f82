import LlmProxy.Api.Surface
import LlmProxy.Queue.PriorityQueue

/-! The way of a request line: from the client through `ServeMux` and `OpenAIHandler.forward`, which
takes the request apart for the queue, to `buildHTTPRequest` and `Forward`, which make the upstream
request. -/

namespace LlmProxy.Api

open ProofKit Queue Proxy

/-! ### The handler -/

/-- What `forward` uses beside the request and `json.Unmarshal`: the `int` of the `float64` that a
literal is read as, the configuration, the clock and the allocator. -/
structure ForwardEnv where
  truncate : String → Int
  defaultPriority : Int
  now : Int
  addr : Nat

/-- `reqBody["model"]`, if it is a string. -/
def bodyModel (reqBody : JsonMap) : String :=
  match reqBody.lookup "model" with
  | some (.str s) => s
  | _ => ""

def ForwardEnv.bodyPriority (env : ForwardEnv) (reqBody : JsonMap) : Int :=
  match reqBody.lookup "priority" with
  | some (.num literal) => env.truncate literal
  | _ => env.defaultPriority

/-- `forward` up to `Enqueue`: the queued request, and the part of it that a worker rebuilds. -/
def forward (lib : Libraries) (env : ForwardEnv) (pc : ProxyContext) (et : EndpointType)
    (path : String) (r : Incoming) : Except Refusal (PendingRequest × ClientRequest) :=
  match r.body with
  | .error _ => .error ⟨400, "cannot read request body"⟩
  | .ok body =>
    match lib.unmarshal body with
    | .error _ => .error ⟨400, "invalid JSON body"⟩
    | .ok parsed =>
      let modelAlias := bodyModel (parsed.getD [])
      if modelAlias = "" then .error ⟨400, "missing 'model' field"⟩
      else if !Auth.checkModelAllowed pc.apiKey modelAlias then
        .error ⟨403, "model not allowed for this key"⟩
      else
        .ok
          ({ addr := env.addr
             id := pc.requestID
             priority := env.bodyPriority (parsed.getD [])
             timestamp := env.now
             apiKeyID := pc.apiKey.id
             modelAlias
             endpointType := et },
            { method := r.method
              path
              headers := r.header
              body
              names_distinct := r.names_distinct })

/-- What `chatCompletions`, `embeddings` and `responses` pass to `forward`. -/
def Endpoint.forwardsTo : Endpoint → Option EndpointType
  | chatCompletions => some .chat
  | embeddings => some .embedding
  | responses => some .responses
  | _ => none

/-- These handlers behind the mux; `none` if the request goes to another handler, or to none. -/
def serve (lib : Libraries) (env : ForwardEnv) (pc : ProxyContext) (r : Incoming) :
    Option (Except Refusal (PendingRequest × ClientRequest)) :=
  match routed r with
  | some (.handler e) => do
    let path ← r.urlPath?
    let et ← e.forwardsTo
    some (
      if r.method = "POST" then forward lib env pc et path r
      else .error ⟨405, "method not allowed"⟩)
  | _ => none

/-! ### What is left of the request line -/

/-- What is taken for granted of `net/url`: the URL of a path of letters, digits and slashes has
that path as its request URI. -/
def KeepsPlainPaths (lib : Libraries) : Prop :=
  ∀ path : String, (∃ c rest, path.toList = '/' :: c :: rest ∧ c ≠ '/') →
    (∀ c ∈ path.toList, c.isAlphanum = true ∨ c = '/') → lib.requestURI "POST" path = some path

variable {lib : Libraries} {env : ForwardEnv} {pc : ProxyContext} {r : Incoming}
  {pending : PendingRequest} {c : ClientRequest}

theorem forward_ok {et : EndpointType} {path : String}
    (h : forward lib env pc et path r = .ok (pending, c)) :
    c.method = r.method ∧ c.path = path ∧ c.headers = r.header := by
  unfold forward at h
  split at h
  · cases h
  split at h
  · cases h
  dsimp only at h
  split at h
  · cases h
  split at h
  · cases h
  · obtain ⟨-, rfl⟩ := Prod.mk.inj (Except.ok.inj h)
    exact ⟨rfl, rfl, rfl⟩

/-- A pattern for one path of letters, digits and slashes. -/
structure PlainPath (pattern : String) : Prop where
  exact : pattern.toList.getLast? ≠ some '/'
  begins : ∃ c rest, pattern.toList = '/' :: c :: rest ∧ c ≠ '/'
  chars : ∀ c ∈ pattern.toList, c.isAlphanum = true ∨ c = '/'

theorem forwarding_plain : ∀ route ∈ registered, route.2.forwardsTo.isSome → PlainPath route.1 := by
  have hv1 : ∀ route ∈ registered, route.2.forwardsTo.isSome →
      route.1.toList = '/' :: 'v' :: route.1.toList.drop 2 := by decide
  have hexact : ∀ route ∈ registered, route.2.forwardsTo.isSome →
      route.1.toList.getLast? ≠ some '/' := by decide
  have hplain : ∀ route ∈ registered, route.2.forwardsTo.isSome →
      route.1.toList.all (fun c => c.isAlphanum || c == '/') = true := by decide
  intro route hroute hforwards
  refine ⟨hexact route hroute hforwards, ⟨'v', _, hv1 route hroute hforwards, by decide⟩, ?_⟩
  simpa [List.all_eq_true] using hplain route hroute hforwards

theorem PlainPath.notMem {pattern : String} (h : PlainPath pattern) {c : Char}
    (hc : ¬(c.isAlphanum = true ∨ c = '/')) : c ∉ pattern.toList := fun hmem => hc (h.chars c hmem)

/-- A request that is accepted is queued with the pattern that it met for its path. -/
theorem serve_ok (h : serve lib env pc r = some (.ok (pending, c))) :
    r.method = "POST" ∧ c.method = r.method ∧ c.headers = r.header ∧ PlainPath c.path ∧
      Url.unescape r.target.path.toList = some c.path.toList := by
  unfold serve at h
  split at h
  case h_2 => cases h
  next e hrouted =>
  obtain ⟨path, hpath, h⟩ := Option.bind_eq_some_iff.mp h
  obtain ⟨et, het, h⟩ := Option.bind_eq_some_iff.mp h
  obtain ⟨pattern, text, hregistered, htext, hnames⟩ := names_of_routed hrouted
  have hplain : PlainPath pattern := forwarding_plain _ hregistered (by rw [het]; rfl)
  obtain rfl : text = pattern.toList := hnames.resolve_right fun hsubtree => hplain.exact hsubtree.1
  obtain rfl : path = pattern := by
    rw [htext, String.ofList_toList] at hpath
    exact (Option.some.inj hpath).symm
  have hok := Option.some.inj h
  split at hok
  · next hpost =>
    obtain ⟨hmethod, rfl, hheader⟩ := forward_ok hok
    obtain ⟨chars, hread, hchars⟩ := Option.map_eq_some_iff.mp hpath
    refine ⟨hpost, hmethod, hheader, hplain, ?_⟩
    rw [hread, ← hchars, String.toList_ofList]
  · cases hok

/-- The upstream request is the client's, but for the host, the content type and the credentials. -/
structure FollowsClient (node : UpstreamNode) (r : Incoming) (sent : UpstreamRequest) : Prop where
  method : sent.method = r.method
  url : sent.url = node.baseURL ++ r.target.text
  header : ∀ key, sent.header.get key =
    if key = "Authorization" then ["Bearer " ++ node.apiKey]
    else if key = "Content-Type" then ["application/json"] else r.header.get key

/-- The target is the path that it stands for exactly when it has no query and no escapes. -/
theorem text_eq_iff {t : Target} {path : String}
    (hread : Url.unescape t.path.toList = some path.toList) (hescape : '%' ∉ path.toList)
    (hquery : '?' ∉ path.toList) :
    t.text = path ↔ t.query = none ∧ '%' ∉ t.path.toList := by
  unfold Target.text
  constructor
  · intro htext
    split at htext
    · next hnone => exact ⟨hnone, htext ▸ hescape⟩
    · next query hsome =>
      refine absurd ?_ hquery
      simp [← htext]
  · rintro ⟨hnone, hclean⟩
    rw [Url.unescape_eq_self hclean, Option.some.injEq, String.toList_inj] at hread
    simpa only [hnone] using hread

/-- A request reaches a node with a key as the client sent it exactly when its target has no query
and no escapes. -/
theorem upstream_follows_client_iff {node : UpstreamNode} {sent : UpstreamRequest} {isStream : Bool}
    (hlib : KeepsPlainPaths lib) (hkey : node.apiKey ≠ "")
    (haccepted : serve lib env pc r = some (.ok (pending, c)))
    (hsent : forwardRequest lib node c = .sent sent isStream) :
    FollowsClient node r sent ↔ r.target.query = none ∧ '%' ∉ r.target.path.toList := by
  obtain ⟨hpost, hmethod, hheader, hplain, hread⟩ := serve_ok haccepted
  obtain ⟨uri, -, -, host, huri, -, -, -, -, hrequest⟩ := forwardRequest_sent hsent
  obtain rfl : c.path = uri := by
    rw [hmethod, hpost, hlib c.path hplain.begins hplain.chars] at huri
    exact Option.some.inj huri
  rw [← text_eq_iff hread (hplain.notMem (by decide)) (hplain.notMem (by decide)), hrequest]
  constructor
  · intro h
    exact ((String.append_right_inj node.baseURL).mp h.url).symm
  · intro htext
    refine ⟨?_, by rw [htext], fun key => ?_⟩
    · simp [hmethod, hpost]
    · show (upstreamHeader node c.headers).get key = _
      rw [get_upstreamHeader, hheader]
      simp [hkey]

/-- Libraries that take every body for one with a model. -/
def modelLibraries : Libraries :=
  { plainLibraries with unmarshal := fun _ => .ok (some [("model", .str "gpt")]) }

def chatRequest (query : Option String) : Incoming where
  method := "POST"
  target := ⟨"/v1/chat/completions", query, by decide, by decide⟩
  header := [("Accept", ["text/event-stream", "application/json"])]
  body := .ok [1]
  names_distinct := List.nodup_singleton _

/-- A node with a key. -/
def keyedNode : UpstreamNode := { id := "n", baseURL := "http://node", apiKey := "secret" }

def quietEnv : ForwardEnv := { truncate := fun _ => 0, defaultPriority := 0, now := 0, addr := 1 }

def gptContext : ProxyContext := { requestID := "r", apiKey := { id := "k", key := "sk" } }

/-- A request without a query. -/
theorem upstream_follows_client_iff_plain :
    ∃ pending c sent isStream,
      serve modelLibraries quietEnv gptContext (chatRequest none) = some (.ok (pending, c)) ∧
      forwardRequest modelLibraries keyedNode c = .sent sent isStream ∧
      FollowsClient keyedNode (chatRequest none) sent := by
  have hlib : KeepsPlainPaths modelLibraries := fun path _ _ => rfl
  have hserve : serve modelLibraries quietEnv gptContext (chatRequest none) = some (.ok _) := rfl
  refine ⟨_, _, _, _, hserve, rfl, ?_⟩
  exact (upstream_follows_client_iff hlib (by decide) hserve rfl).mpr ⟨rfl, by decide⟩

/-- The query of a request is lost on its way through the queue. -/
theorem query_dropped :
    ∃ pending c sent isStream,
      serve modelLibraries quietEnv gptContext (chatRequest (some "api-version=2")) =
        some (.ok (pending, c)) ∧
      forwardRequest modelLibraries keyedNode c = .sent sent isStream ∧
      sent.url = "http://node/v1/chat/completions" ∧
      (chatRequest (some "api-version=2")).target.text = "/v1/chat/completions?api-version=2" ∧
      ¬ FollowsClient keyedNode (chatRequest (some "api-version=2")) sent := by
  refine ⟨_, _, _, _, rfl, rfl, rfl, rfl, fun h => ?_⟩
  exact absurd h.url (by decide)

end LlmProxy.Api
