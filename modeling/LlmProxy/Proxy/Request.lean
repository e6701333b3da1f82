import LlmProxy.Auth
import LlmProxy.Effects
import LlmProxy.ProofKit.Json

/-! The request that goes upstream: `buildHTTPRequest` of package `worker`, and `Forward` of package
`proxy` up to `client.Do`. -/

namespace LlmProxy.Proxy

open ProofKit

/-! ### Bodies -/

/-- A `map[string]any`: its keys with their values, in some order. -/
abbrev JsonMap := List (String × Json)

namespace JsonMap

/-- `m[key] = v`. -/
def assign (m : JsonMap) (key : String) (v : Json) : JsonMap :=
  if m.any (·.1 = key) then m.map fun entry => if entry.1 = key then (key, v) else entry
  else m ++ [(key, v)]

end JsonMap

mutual

/-- What `DeepMerge` leaves under a key that held `held`. -/
def mergeValue (held : Option Json) : Json → Json
  | .obj src =>
    match held with
    | some (.obj dst) => .obj (deepMerge dst src)
    | _ => .obj src
  | .null => .null
  | .bool b => .bool b
  | .num literal => .num literal
  | .str s => .str s
  | .arr items => .arr items

/-- `DeepMerge`, where the keys of `src` come in the order of the list. -/
def deepMerge (dst : JsonMap) : JsonMap → JsonMap
  | [] => dst
  | entry :: rest => deepMerge (mergeEntry dst entry) rest

def mergeEntry (dst : JsonMap) : String × Json → JsonMap
  | (key, v) => dst.assign key (mergeValue (dst.lookup key) v)

end

/-! ### The request -/

/-- What `Forward` reads of a node. -/
structure UpstreamNode extends ModelNode where
  baseURL : String
  apiKey : String := ""
  modelName : String := ""
  override : JsonMap := []

/-- What `buildHTTPRequest` reads of a queued request.  The header has each name once, in its
canonical form, as `net/http` delivers it. -/
structure ClientRequest where
  method : String
  path : String
  headers : Header
  body : Bytes
  names_distinct : (headers.map (·.1)).Nodup

structure UpstreamRequest where
  method : String
  url : String
  host : String
  header : Header
  body : Bytes

/-- What the two functions use of the standard library. -/
structure Libraries where
  /-- `json.Unmarshal` into a `map[string]any`, which is nil after a `null`. -/
  unmarshal : Bytes → Except GoError (Option JsonMap)
  marshal : Option JsonMap → Except GoError Bytes
  /-- `RequestURI` of the URL that `http.NewRequest` makes of a method and a path, if it does. -/
  requestURI : String → String → Option String
  /-- The host of the URL that `http.NewRequest` makes of a method and a URL. -/
  newRequest : String → String → Except GoError String

inductive Built
  | panicked
  | failed (e : GoError)
  | sent (request : UpstreamRequest) (isStream : Bool)

/-- The body after the model and the overrides have been put in; an assignment to a nil map
panics. -/
def editBody (node : UpstreamNode) : Option JsonMap → Option (Option JsonMap)
  | none => if node.modelName = "" ∧ node.override = [] then some none else none
  | some m =>
    let m := if node.modelName = "" then m else m.assign "model" (.str node.modelName)
    some (some (if node.override = [] then m else deepMerge m node.override))

def isStreamBody (m : Option JsonMap) : Bool :=
  match (m.getD []).lookup "stream" with
  | some (.bool b) => b
  | _ => false

def upstreamHeader (node : UpstreamNode) (headers : Header) : Header :=
  let h := (Header.addAll [] headers).set "Content-Type" "application/json"
  if node.apiKey = "" then h else h.set "Authorization" ("Bearer " ++ node.apiKey)

/-- `buildHTTPRequest`, whose caller does not notice that there is no request, and `Forward` up to
`client.Do`. -/
def forwardRequest (lib : Libraries) (node : UpstreamNode) (c : ClientRequest) : Built :=
  match lib.requestURI c.method c.path with
  | none => .panicked
  | some uri =>
    match if c.body = [] then .ok (some []) else lib.unmarshal c.body with
    | .error e => .failed (e.wrap "proxy: parse request body: ")
    | .ok parsed =>
      match editBody node parsed with
      | none => .panicked
      | some m =>
        match lib.marshal m with
        | .error e => .failed (e.wrap "proxy: marshal modified body: ")
        | .ok body =>
          match lib.newRequest c.method (node.baseURL ++ uri) with
          | .error e => .failed (e.wrap "proxy: build upstream request: ")
          | .ok host =>
            .sent
              { method := if c.method = "" then "GET" else c.method
                url := node.baseURL ++ uri
                host
                header := upstreamHeader node c.headers
                body }
              (isStreamBody m)

/-- What a request that is sent went through. -/
theorem forwardRequest_sent {lib : Libraries} {node : UpstreamNode} {c : ClientRequest}
    {r : UpstreamRequest} {isStream : Bool} (h : forwardRequest lib node c = .sent r isStream) :
    ∃ uri parsed m host, lib.requestURI c.method c.path = some uri ∧
      (if c.body = [] then .ok (some []) else lib.unmarshal c.body) = .ok parsed ∧
      editBody node parsed = some m ∧ lib.marshal m = .ok r.body ∧
      lib.newRequest c.method (node.baseURL ++ uri) = .ok host ∧
      r = { method := if c.method = "" then "GET" else c.method
            url := node.baseURL ++ uri
            host
            header := upstreamHeader node c.headers
            body := r.body } := by
  unfold forwardRequest at h
  split at h
  · cases h
  · next uri huri =>
    split at h
    · cases h
    · next parsed hparsed =>
      split at h
      · cases h
      · next m hm =>
        split at h
        · cases h
        · next body hbody =>
          split at h
          · cases h
          · next host hhost =>
            obtain ⟨rfl, rfl⟩ := Built.sent.inj h
            exact ⟨uri, parsed, m, host, huri, hparsed, hm, hbody, hhost, rfl⟩

/-! ### What the upstream learns of the client's header -/

/-- The same header, as a map. -/
def SameHeader (h h' : Header) : Prop := ∀ key, h.get key = h'.get key

/-- The same request, up to the order in which the map of its header is listed. -/
def Built.Same : Built → Built → Prop
  | .panicked, .panicked => True
  | .failed e, .failed e' => e = e'
  | .sent r isStream, .sent r' isStream' =>
    { r with header := [] } = { r' with header := [] } ∧ SameHeader r.header r'.header ∧
      isStream = isStream'
  | _, _ => False

def Built.isSent : Built → Bool
  | .sent .. => true
  | _ => false

/-- What it takes to send a request upstream: the path is one of a URL, the body is empty or JSON,
there is a map to put the model and the overrides in, and the outcome can be written and sent to the
node. -/
def Sendable (lib : Libraries) (node : UpstreamNode) (c : ClientRequest) : Prop :=
  ∃ uri parsed m body host, lib.requestURI c.method c.path = some uri ∧
    (if c.body = [] then .ok (some []) else lib.unmarshal c.body) = .ok parsed ∧
    editBody node parsed = some m ∧ lib.marshal m = .ok body ∧
    lib.newRequest c.method (node.baseURL ++ uri) = .ok host

/-- Two requests that differ at most in the values of this header. -/
structure ClientRequest.SameBut (key : String) (c c' : ClientRequest) : Prop where
  method : c.method = c'.method
  path : c.path = c'.path
  body : c.body = c'.body
  headers : ∀ k, k ≠ key → c.headers.get k = c'.headers.get k

variable {lib : Libraries} {node : UpstreamNode} {c c' : ClientRequest}

theorem isSent_iff : (forwardRequest lib node c).isSent = true ↔ Sendable lib node c := by
  constructor
  · intro hsent
    cases hbuilt : forwardRequest lib node c with
    | sent r isStream =>
      obtain ⟨uri, parsed, m, host, huri, hparsed, hedit, hbody, hhost, -⟩ :=
        forwardRequest_sent hbuilt
      exact ⟨uri, parsed, m, r.body, host, huri, hparsed, hedit, hbody, hhost⟩
    | panicked | failed =>
      rw [hbuilt] at hsent
      cases hsent
  · rintro ⟨uri, parsed, m, body, host, huri, hparsed, hedit, hbody, hhost⟩
    simp [forwardRequest, huri, hparsed, hedit, hbody, hhost, Built.isSent]

/-- The client's header has no say in anything but the header of the request. -/
theorem forwardRequest_same_iff (h : c.SameBut "Authorization" c') :
    (forwardRequest lib node c).Same (forwardRequest lib node c') ↔
      (forwardRequest lib node c).isSent = false ∨
        SameHeader (upstreamHeader node c.headers) (upstreamHeader node c'.headers) := by
  unfold forwardRequest
  rw [← h.method, ← h.path, ← h.body]
  cases lib.requestURI c.method c.path with
  | none => simp [Built.Same, Built.isSent]
  | some uri =>
    dsimp only
    cases (if c.body = [] then .ok (some []) else lib.unmarshal c.body : Except GoError _) with
    | error e => simp [Built.Same, Built.isSent]
    | ok parsed =>
      dsimp only
      cases editBody node parsed with
      | none => simp [Built.Same, Built.isSent]
      | some m =>
        dsimp only
        cases lib.marshal m with
        | error e => simp [Built.Same, Built.isSent]
        | ok body =>
          dsimp only
          cases lib.newRequest c.method (node.baseURL ++ uri) with
          | error e => simp [Built.Same, Built.isSent]
          | ok host => simp [Built.Same, Built.isSent]

theorem get_upstreamHeader (node : UpstreamNode) (c : ClientRequest) (key : String) :
    (upstreamHeader node c.headers).get key =
      if key = "Authorization" ∧ node.apiKey ≠ "" then ["Bearer " ++ node.apiKey]
      else if key = "Content-Type" then ["application/json"] else c.headers.get key := by
  have hcopied : (Header.addAll [] c.headers).get key = c.headers.get key :=
    Header.get_addAll [] c.headers c.names_distinct key
  unfold upstreamHeader
  by_cases hkey : node.apiKey = ""
  · simp [hkey, hcopied]
  · by_cases hauth : key = "Authorization" <;> simp [hkey, hauth, hcopied]

/-- Requests that differ only in their credentials lead to the same upstream request exactly when
the node has a key of its own, or the credentials are the same, or the request is none that can be
sent. -/
theorem credential_hidden_iff (lib : Libraries) (node : UpstreamNode)
    (h : c.SameBut "Authorization" c') :
    (forwardRequest lib node c).Same (forwardRequest lib node c') ↔
      node.apiKey ≠ "" ∨ c.headers.get "Authorization" = c'.headers.get "Authorization" ∨
        ¬Sendable lib node c := by
  have hheader : SameHeader (upstreamHeader node c.headers) (upstreamHeader node c'.headers) ↔
      node.apiKey ≠ "" ∨ c.headers.get "Authorization" = c'.headers.get "Authorization" := by
    constructor
    · intro hsame
      by_cases hkey : node.apiKey = ""
      · have hauth := hsame "Authorization"
        rw [get_upstreamHeader, get_upstreamHeader] at hauth
        exact .inr (by simpa [hkey] using hauth)
      · exact .inl hkey
    · intro hcase key
      rw [get_upstreamHeader, get_upstreamHeader]
      by_cases hauth : key = "Authorization"
      · subst hauth
        rcases hcase with hkey | heq
        · simp [hkey]
        · simp [heq]
      · simp [hauth, h.headers key hauth]
  rw [forwardRequest_same_iff h, hheader, ← isSent_iff, Bool.not_eq_true, or_comm, or_assoc]

/-- Libraries that take every text for an empty object. -/
def plainLibraries : Libraries where
  unmarshal _ := .ok (some [])
  marshal _ := .ok []
  requestURI _ path := some path
  newRequest _ _ := .ok "node"

def clientWith (token : String) : ClientRequest where
  method := "POST"
  path := "/v1/chat/completions"
  headers := [("Authorization", ["Bearer " ++ token])]
  body := []
  names_distinct := List.nodup_singleton _

theorem clientWith_same (token token' : String) :
    (clientWith token).SameBut "Authorization" (clientWith token') := by
  refine ⟨rfl, rfl, rfl, fun k hk => ?_⟩
  simp [clientWith, Header.get_cons, hk.symm]

theorem credential_hidden_keyed :
    (forwardRequest plainLibraries { id := "n", baseURL := "http://node", apiKey := "secret" }
        (clientWith "a")).Same
      (forwardRequest plainLibraries { id := "n", baseURL := "http://node", apiKey := "secret" }
        (clientWith "b")) :=
  (credential_hidden_iff plainLibraries _ (clientWith_same "a" "b")).mpr (.inl (by decide))

/-- A node that needs no key gets the client's. -/
theorem credential_forwarded :
    Auth.extractToken (clientWith "a").headers = some "a" ∧
      Auth.extractToken (clientWith "b").headers = some "b" ∧
      (clientWith "a").SameBut "Authorization" (clientWith "b") ∧
      ¬ (forwardRequest plainLibraries { id := "n", baseURL := "http://node" }
        (clientWith "a")).Same
        (forwardRequest plainLibraries { id := "n", baseURL := "http://node" } (clientWith "b")) ∧
      ∃ r isStream, forwardRequest plainLibraries { id := "n", baseURL := "http://node" }
        (clientWith "a") = .sent r isStream ∧ r.header.get "Authorization" = ["Bearer a"] := by
  refine ⟨by decide, by decide, clientWith_same "a" "b", fun hsame => ?_, _, _, rfl, by decide⟩
  have hauth := hsame.2.1 "Authorization"
  revert hauth
  decide

end LlmProxy.Proxy
