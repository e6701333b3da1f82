import LlmProxy.ProofKit.Significant
import LlmProxy.Proxy.Merge

/-! The document that `Forward` sends upstream.  It goes through a `map[string]any`, whose numbers
are of type `float64`. -/

namespace LlmProxy.Proxy

open ProofKit

/-- A number of a document: an integer, read exactly, or another one. -/
inductive Number (φ : Type)
  | int (z : Int)
  | other (x : φ)
  deriving DecidableEq

variable {φ : Type}

/-- The number that a variable of type `any` holds. -/
def Number.decoded : Number φ → Number φ
  | int z => int (roundInt 53 z)
  | other x => other x

/-- What is taken for granted of `encoding/json`.  `document` is the document of a text in which no
object names a member twice.  The law on `marshal` is an assumption: it asks that a number is
written so that it is read exactly, where `encoding/json` writes the shortest decimal that is read
as the same `float64`, which beyond `2 ^ 53` may stand for another integer. -/
structure Codec (lib : Libraries) (φ : Type) where
  number : String → Number φ
  document : Bytes → Option (Document (Number φ))
  document_nil : document [] = none
  unmarshal : ∀ body f parsed, document body = some (.obj f) → lib.unmarshal body = .ok parsed →
    ∃ m, parsed = some m ∧ (Json.obj m).Lists number ((Document.obj f).map Number.decoded)
  marshal : ∀ m v out, (Json.obj m).Lists number v → lib.marshal (some m) = .ok out →
    document out = some v

/-- The members with the model of the node. -/
def withModel (node : UpstreamNode) (f : String → Option (Document (Number φ))) :
    String → Option (Document (Number φ)) :=
  if node.modelName = "" then f else Function.update f "model" (some (.str node.modelName))

/-- What the operator asks for: the client's document with the model of the node and its
overrides. -/
def Codec.edited {lib : Libraries} (codec : Codec lib φ) (node : UpstreamNode)
    (f : String → Option (Document (Number φ))) : Document (Number φ) :=
  (Document.obj (withModel node f)).merge ((Json.obj node.override).document codec.number)

/-- The path is left to the client: it does not lead to the model if the node has one of its own,
and the overrides miss it. -/
def Codec.Kept {lib : Libraries} (codec : Codec lib φ) (node : UpstreamNode) (p : List String) :
    Prop :=
  (node.modelName = "" ∨ p.head? ≠ some "model") ∧
    Document.Misses p ((Json.obj node.override).document codec.number)

variable {lib : Libraries} {codec : Codec lib φ} {node : UpstreamNode}
  {f : String → Option (Document (Number φ))}

theorem lists_assign {number : String → Number φ} {m : JsonMap}
    (h : (Json.obj m).Lists number (.obj f)) (key s : String) :
    (Json.obj (m.assign key (.str s))).Lists number
      (.obj (Function.update f key (some (.str s)))) := by
  obtain ⟨hdistinct, hdoc⟩ := h
  refine ⟨JsonMap.assign_distinct hdistinct (.str s), ?_⟩
  rw [Json.document_obj] at hdoc ⊢
  refine congrArg Document.obj (funext fun k => ?_)
  have hk := congrFun (Document.obj.inj hdoc) k
  rw [JsonMap.lookup_assign]
  by_cases heq : k = key
  · subst heq
    rw [if_pos rfl, Function.update_self]
    rfl
  · rw [if_neg heq, Function.update_of_ne heq]
    exact hk

theorem editBody_lists {number : String → Number φ} {m : JsonMap}
    (h : (Json.obj m).Lists number (.obj f)) (hoverride : (Json.obj node.override).Distinct) :
    ∃ m', editBody node (some m) = some (some m') ∧
      (Json.obj m').Lists number
        ((Document.obj (withModel node f)).merge ((Json.obj node.override).document number)) := by
  refine ⟨_, rfl, ?_⟩
  have hmodel :
      (Json.obj (if node.modelName = "" then m else m.assign "model" (.str node.modelName))).Lists
        number (.obj (withModel node f)) := by
    unfold withModel
    split
    · exact h
    · exact lists_assign h _ _
  split
  · next hnone =>
    rw [hnone]
    exact hmodel
  · refine ⟨deepMerge_distinct hmodel.distinct hoverride, ?_⟩
    rw [document_deepMerge hoverride, hmodel.document_eq]

theorem withModel_map :
    Document.obj (withModel node fun k => (f k).map (Document.map Number.decoded)) =
      (Document.obj (withModel node f)).map Number.decoded := by
  rw [Document.map_obj]
  refine congrArg Document.obj (funext fun k => ?_)
  unfold withModel
  split
  · rfl
  · by_cases hk : k = "model"
    · subst hk
      simp [Document.map]
    · simp [hk]

/-- What is sent is the edited document with the client's numbers as the map holds them. -/
theorem document_sent {c : ClientRequest} {r : UpstreamRequest} {isStream : Bool}
    (hoverride : (Json.obj node.override).Distinct) (hbody : codec.document c.body = some (.obj f))
    (hsent : forwardRequest lib node c = .sent r isStream) :
    codec.document r.body =
      some (((Document.obj (withModel node f)).map Number.decoded).merge
        ((Json.obj node.override).document codec.number)) := by
  obtain ⟨uri, parsed, m, host, -, hparsed, hedit, hmarshal, -⟩ := forwardRequest_sent hsent
  have hne : c.body ≠ [] := fun hnil => by simp [hnil, codec.document_nil] at hbody
  rw [if_neg hne] at hparsed
  obtain ⟨m', rfl, hlists⟩ := codec.unmarshal _ _ _ hbody hparsed
  rw [Document.map_obj] at hlists
  obtain ⟨m'', hm'', hlists''⟩ := editBody_lists hlists hoverride
  obtain rfl : some m'' = m := Option.some.inj (hm''.symm.trans hedit)
  rw [withModel_map] at hlists''
  exact codec.marshal _ _ _ hlists'' hmarshal

/-- Apart from the model, which is no number, a path leads to what the client has there. -/
theorem find_withModel {p : List String} {v : Document (Number φ)}
    (hv : v.isObject = false) (hfind : Document.find p (.obj (withModel node f)) = some v) :
    Document.find p (.obj f) = some v ∧ (node.modelName = "" ∨ p.head? ≠ some "model") ∨
      v.map Number.decoded = v := by
  unfold withModel at hfind
  split at hfind
  · next hname => exact .inl ⟨hfind, .inl hname⟩
  cases p with
  | nil =>
    obtain rfl := Option.some.inj hfind
    cases hv
  | cons k p =>
    by_cases hk : k = "model"
    · subst hk
      rw [Document.find_cons_obj, Function.update_self, Option.bind_some] at hfind
      cases p with
      | nil =>
        obtain rfl := Option.some.inj hfind
        exact .inr rfl
      | cons => cases hfind
    · rw [Document.find_cons_obj, Function.update_of_ne hk] at hfind
      exact .inl ⟨hfind, .inr (by simpa using hk)⟩

theorem find_withModel_of_kept {p : List String} (hp : node.modelName = "" ∨ p.head? ≠ some "model")
    {v : Document (Number φ)} (hv : v.isObject = false)
    (hfind : Document.find p (.obj f) = some v) :
    Document.find p (.obj (withModel node f)) = some v := by
  unfold withModel
  split
  · exact hfind
  · next hname =>
    cases p with
    | nil =>
      obtain rfl := Option.some.inj hfind
      cases hv
    | cons k p =>
      have hk : k ≠ "model" := by simpa using hp.resolve_left hname
      rwa [Document.find_cons_obj, Function.update_of_ne hk]

theorem map_decoded_eq_self_iff {v : Document (Number φ)} :
    v.map Number.decoded = v ↔ ∀ z, v.Contains (.int z) → Significant 53 z := by
  rw [Document.map_eq_self_iff]
  constructor
  · intro h z hz
    exact roundInt_eq_self_iff.mp (Number.int.inj (h (.int z) hz))
  · intro h n hn
    cases n with
    | int z => exact congrArg Number.int (roundInt_eq_self_iff.mpr (h z hn))
    | other x => rfl

/-- The fields that the operator does not override reach the node unchanged exactly when the
integers in them have at most 53 significant bits. -/
theorem sent_document_iff (codec : Codec lib φ) {c : ClientRequest} {r : UpstreamRequest}
    {isStream : Bool} (hoverride : (Json.obj node.override).Distinct)
    (hbody : codec.document c.body = some (.obj f))
    (hsent : forwardRequest lib node c = .sent r isStream) :
    codec.document r.body = some (codec.edited node f) ↔
      ∀ p v z, Document.find p (.obj f) = some v → v.isObject = false → codec.Kept node p →
        v.Contains (.int z) → Significant 53 z := by
  rw [document_sent hoverride hbody hsent, Codec.edited, Option.some.injEq,
    Document.merge_map_eq_iff]
  constructor
  · rintro h p v z hfind hv ⟨hp, hmiss⟩
    exact map_decoded_eq_self_iff.mp (h p v (find_withModel_of_kept hp hv hfind) hv hmiss) z
  · intro h p v hfind hv hmiss
    obtain ⟨hclient, hp⟩ | hsame := find_withModel hv hfind
    · exact map_decoded_eq_self_iff.mpr fun z => h p v z hclient hv ⟨hp, hmiss⟩
    · exact hsame

/-! ### A document with one number -/

/-- The text of an object with one member. -/
def seedBody (z : Int) : Bytes :=
  ("\x7b\"seed\":" ++ formatInt z ++ "\x7d").toList.map (·.toNat.toUInt8)

def seedMember (z : Int) (key : String) : Option (Document (Number String)) :=
  if key = "seed" then some (.num (.int z)) else none

/-- Libraries that read and write such a text with one of two numbers, of which a `float64` can hold
the first one only. -/
def seedLibraries : Libraries where
  unmarshal body :=
    if body = seedBody (2 ^ 53) ∨ body = seedBody (2 ^ 53 + 1) then
      .ok (some [("seed", .num "9007199254740992")])
    else .error { text := "invalid character" }
  marshal
    | some [("seed", .num "9007199254740992")] => .ok (seedBody (2 ^ 53))
    | _ => .error { text := "unsupported value" }
  requestURI _ path := some path
  newRequest _ _ := .ok "node"

def seedNumber (literal : String) : Number String :=
  match parseInt? literal with
  | some z => .int z
  | none => .other literal

theorem seed_lists : (Json.obj [("seed", .num "9007199254740992")]).Lists seedNumber
    (.obj (seedMember (2 ^ 53))) where
  distinct := .obj (List.nodup_singleton _) (by simpa using .num _)
  document_eq := by
    have hnumber : seedNumber "9007199254740992" = .int (2 ^ 53) := by decide
    rw [Json.document_obj]
    refine congrArg Document.obj (funext fun k => ?_)
    by_cases hk : k = "seed"
    · simp [hk, seedMember, Json.document, hnumber]
    · have hne : (k == "seed") = false := by simpa using hk
      simp [hk, hne, seedMember, List.lookup_cons]

theorem seedMember_decoded {z : Int} (h : roundInt 53 z = 2 ^ 53) :
    (Document.obj (seedMember z)).map Number.decoded = .obj (seedMember (2 ^ 53)) := by
  rw [Document.map_obj]
  refine congrArg Document.obj (funext fun k => ?_)
  by_cases hk : k = "seed" <;> simp [hk, seedMember, Document.map, Number.decoded, h]

def seedCodec : Codec seedLibraries String where
  number := seedNumber
  document body :=
    if body = seedBody (2 ^ 53) then some (.obj (seedMember (2 ^ 53)))
    else if body = seedBody (2 ^ 53 + 1) then some (.obj (seedMember (2 ^ 53 + 1)))
    else none
  document_nil := by decide
  unmarshal body f parsed hdoc hread := by
    have hparsed : parsed = some [("seed", .num "9007199254740992")] := by
      simp only [seedLibraries] at hread
      split at hread
      · exact (Except.ok.inj hread).symm
      · cases hread
    have hmember : f = seedMember (2 ^ 53) ∨ f = seedMember (2 ^ 53 + 1) := by
      split at hdoc
      · exact .inl (Document.obj.inj (Option.some.inj hdoc)).symm
      · split at hdoc
        · exact .inr (Document.obj.inj (Option.some.inj hdoc)).symm
        · cases hdoc
    refine ⟨_, hparsed, ?_⟩
    rcases hmember with rfl | rfl
    · rw [seedMember_decoded (by decide)]
      exact seed_lists
    · rw [seedMember_decoded (by decide)]
      exact seed_lists
  marshal m v out hlists hwrite := by
    simp only [seedLibraries] at hwrite
    split at hwrite
    · next heq =>
      obtain rfl := Option.some.inj heq
      obtain rfl := Except.ok.inj hwrite
      rw [if_pos rfl, ← hlists.document_eq, seed_lists.document_eq]
    · cases hwrite

def seedRequest (z : Int) : ClientRequest where
  method := "POST"
  path := "/v1/chat/completions"
  headers := []
  body := seedBody z
  names_distinct := List.nodup_nil

def plainNode : UpstreamNode := { id := "n", baseURL := "http://node" }

theorem plainNode_override : (Json.obj plainNode.override).Distinct :=
  .obj List.nodup_nil (by simp [plainNode])

theorem edited_plainNode (f : String → Option (Document (Number String))) :
    seedCodec.edited plainNode f = .obj f := rfl

theorem seed_of_find {p : List String} {z : Int} {v : Document (Number String)}
    (hfind : Document.find p (.obj (seedMember z)) = some v) (hv : v.isObject = false) :
    v = .num (.int z) := by
  cases p with
  | nil =>
    obtain rfl := Option.some.inj hfind
    cases hv
  | cons k p =>
    obtain ⟨w, hw, hfind⟩ := Option.bind_eq_some_iff.mp hfind
    unfold seedMember at hw
    split at hw
    · obtain rfl := Option.some.inj hw
      cases p with
      | nil => exact (Option.some.inj hfind).symm
      | cons => cases hfind
    · cases hw

/-- A number with one significant bit. -/
theorem sent_document_iff_exact :
    ∃ r isStream, forwardRequest seedLibraries plainNode (seedRequest (2 ^ 53)) = .sent r isStream ∧
      seedCodec.document r.body = some (seedCodec.edited plainNode (seedMember (2 ^ 53))) := by
  have hbody : seedCodec.document (seedRequest (2 ^ 53)).body = some (.obj (seedMember (2 ^ 53))) :=
    rfl
  refine ⟨_, _, rfl, (sent_document_iff seedCodec plainNode_override hbody rfl).mpr ?_⟩
  intro p v z hfind hv _ hz
  obtain rfl := seed_of_find hfind hv
  cases hz
  exact ⟨1, 53, by decide, by decide⟩

/-- The first integer that a `float64` cannot hold: the node gets the one before it. -/
theorem seed_rounded :
    ∃ r isStream, forwardRequest seedLibraries plainNode (seedRequest (2 ^ 53 + 1)) =
      .sent r isStream ∧
      seedCodec.document (seedRequest (2 ^ 53 + 1)).body = some (.obj (seedMember (2 ^ 53 + 1))) ∧
      seedCodec.document r.body = some (.obj (seedMember (2 ^ 53))) ∧
      seedCodec.document r.body ≠ some (seedCodec.edited plainNode (seedMember (2 ^ 53 + 1))) := by
  have hsent : seedCodec.document (seedBody (2 ^ 53)) = some (.obj (seedMember (2 ^ 53))) := rfl
  refine ⟨_, _, rfl, rfl, hsent, ?_⟩
  rw [hsent, edited_plainNode]
  intro heq
  have hseed := congrFun (Document.obj.inj (Option.some.inj heq)) "seed"
  simp [seedMember] at hseed

end LlmProxy.Proxy
