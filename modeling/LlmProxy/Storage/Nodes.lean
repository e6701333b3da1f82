import LlmProxy.Domain
import LlmProxy.ProofKit.JsonText
import LlmProxy.Storage.LogRows

/-! The table `model_nodes` of `SQLiteStorage`.  The aliases and the override of a node are columns
of JSON, its times are texts.  An object lists its members in the order of their names, in which
`json.Marshal` writes the keys of a map.  A number that is read into an `any` is a `float64`;
`float64` gives the literal that is written for the one that a literal is read as. -/

namespace LlmProxy

open ProofKit Storage

/-- The names of `domain.EndpointType`. -/
def EndpointType.ofText (text : String) : EndpointType :=
  if text = "chat" then .chat
  else if text = "embedding" then .embedding
  else if text = "responses" then .responses
  else if text = "all" then .all
  else .other text

/-- `domain.ModelNode` with all its fields.  `none` is a nil slice, a nil map and the zero time. -/
structure NodeRecord where
  id : String
  name : String := ""
  aliases : Option (List String) := some []
  baseURL : String := ""
  apiKey : String := ""
  modelName : String := ""
  endpointType : String := "all"
  tpm : Int := 0
  rpm : Int := 0
  override : Option (List (String × Json)) := none
  timeoutSec : Int := 0
  enabled : Bool := true
  createdAt : Option Instant := none
  updatedAt : Option Instant := none

namespace NodeRecord

/-- What the router reads of a node. -/
def node (n : NodeRecord) : ModelNode where
  id := n.id
  name := n.name
  aliases := n.aliases.getD []
  endpointType := .ofText n.endpointType
  enabled := n.enabled

/-- What a configuration says about a node: all but its times. -/
def settings (n : NodeRecord) : NodeRecord := { n with createdAt := none, updatedAt := none }

theorem congr_settings {β : Sort _} (f : NodeRecord → β) (hf : ∀ n, f n.settings = f n)
    {n m : NodeRecord} (h : n.settings = m.settings) : f n = f m := by
  rw [← hf n, h, hf m]

end NodeRecord

namespace Storage

/-! ### Columns -/

structure NodeRow where
  id : String
  name : String
  aliases : String
  baseURL : String
  apiKey : String
  modelName : String
  endpointType : String
  tpm : Int
  rpm : Int
  override : String
  timeoutSec : Int
  enabled : Int
  createdAt : String
  updatedAt : String

def aliasesJson : Option (List String) → Json
  | none => .null
  | some aliases => .arr (aliases.map .str)

def overrideJson : Option (List (String × Json)) → Json
  | none => .null
  | some members => .obj members

def marshal (v : Json) : String := String.ofList v.write

/-- An item that is no string leaves an empty one in its place. -/
def itemText : Json → String
  | .str s => s
  | _ => ""

/-- `json.Unmarshal` into a nil slice of strings, whose error is ignored. -/
def unmarshalAliases (text : String) : Option (List String) :=
  match Json.read text.toList with
  | some (.arr items) => some (items.map itemText)
  | _ => none

mutual

/-- A value with its numbers as a variable of type `any` holds them. -/
def decoded (float64 : String → String) : Json → Json
  | .null => .null
  | .bool b => .bool b
  | .num literal => .num (float64 literal)
  | .str s => .str s
  | .arr items => .arr (decodedItems float64 items)
  | .obj members => .obj (decodedMembers float64 members)

def decodedItems (float64 : String → String) : List Json → List Json
  | [] => []
  | v :: rest => decoded float64 v :: decodedItems float64 rest

def decodedMembers (float64 : String → String) : List (String × Json) → List (String × Json)
  | [] => []
  | (name, v) :: rest => (name, decoded float64 v) :: decodedMembers float64 rest

end

variable (float64 : String → String)

/-- `json.Unmarshal` into a nil map, whose error is ignored. -/
def unmarshalOverride (text : String) : Option (List (String × Json)) :=
  match Json.read text.toList with
  | some (.obj members) => some (decodedMembers float64 members)
  | _ => none

/-- The values that `UpsertNode` passes, for a node with these times. -/
def nodeRow (n : NodeRecord) (created updated : Instant) : NodeRow :=
  { n with
    aliases := marshal (aliasesJson n.aliases)
    override := marshal (overrideJson n.override)
    enabled := boolToInt n.enabled
    createdAt := created.text
    updatedAt := updated.text }

def scanNode (row : NodeRow) : NodeRecord :=
  { row with
    aliases := unmarshalAliases row.aliases
    override := unmarshalOverride float64 row.override
    enabled := intToBool row.enabled
    createdAt := parseRFC3339 row.createdAt
    updatedAt := parseRFC3339 row.updatedAt }

/-- A node as it is read after it was written, but for its times: its override has gone through its
column. -/
def readBack (n : NodeRecord) : NodeRecord :=
  { n with override := unmarshalOverride float64 (marshal (overrideJson n.override)) }

/-- The override can be marshalled and read, and its numbers are ones that a `float64` can hold. -/
structure Storable (n : NodeRecord) : Prop where
  wellFormed : (overrideJson n.override).WellFormed
  depth : (overrideJson n.override).depth ≤ Json.maxNestingDepth
  numbers : n.override.map (decodedMembers float64) = n.override

variable {float64}

theorem wellFormed_strings (aliases : List String) :
    Json.ItemsWellFormed (aliases.map .str) ∧ Json.itemsDepth (aliases.map .str) = 0 := by
  induction aliases with
  | nil => simp [Json.ItemsWellFormed, Json.itemsDepth]
  | cons a rest ih => simp [Json.ItemsWellFormed, Json.WellFormed, Json.itemsDepth, Json.depth, ih]

theorem unmarshalAliases_marshal (aliases : Option (List String)) :
    unmarshalAliases (marshal (aliasesJson aliases)) = aliases := by
  cases aliases with
  | none => rfl
  | some aliases =>
    obtain ⟨hwell, hdepth⟩ := wellFormed_strings aliases
    have hread : Json.read (aliasesJson (some aliases)).write = some (.arr (aliases.map .str)) := by
      refine Json.read_write ?_ ?_
      · simpa [aliasesJson, Json.WellFormed] using hwell
      · simp [aliasesJson, Json.depth, hdepth, Json.maxNestingDepth]
    rw [unmarshalAliases, marshal, String.toList_ofList, hread]
    simp only [List.map_map, Option.some.injEq]
    exact List.map_id aliases

theorem unmarshalOverride_marshal {n : NodeRecord} (h : Storable float64 n) :
    unmarshalOverride float64 (marshal (overrideJson n.override)) = n.override := by
  have hnumbers := h.numbers
  rw [unmarshalOverride, marshal, String.toList_ofList, Json.read_write h.wellFormed h.depth]
  cases hoverride : n.override with
  | none => rfl
  | some members => rwa [hoverride] at hnumbers

theorem readBack_of_storable {n : NodeRecord} (h : Storable float64 n) :
    readBack float64 n = n := by
  rw [readBack, unmarshalOverride_marshal h]

/-! ### The table -/

abbrev Nodes := Keyed NodeRow.id

/-- `UpsertNode` at the time `now`: an update keeps `created_at`. -/
def upsertNode (t : Nodes) (now : Instant) (n : NodeRecord) : Nodes :=
  match t.get? n.id with
  | some old => t.upsert { nodeRow n now now with createdAt := old.createdAt }
  | none => t.upsert (nodeRow n (n.createdAt.getD now) now)

/-- `ListNodes`: the rows in one of the orders in which no name is followed by a smaller one. -/
def ListNodes (float64 : String → String) (t : Nodes) (out : List NodeRecord) : Prop :=
  ∃ sorted, OrderedBy (fun a b : NodeRow => ¬ b.name < a.name) t.rows sorted ∧
    out = sorted.map (scanNode float64)

def deleteNode (t : Nodes) (id : String) : Nodes := t.erase id

theorem exists_listNodes (t : Nodes) : ∃ out, ListNodes float64 t out := by
  obtain ⟨sorted, hperm, hsorted⟩ := exists_orderedBy NodeRow.name t.rows
  exact ⟨_, sorted, ⟨hperm, hsorted.imp fun hle => not_lt.mpr hle⟩, rfl⟩

theorem settings_scanNode (n : NodeRecord) (created updated : Instant) (createdAt : String) :
    (scanNode float64 { nodeRow n created updated with createdAt }).settings =
      (readBack float64 n).settings := by
  simp only [scanNode, nodeRow, readBack, NodeRecord.settings, unmarshalAliases_marshal,
    intToBool_boolToInt]

/-- One row is written, and the others stay. -/
theorem upsertNode_spec (float64 : String → String) (t : Nodes) (now : Instant) (n : NodeRecord) :
    ∃ written : NodeRow, written.id = n.id ∧
      (scanNode float64 written).settings = (readBack float64 n).settings ∧
      ∀ row, row ∈ upsertNode t now n ↔ row = written ∨ row ∈ t ∧ row.id ≠ n.id := by
  unfold upsertNode
  split
  · exact ⟨_, rfl, settings_scanNode n now now _, fun row => Keyed.mem_upsert⟩
  · exact ⟨nodeRow n (n.createdAt.getD now) now, rfl,
      settings_scanNode n (n.createdAt.getD now) now _, fun row => Keyed.mem_upsert⟩

end Storage

end LlmProxy
