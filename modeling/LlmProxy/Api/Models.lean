import LlmProxy.RouterTable

/-! `OpenAIHandler.listModels`, which lists the aliases of the enabled nodes.  It walks the node
table, and requests are routed by the index of aliases. -/

namespace LlmProxy

open ProofKit

/-- `ListEnabled`, where the map is visited in this order. -/
def RouterTable.listEnabled (order : List ModelNode) : List ModelNode := order.filter (·.enabled)

namespace Api

structure ModelObj where
  id : String
  object : String := "model"
  ownedBy : String := "proxyllm"
  deriving DecidableEq

inductive ModelsReply
  | error (status : Int) (msg : String)
  | list (object : String) (data : List ModelObj)

/-- The variables `seen` and `models` of `listModels`. -/
structure Listing where
  seen : String → Bool := fun _ => false
  models : List ModelObj := []

namespace Listing

def add (l : Listing) (alias_ : String) : Listing :=
  if l.seen alias_ then l
  else { seen := Function.update l.seen alias_ true, models := l.models ++ [{ id := alias_ }] }

def addNode (l : Listing) (n : ModelNode) : Listing := n.aliases.foldl add l

end Listing

/-- `listModels`, where `ListEnabled` visits the map in this order. -/
def listModels (method : String) (order : List ModelNode) : ModelsReply :=
  if method ≠ "GET" then .error 405 "method not allowed"
  else .list "list" ((RouterTable.listEnabled order).foldl Listing.addNode {}).models

namespace Listing

def ids (l : Listing) : List String := l.models.map (·.id)

/-- The map holds the models of the list, none of which is there twice. -/
structure Sound (l : Listing) : Prop where
  nodup : l.ids.Nodup
  seen_iff : ∀ alias_, l.seen alias_ = true ↔ alias_ ∈ l.ids

theorem Sound.add {l : Listing} (h : l.Sound) (alias_ : String) :
    (l.add alias_).Sound ∧ ∀ a, a ∈ (l.add alias_).ids ↔ a ∈ l.ids ∨ a = alias_ := by
  unfold Listing.add
  split
  · next hseen =>
    have hmem := (h.seen_iff alias_).mp hseen
    refine ⟨h, fun a => ⟨.inl, ?_⟩⟩
    rintro (ha | rfl)
    · exact ha
    · exact hmem
  · next hseen =>
    have hfresh : alias_ ∉ l.ids := fun hmem => hseen ((h.seen_iff alias_).mpr hmem)
    have hids (seen : String → Bool) :
        ids { seen, models := l.models ++ [{ id := alias_ }] } = l.ids ++ [alias_] := by
      simp [ids]
    refine ⟨⟨?_, fun a => ?_⟩, fun a => by rw [hids, List.mem_append, List.mem_singleton]⟩
    · rw [hids]
      exact h.nodup.append (List.nodup_singleton _) (List.disjoint_singleton.mpr hfresh)
    · rw [hids, List.mem_append, List.mem_singleton, ← h.seen_iff]
      by_cases ha : a = alias_ <;> simp [ha]

theorem Sound.addNode {l : Listing} (h : l.Sound) (n : ModelNode) :
    (l.addNode n).Sound ∧ ∀ a, a ∈ (l.addNode n).ids ↔ a ∈ l.ids ∨ a ∈ n.aliases := by
  unfold Listing.addNode
  induction n.aliases generalizing l with
  | nil => exact ⟨h, by simp⟩
  | cons alias_ rest ih =>
    obtain ⟨hsound, hids⟩ := h.add alias_
    obtain ⟨hsound', hids'⟩ := ih hsound
    refine ⟨hsound', fun a => ?_⟩
    rw [List.foldl_cons, hids', hids, List.mem_cons, or_assoc]

theorem Sound.addNodes {l : Listing} (h : l.Sound) (nodes : List ModelNode) :
    (nodes.foldl Listing.addNode l).Sound ∧
      ∀ a, a ∈ (nodes.foldl Listing.addNode l).ids ↔ a ∈ l.ids ∨ ∃ n ∈ nodes, a ∈ n.aliases := by
  induction nodes generalizing l with
  | nil => exact ⟨h, by simp⟩
  | cons n rest ih =>
    obtain ⟨hsound, hids⟩ := h.addNode n
    obtain ⟨hsound', hids'⟩ := ih hsound
    refine ⟨hsound', fun a => ?_⟩
    rw [List.foldl_cons, hids', hids, List.exists_mem_cons_iff, or_assoc]

theorem empty_sound : ({} : Listing).Sound := ⟨List.nodup_nil, by simp [ids]⟩

end Listing

open RouterTable

/-- A node that lists an alias and is enabled is what both views ask for. -/
theorem resolve_ne_nil_iff {s : RouterTable} (h : s.Indexed) {order : List ModelNode}
    (horder : order.Perm s.nodes.rows) {alias_ : String} :
    s.router.resolve alias_ .all ≠ [] ↔ ∃ n ∈ listEnabled order, alias_ ∈ n.aliases := by
  rw [ne_eq, List.eq_nil_iff_forall_not_mem, Classical.not_forall_not]
  refine exists_congr fun n => ?_
  rw [h.mem_resolve, listEnabled, List.mem_filter, horder.mem_iff]
  constructor
  · intro hn
    exact ⟨⟨(Keyed.get?_eq_some.mp hn.stored).1, hn.enabled⟩, hn.listed⟩
  · rintro ⟨⟨hmem, henabled⟩, hlisted⟩
    exact ⟨Keyed.get?_eq_some.mpr ⟨hmem, rfl⟩, henabled, hlisted, .inr (.inl rfl)⟩

/-- After any calls, and in whatever orders the map is visited: an alias is listed exactly if some
request for it can be routed, and it is listed once. -/
theorem models_are_routable {actions : List RouterTable.Action} {s : RouterTable}
    (h : System.exec next new actions = some s) {order : List ModelNode}
    (horder : order.Perm s.nodes.rows) :
    ∃ models, listModels "GET" order = .list "list" models ∧ (models.map (·.id)).Nodup ∧
      ∀ alias_, alias_ ∈ models.map (·.id) ↔ s.router.resolve alias_ .all ≠ [] := by
  obtain ⟨hsound, hids⟩ := Listing.empty_sound.addNodes (listEnabled order)
  refine ⟨_, rfl, hsound.nodup, fun alias_ => ?_⟩
  rw [resolve_ne_nil_iff (exec_resolve h).2 horder]
  exact (hids alias_).trans (or_iff_right List.not_mem_nil)

/-- Two nodes share an alias, and one of them is disabled later. -/
theorem models_are_routable_shared :
    ∃ actions s models, System.exec next new actions = some s ∧
      listModels "GET" s.nodes.rows = .list "list" models ∧ (models.map (·.id)).Nodup ∧
      ("m" ∈ models.map (·.id) ↔ s.router.resolve "m" .all ≠ []) := by
  let x : ModelNode := { id := "x", aliases := ["m"] }
  let y : ModelNode := { id := "y", aliases := ["m", "n"] }
  let off : ModelNode := { id := "y", aliases := ["m", "n"], enabled := false }
  obtain ⟨s, hs⟩ := Option.isSome_iff_exists.mp
    (show (System.exec next new [⟨.sync [x, y], [y, x]⟩, ⟨.addOrUpdate off, [x, off]⟩]).isSome by
      decide)
  obtain ⟨models, hlist, hnodup, hiff⟩ := models_are_routable hs (.refl _)
  exact ⟨_, s, models, hs, hlist, hnodup, hiff "m"⟩

end Api

end LlmProxy
