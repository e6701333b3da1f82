import LlmProxy.ProofKit.Keyed
import LlmProxy.ProofKit.System
import LlmProxy.Router
import LlmProxy.Worker.RetryRun

/-! Package `router` over its life: the node table, which `Sync`, `AddOrUpdate` and `Remove` change,
and the index by alias, which each of them rebuilds in whatever order the map is visited. -/

namespace LlmProxy

open ProofKit

/-- `Router`: the map `nodes`, whose keys are the ids of its values, and the index. -/
structure RouterTable where
  nodes : Keyed ModelNode.id
  router : Router

namespace RouterTable

inductive Update
  | sync (nodes : List ModelNode)
  | addOrUpdate (node : ModelNode)
  | remove (id : String)

/-- A call that changes the table, and the order in which `rebuildAliasIdx` visits the new one. -/
structure Action where
  update : Update
  order : List ModelNode

def apply (nodes : Keyed ModelNode.id) : Update → Keyed ModelNode.id
  | .sync list => list.foldl Keyed.upsert .empty
  | .addOrUpdate node => nodes.upsert node
  | .remove id => nodes.erase id

/-- `idx[alias] = append(idx[alias], n)` for every alias that the node lists. -/
def listUnder (n : ModelNode) (idx : String → List ModelNode) : List String → String →
    List ModelNode
  | [] => idx
  | alias_ :: rest => listUnder n (Function.update idx alias_ (idx alias_ ++ [n])) rest

def rebuildAliasIdx (order : List ModelNode) : Router :=
  { aliasIdx := order.foldl (fun idx n => listUnder n idx n.aliases) fun _ => [] }

def next (s : RouterTable) (a : Action) : Option RouterTable :=
  let nodes := apply s.nodes a.update
  if a.order.Perm nodes.rows then some { nodes, router := rebuildAliasIdx a.order } else none

/-- `New`. -/
def new : RouterTable := { nodes := .empty, router := { aliasIdx := fun _ => [] } }

/-! ### What the table is for -/

def put (table : String → Option ModelNode) (n : ModelNode) : String → Option ModelNode :=
  Function.update table n.id (some n)

/-- The node under each id after a change. -/
def Update.write (table : String → Option ModelNode) : Update → String → Option ModelNode
  | .sync list => list.foldl put fun _ => none
  | .addOrUpdate node => put table node
  | .remove id => Function.update table id none

/-- The node that was last written under each id. -/
def current (updates : List Update) : String → Option ModelNode :=
  updates.foldl Update.write fun _ => none

/-- The node is in the table, and a request for the alias and the endpoint may go to it. -/
structure Eligible (table : String → Option ModelNode) (alias_ : String) (et : EndpointType)
    (n : ModelNode) : Prop where
  stored : table n.id = some n
  enabled : n.enabled = true
  listed : alias_ ∈ n.aliases
  endpoint : n.endpointType = .all ∨ et = .all ∨ n.endpointType = et

/-- The list holds each eligible node exactly once, and no other node. -/
def Exact (table : String → Option ModelNode) (alias_ : String) (et : EndpointType)
    (resolved : List ModelNode) : Prop :=
  resolved.Nodup ∧ ∀ n, n ∈ resolved ↔ Eligible table alias_ et n

/-- The node that `Pick` chooses when `rand.Intn` returns `i`. -/
def picked (inp : Worker.Inputs) (candidates : List ModelNode) (i : Nat) : Option ModelNode :=
  (Worker.runIn { inp with choice := fun _ => i } (Worker.pick candidates) {}).1

/-- For how many of the equally likely values of `rand.Intn` the node is chosen. -/
def chances (inp : Worker.Inputs) (candidates : List ModelNode) (n : ModelNode) : Nat :=
  (List.range candidates.length).countP fun i => picked inp candidates i = some n

/-! ### The table after a run -/

theorem get?_foldl_upsert (list : List ModelNode) (nodes : Keyed ModelNode.id) :
    (list.foldl Keyed.upsert nodes).get? = list.foldl put nodes.get? := by
  induction list generalizing nodes with
  | nil => rfl
  | cons n rest ih => rw [List.foldl_cons, List.foldl_cons, ih, Keyed.get?_upsert, put]

theorem get?_apply (nodes : Keyed ModelNode.id) (u : Update) :
    (apply nodes u).get? = u.write nodes.get? := by
  cases u with
  | sync list => exact get?_foldl_upsert list .empty
  | addOrUpdate node => exact Keyed.get?_upsert nodes node
  | remove id => exact Keyed.get?_erase nodes id

/-- The index was built from the table, in some order. -/
def Indexed (s : RouterTable) : Prop :=
  ∃ order : List ModelNode, order.Perm s.nodes.rows ∧ s.router = rebuildAliasIdx order

theorem next_eq_some {s s' : RouterTable} {a : Action} (h : next s a = some s') :
    s'.nodes = apply s.nodes a.update ∧ s'.Indexed := by
  simp only [next] at h
  split at h
  · next hperm =>
    obtain rfl := Option.some.inj h
    exact ⟨rfl, a.order, hperm, rfl⟩
  · cases h

theorem exec_table {s s' : RouterTable} {actions : List Action}
    (h : System.exec next s actions = some s') (hs : s.Indexed) :
    s'.nodes.get? = (actions.map (·.update)).foldl Update.write s.nodes.get? ∧ s'.Indexed := by
  induction actions generalizing s with
  | nil =>
    obtain rfl := Option.some.inj h
    exact ⟨rfl, hs⟩
  | cons a rest ih =>
    obtain ⟨mid, hmid, hrest⟩ := Option.bind_eq_some_iff.mp h
    obtain ⟨hnodes, hindexed⟩ := next_eq_some hmid
    obtain ⟨htable, hs'⟩ := ih hrest hindexed
    refine ⟨?_, hs'⟩
    rw [htable, hnodes, get?_apply]
    rfl

theorem new_indexed : new.Indexed := ⟨[], .refl [], rfl⟩

/-! ### What the index resolves to -/

theorem count_listUnder (n m : ModelNode) (idx : String → List ModelNode) (aliases : List String)
    (alias_ : String) :
    (listUnder n idx aliases alias_).count m =
      (idx alias_).count m + if m = n then aliases.count alias_ else 0 := by
  induction aliases generalizing idx with
  | nil => simp [listUnder]
  | cons a rest ih =>
    rw [listUnder, ih]
    by_cases ha : alias_ = a
    · subst ha
      by_cases hm : m = n
      · subst hm
        simp
        omega
      · simp [hm, Ne.symm hm]
    · simp [ha, Ne.symm ha]

/-- A node stands in the index under an alias as often as it lists the alias. -/
theorem count_foldl_listUnder (m : ModelNode) (order : List ModelNode)
    (idx : String → List ModelNode) (alias_ : String) :
    (order.foldl (fun idx n => listUnder n idx n.aliases) idx alias_).count m =
      (idx alias_).count m + order.count m * m.aliases.count alias_ := by
  induction order generalizing idx with
  | nil => simp
  | cons n rest ih =>
    rw [List.foldl_cons, ih, count_listUnder]
    by_cases hm : m = n
    · subst hm
      rw [if_pos rfl, List.count_cons_self, Nat.add_mul]
      omega
    · rw [if_neg hm, List.count_cons_of_ne (Ne.symm hm), Nat.add_zero]

theorem endpointMatches_iff {nodeType requested : EndpointType} :
    Router.endpointMatches nodeType requested = true ↔
      nodeType = .all ∨ requested = .all ∨ nodeType = requested := by
  unfold Router.endpointMatches
  split
  · next h =>
    have heither : nodeType = .all ∨ requested = .all := by simpa using h
    exact iff_of_true rfl (heither.imp_right .inl)
  · next h =>
    have hneither : nodeType ≠ .all ∧ requested ≠ .all := by simpa using h
    simp [hneither]

section Resolve

variable {s : RouterTable} {alias_ : String} {et : EndpointType} {n : ModelNode}

theorem Indexed.count_aliasIdx (h : s.Indexed) (n : ModelNode) (alias_ : String) :
    (s.router.aliasIdx alias_).count n = s.nodes.rows.count n * n.aliases.count alias_ := by
  obtain ⟨order, hperm, hrouter⟩ := h
  rw [hrouter, rebuildAliasIdx, count_foldl_listUnder, hperm.count_eq]
  exact Nat.zero_add _

theorem Indexed.count_resolve (h : s.Indexed) (hn : Eligible s.nodes.get? alias_ et n) :
    (s.router.resolve alias_ et).count n = n.aliases.count alias_ := by
  have hmem : n ∈ s.nodes := (Keyed.get?_eq_some.mp hn.stored).1
  rw [Router.resolve, List.count_filter, h.count_aliasIdx,
    List.count_eq_one_of_mem s.nodes.rows_nodup hmem, Nat.one_mul]
  simp [hn.enabled, endpointMatches_iff.mpr hn.endpoint]

theorem Indexed.mem_resolve (h : s.Indexed) :
    n ∈ s.router.resolve alias_ et ↔ Eligible s.nodes.get? alias_ et n := by
  constructor
  · intro hn
    obtain ⟨hidx, hpass⟩ := List.mem_filter.mp hn
    obtain ⟨henabled, hmatch⟩ := (Bool.and_eq_true _ _).mp hpass
    have hcount := List.count_pos_iff.mpr hidx
    rw [h.count_aliasIdx] at hcount
    have hmem : n ∈ s.nodes := List.count_pos_iff.mp (Nat.pos_of_mul_pos_right hcount)
    exact ⟨Keyed.get?_eq_some.mpr ⟨hmem, rfl⟩, henabled,
      List.count_pos_iff.mp (Nat.pos_of_mul_pos_left hcount), endpointMatches_iff.mp hmatch⟩
  · intro hn
    apply List.count_pos_iff.mp
    rw [h.count_resolve hn]
    exact List.count_pos_iff.mpr hn.listed

/-- A choice takes each place of the list with one value of `rand.Intn`. -/
theorem picked_eq (inp : Worker.Inputs) {candidates : List ModelNode} {i : Nat}
    (hi : i < candidates.length) : picked inp candidates i = candidates[i]? := by
  match candidates with
  | [] => simp at hi
  | [n] =>
    obtain rfl : i = 0 := by simpa using hi
    rfl
  | n :: m :: rest =>
    have hmod : i % (rest.length + 1 + 1) = i := Nat.mod_eq_of_lt hi
    show some ((n :: m :: rest).get (Fin.ofNat _ i)) = _
    rw [List.getElem?_eq_getElem hi, Option.some_inj]
    exact congrArg (n :: m :: rest).get (Fin.ext (by simpa using hmod))

theorem chances_eq_count (inp : Worker.Inputs) (candidates : List ModelNode) (n : ModelNode) :
    chances inp candidates n = candidates.count n := by
  have hrange : (List.range candidates.length).map (picked inp candidates) =
      candidates.map some := by
    apply List.ext_getElem (by simp)
    intro i hi _
    have hlt : i < candidates.length := by simpa using hi
    simp [picked_eq inp hlt, List.getElem?_eq_getElem hlt]
  calc chances inp candidates n
      = ((List.range candidates.length).map (picked inp candidates)).count (some n) := by
        rw [List.count, List.countP_map]
        exact List.countP_congr fun i _ => by simp
    _ = candidates.count n := by
        rw [hrange]
        exact List.count_map_of_injective candidates some (Option.some_injective _) n

end Resolve

theorem exec_resolve {actions : List Action} {s : RouterTable}
    (h : System.exec next new actions = some s) :
    s.nodes.get? = current (actions.map (·.update)) ∧ s.Indexed := by
  obtain ⟨htable, hindexed⟩ := exec_table h new_indexed
  exact ⟨htable.trans rfl, hindexed⟩

/-- After any calls, and in whatever order they visited the map: `Resolve` returns each eligible
node exactly once and no other node exactly when no eligible node lists the alias twice, and `Pick`
chooses a node for as many values of `rand.Intn` as the node lists the alias. -/
theorem resolve_exact_iff {actions : List Action} {s : RouterTable}
    (h : System.exec next new actions = some s) (alias_ : String) (et : EndpointType)
    (inp : Worker.Inputs) :
    (Exact (current (actions.map (·.update))) alias_ et (s.router.resolve alias_ et) ↔
      ∀ n, Eligible (current (actions.map (·.update))) alias_ et n → n.aliases.count alias_ = 1) ∧
    ∀ n, Eligible (current (actions.map (·.update))) alias_ et n →
      chances inp (s.router.resolve alias_ et) n = n.aliases.count alias_ := by
  obtain ⟨htable, hindexed⟩ := exec_resolve h
  rw [← htable]
  refine ⟨⟨?_, ?_⟩, ?_⟩
  · rintro ⟨hnodup, -⟩ n hn
    rw [← hindexed.count_resolve hn]
    exact List.count_eq_one_of_mem hnodup (hindexed.mem_resolve.mpr hn)
  · intro honce
    refine ⟨List.nodup_iff_count_le_one.mpr fun n => ?_, fun n => hindexed.mem_resolve⟩
    by_cases hn : n ∈ s.router.resolve alias_ et
    · have heligible := hindexed.mem_resolve.mp hn
      rw [hindexed.count_resolve heligible, honce n heligible]
    · rw [List.count_eq_zero_of_not_mem hn]
      exact Nat.zero_le 1
  · intro n hn
    rw [chances_eq_count, hindexed.count_resolve hn]

/-- Two nodes for one alias, the second one written again as enabled: each is chosen for one value
of `rand.Intn`. -/
theorem resolve_exact_two_nodes :
    ∃ actions s inp, System.exec next new actions = some s ∧
      chances inp (s.router.resolve "m" .chat) { id := "x", aliases := ["m"] } = 1 ∧
      chances inp (s.router.resolve "m" .chat) { id := "y", aliases := ["m", "n"] } = 1 := by
  let x : ModelNode := { id := "x", aliases := ["m"] }
  let old : ModelNode := { id := "y", aliases := ["m"], enabled := false }
  let y : ModelNode := { id := "y", aliases := ["m", "n"] }
  let inp : Worker.Inputs :=
    ⟨[], id, fun _ => ⟨.ok ⟨false⟩, .ok { statusCode := 200 }, fun _ => none⟩⟩
  obtain ⟨s, hs⟩ := Option.isSome_iff_exists.mp
    (show (System.exec next new [⟨.sync [x, old], [old, x]⟩, ⟨.addOrUpdate y, [x, y]⟩]).isSome by
      decide)
  refine ⟨_, s, inp, hs, ?_, ?_⟩
  · exact (resolve_exact_iff hs "m" .chat inp).2 x ⟨by decide, rfl, by decide, .inl rfl⟩
  · exact (resolve_exact_iff hs "m" .chat inp).2 y ⟨by decide, rfl, by decide, .inl rfl⟩

/-- A node that lists an alias twice: `Resolve` returns it twice, and `Pick` chooses it for two of
the three values of `rand.Intn`. -/
theorem alias_listed_twice :
    ∃ actions s, System.exec next new actions = some s ∧
      ¬Exact (current (actions.map (·.update))) "m" .chat (s.router.resolve "m" .chat) ∧
      ∀ inp, chances inp (s.router.resolve "m" .chat) { id := "x", aliases := ["m", "m"] } = 2 ∧
        chances inp (s.router.resolve "m" .chat) { id := "y", aliases := ["m"] } = 1 := by
  let nodes : List ModelNode :=
    [{ id := "x", aliases := ["m", "m"] }, { id := "y", aliases := ["m"] }]
  obtain ⟨s, hs⟩ := Option.isSome_iff_exists.mp
    (show (System.exec next new [⟨.sync nodes, nodes⟩]).isSome by decide)
  obtain ⟨htable, hindexed⟩ := exec_resolve hs
  have hx : Eligible s.nodes.get? "m" .chat { id := "x", aliases := ["m", "m"] } := by
    rw [htable]
    exact ⟨by decide, rfl, by decide, .inl rfl⟩
  have hy : Eligible s.nodes.get? "m" .chat { id := "y", aliases := ["m"] } := by
    rw [htable]
    exact ⟨by decide, rfl, by decide, .inl rfl⟩
  refine ⟨_, s, hs, ?_, fun inp => ⟨?_, ?_⟩⟩
  · rintro ⟨hnodup, -⟩
    have hcount := List.nodup_iff_count_le_one.mp hnodup { id := "x", aliases := ["m", "m"] }
    rw [hindexed.count_resolve hx] at hcount
    exact absurd hcount (by decide)
  · rw [chances_eq_count, hindexed.count_resolve hx]
    decide
  · rw [chances_eq_count, hindexed.count_resolve hy]
    decide

end RouterTable

end LlmProxy
