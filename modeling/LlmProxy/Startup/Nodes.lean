import LlmProxy.RateLimit.Limiter
import LlmProxy.RouterTable
import LlmProxy.Storage.Nodes

/-! The part of `main` that brings `model_nodes` in line with the configuration, and what it makes
of the table: the router and the limits of the models.  Every configured node is upserted, in the
order in which the map is visited, and every stored node whose id is not configured is deleted; the
errors of the deletion are ignored. -/

namespace LlmProxy.Startup

open ProofKit Storage

variable (float64 : String → String)

/-- The loop over `cfg.Providers`; `clock id` is the time at which the node `id` is written.  A
database error ends the process. -/
def initializeNodes (clock : String → Instant) : List NodeRecord → Nodes → Nodes
  | [], t => t
  | n :: rest, t => initializeNodes clock rest (upsertNode t (clock n.id) n)

/-- The loop over the stored nodes; the deletion of the node `id` fails if `kept id`. -/
def removeStaleNodes (cfg : Keyed NodeRecord.id) (kept : String → Bool) :
    List NodeRecord → Nodes → Nodes
  | [], t => t
  | n :: rest, t =>
    match cfg.get? n.id with
    | some _ => removeStaleNodes cfg kept rest t
    | none => removeStaleNodes cfg kept rest (if kept n.id then t else deleteNode t n.id)

/-- Both loops, for some order of the map and of nodes with one name.  A listing that fails skips
the second loop, as when every deletion fails. -/
def Reconciles (cfg : Keyed NodeRecord.id) (kept : String → Bool) (t t' : Nodes) : Prop :=
  ∃ order clock existingNodes, order.Perm cfg.rows ∧
    ListNodes float64 (initializeNodes clock order t) existingNodes ∧
    t' = removeStaleNodes cfg kept existingNodes (initializeNodes clock order t)

/-- The loop over the aliases of a node: the first limit of an alias stays. -/
def limitAliases (cfg : RateLimitConfig) :
    List String → (String → Option RateLimitConfig) → String → Option RateLimitConfig
  | [], limits => limits
  | alias_ :: rest, limits =>
    match limits alias_ with
    | some _ => limitAliases cfg rest limits
    | none => limitAliases cfg rest (Function.update limits alias_ (some cfg))

/-- The loop over `dbNodes`. -/
def modelLimits : List NodeRecord → (String → Option RateLimitConfig) → String →
    Option RateLimitConfig
  | [], limits => limits
  | n :: rest, limits =>
    if n.tpm ≤ 0 ∧ n.rpm ≤ 0 then modelLimits rest limits
    else modelLimits rest (limitAliases { tpm := n.tpm, rpm := n.rpm } (n.aliases.getD []) limits)

/-! ### What the configuration asks for -/

/-- The nodes after start-up, as they are read: those of the configuration, and the stored ones that
are not in it and could not be deleted. -/
inductive Remains (cfg : Keyed NodeRecord.id) (kept : String → Bool) (t : Nodes) : NodeRecord → Prop
  | entry {n : NodeRecord} : n ∈ cfg → Remains cfg kept t (readBack float64 n)
  | stale {row : NodeRow} : row ∈ t → cfg.get? row.id = none → kept row.id = true →
      Remains cfg kept t (scanNode float64 row)

def Lists (n : NodeRecord) (alias_ : String) : Prop := alias_ ∈ n.aliases.getD []

/-- A request for the alias and the endpoint may go to the node. -/
def Serves (n : NodeRecord) (alias_ : String) (et : EndpointType) : Prop :=
  n.enabled = true ∧ Lists n alias_ ∧
    (n.node.endpointType = .all ∨ et = .all ∨ n.node.endpointType = et)

/-- The node limits its aliases. -/
def Limits (n : NodeRecord) (alias_ : String) : Prop := Lists n alias_ ∧ ¬(n.tpm ≤ 0 ∧ n.rpm ≤ 0)

/-! ### The loops over the table -/

/-- The table after the entries have been written, and no other row has changed. -/
structure NodesWritten (order : List NodeRecord) (t t' : Nodes) : Prop where
  entry : ∀ n ∈ order, ∃ row ∈ t', (scanNode float64 row).settings = (readBack float64 n).settings
  other : ∀ row : NodeRow, (∀ n ∈ order, n.id ≠ row.id) → (row ∈ t' ↔ row ∈ t)

variable {float64} {cfg : Keyed NodeRecord.id} {kept : String → Bool} {t t' : Nodes}
  {dbNodes : List NodeRecord}

theorem id_of_settings {row : NodeRow} {n : NodeRecord}
    (h : (scanNode float64 row).settings = n.settings) :
    row.id = n.id := congrArg NodeRecord.id h

theorem initializeNodes_written (clock : String → Instant) {order : List NodeRecord}
    (hnodup : (order.map NodeRecord.id).Nodup) (t : Nodes) :
    NodesWritten float64 order t (initializeNodes clock order t) := by
  induction order generalizing t with
  | nil => exact ⟨fun n hn => absurd hn List.not_mem_nil, fun row _ => Iff.rfl⟩
  | cons n rest ih =>
    obtain ⟨hfresh, hrest⟩ := List.nodup_cons.mp hnodup
    obtain ⟨written, hid, hsettings, hmem⟩ := upsertNode_spec float64 t (clock n.id) n
    obtain ⟨hentry, hother⟩ := ih hrest (upsertNode t (clock n.id) n)
    -- the row of `n` stays, as no later entry has its id
    have hkeep : ∀ n' ∈ rest, n'.id ≠ written.id := fun n' hn' heq =>
      hfresh (List.mem_map.mpr ⟨n', hn', heq.trans hid⟩)
    refine ⟨List.forall_mem_cons.mpr ⟨?_, hentry⟩, fun row hrow => ?_⟩
    · exact ⟨written, (hother written hkeep).mpr ((hmem written).mpr (.inl rfl)), hsettings⟩
    · obtain ⟨hne, hlater⟩ := List.forall_mem_cons.mp hrow
      rw [initializeNodes, hother row hlater, hmem row]
      constructor
      · rintro (rfl | ⟨hold, -⟩)
        · exact absurd hid.symm hne
        · exact hold
      · exact fun hold => .inr ⟨hold, hne.symm⟩

theorem mem_removeStaleNodes {listed : List NodeRecord} {row : NodeRow} :
    row ∈ removeStaleNodes cfg kept listed t ↔
      row ∈ t ∧ ∀ n ∈ listed, cfg.get? n.id = none → kept n.id = false → row.id ≠ n.id := by
  induction listed generalizing t with
  | nil => simp [removeStaleNodes]
  | cons n rest ih =>
    rw [removeStaleNodes]
    split
    · next n' hn => simp [ih, hn]
    · next hn =>
      cases hkept : kept n.id with
      | true => simp [ih, hn, hkept]
      | false => simp [ih, hn, hkept, deleteNode, and_assoc]

theorem mem_listNodes (h : ListNodes float64 t dbNodes) {n : NodeRecord} :
    n ∈ dbNodes ↔ ∃ row ∈ t, scanNode float64 row = n := by
  obtain ⟨sorted, horder, rfl⟩ := h
  simp only [List.mem_map, horder.perm.mem_iff, Keyed.mem_rows]

theorem nodup_listNodes (h : ListNodes float64 t dbNodes) : (dbNodes.map NodeRecord.id).Nodup := by
  obtain ⟨sorted, horder, rfl⟩ := h
  rw [List.map_map]
  exact (horder.perm.map NodeRow.id).nodup_iff.mpr t.nodup

/-- Start-up leaves exactly the nodes that remain, with their settings. -/
theorem Reconciles.settings (h : Reconciles float64 cfg kept t t') (s : NodeRecord) :
    (∃ row ∈ t', (scanNode float64 row).settings = s) ↔
      ∃ n, Remains float64 cfg kept t n ∧ n.settings = s := by
  obtain ⟨order, clock, existingNodes, horder, hlist, rfl⟩ := h
  have hwritten : NodesWritten float64 order t (initializeNodes clock order t) :=
    initializeNodes_written clock ((horder.map _).nodup_iff.mpr cfg.nodup) t
  generalize initializeNodes clock order t = mid at hlist hwritten
  have hentry {n : NodeRecord} (hn : n ∈ cfg) :
      ∃ row ∈ mid, (scanNode float64 row).settings = (readBack float64 n).settings :=
    hwritten.entry n (horder.mem_iff.mpr hn)
  have hother {row : NodeRow} (hnone : cfg.get? row.id = none) : row ∈ mid ↔ row ∈ t :=
    hwritten.other row fun n hn => Keyed.get?_eq_none.mp hnone n (horder.mem_iff.mp hn)
  simp only [mem_removeStaleNodes]
  constructor
  · rintro ⟨row, ⟨hrow, hkeep⟩, rfl⟩
    cases hfound : cfg.get? row.id with
    | some n =>
      obtain ⟨hn, hid⟩ := Keyed.get?_eq_some.mp hfound
      obtain ⟨row', hrow', hsettings⟩ := hentry hn
      have hsame : row' = row := mid.eq_of_key hrow' hrow ((id_of_settings hsettings).trans hid)
      exact ⟨readBack float64 n, .entry hn, hsame ▸ hsettings.symm⟩
    | none =>
      refine ⟨scanNode float64 row, .stale ((hother hfound).mp hrow) hfound ?_, rfl⟩
      by_contra hdeleted
      exact hkeep (scanNode float64 row) ((mem_listNodes hlist).mpr ⟨row, hrow, rfl⟩) hfound
        (by simpa [scanNode] using hdeleted) rfl
  · rintro ⟨-, @⟨n, hn⟩ | ⟨hrow, hnone, hkept⟩, rfl⟩
    · obtain ⟨row, hrow, hsettings⟩ := hentry hn
      refine ⟨row, ⟨hrow, fun n' _ hnone _ heq => ?_⟩, hsettings⟩
      have hid : n.id = n'.id := (id_of_settings hsettings).symm.trans heq
      exact Keyed.get?_eq_none.mp hnone n hn hid
    · next row =>
      refine ⟨row, ⟨(hother hnone).mpr hrow, fun n' _ _ hdeleted heq => ?_⟩, rfl⟩
      rw [← heq, hkept] at hdeleted
      cases hdeleted

theorem remains_of_mem (hlist : ListNodes float64 t' dbNodes) (h : Reconciles float64 cfg kept t t')
    {n : NodeRecord} (hn : n ∈ dbNodes) :
    ∃ m, Remains float64 cfg kept t m ∧ m.settings = n.settings := by
  obtain ⟨row, hrow, rfl⟩ := (mem_listNodes hlist).mp hn
  exact (h.settings _).mp ⟨row, hrow, rfl⟩

theorem Remains.mem (hlist : ListNodes float64 t' dbNodes) (h : Reconciles float64 cfg kept t t')
    {m : NodeRecord} (hm : Remains float64 cfg kept t m) : ∃ n ∈ dbNodes,
      n.settings = m.settings := by
  obtain ⟨row, hrow, hsettings⟩ := (h.settings m.settings).mpr ⟨m, hm, rfl⟩
  exact ⟨scanNode float64 row, (mem_listNodes hlist).mpr ⟨row, hrow, rfl⟩, hsettings⟩

/-! ### The router -/

theorem node_of_settings {n m : NodeRecord} (h : n.settings = m.settings) : n.node = m.node :=
  NodeRecord.congr_settings NodeRecord.node (fun _ => rfl) h

theorem serves_of_settings {n m : NodeRecord} (h : n.settings = m.settings) {alias_ : String}
    {et : EndpointType} : Serves n alias_ et ↔ Serves m alias_ et :=
  iff_of_eq (NodeRecord.congr_settings (Serves · alias_ et) (fun _ => rfl) h)

/-- The router holds the nodes that it was loaded with. -/
theorem mem_resolve_synced {order : List ModelNode} {rt : RouterTable}
    (hnodup : (dbNodes.map NodeRecord.id).Nodup)
    (h : RouterTable.next .new ⟨.sync (dbNodes.map NodeRecord.node), order⟩ = some rt)
    {alias_ : String} {et : EndpointType} {n : ModelNode} :
    n ∈ rt.router.resolve alias_ et ↔ ∃ r ∈ dbNodes, r.node = n ∧ Serves r alias_ et := by
  obtain ⟨hnodes, hindexed⟩ := RouterTable.next_eq_some h
  have hmem (m : ModelNode) : rt.nodes.get? m.id = some m ↔ ∃ r ∈ dbNodes, r.node = m := by
    rw [Keyed.get?_eq_some, hnodes, RouterTable.apply,
      Keyed.mem_foldl_upsert (by rwa [List.map_map])]
    simp
  rw [hindexed.mem_resolve]
  constructor
  · rintro ⟨hstored, henabled, hlisted, hendpoint⟩
    obtain ⟨r, hr, rfl⟩ := (hmem n).mp hstored
    exact ⟨r, hr, rfl, henabled, hlisted, hendpoint⟩
  · rintro ⟨r, hr, rfl, henabled, hlisted, hendpoint⟩
    exact ⟨(hmem r.node).mpr ⟨r, hr, rfl⟩, henabled, hlisted, hendpoint⟩

/-- Whatever was stored before: a request may go to exactly the nodes of the configuration that
serve its alias and endpoint, and to those that start-up could not delete, and it is sent with the
settings of the node.  A configured node has its own settings if its override can be stored as it
is. -/
theorem routing_follows_config (h : Reconciles float64 cfg kept t t')
    (hlist : ListNodes float64 t' dbNodes) {order : List ModelNode} {rt : RouterTable}
    (hsync : RouterTable.next .new ⟨.sync (dbNodes.map NodeRecord.node), order⟩ = some rt)
    (alias_ : String) (et : EndpointType) :
    (∀ n, n ∈ rt.router.resolve alias_ et ↔
      ∃ m, Remains float64 cfg kept t m ∧ m.node = n ∧ Serves m alias_ et) ∧
    (∀ r ∈ dbNodes, ∀ m, Remains float64 cfg kept t m → m.id = r.id → r.settings = m.settings) ∧
    ∀ n ∈ cfg.rows, Storable float64 n → Remains float64 cfg kept t n := by
  have hnodup := nodup_listNodes hlist
  refine ⟨fun n => ?_, fun r hr m hm hid => ?_, fun n hn hstorable => ?_⟩
  · rw [mem_resolve_synced hnodup hsync]
    constructor
    · rintro ⟨r, hr, rfl, hserves⟩
      obtain ⟨m, hm, hsettings⟩ := remains_of_mem hlist h hr
      exact ⟨m, hm, node_of_settings hsettings, (serves_of_settings hsettings).mpr hserves⟩
    · rintro ⟨m, hm, rfl, hserves⟩
      obtain ⟨r, hr, hsettings⟩ := hm.mem hlist h
      exact ⟨r, hr, node_of_settings hsettings, (serves_of_settings hsettings).mpr hserves⟩
  · obtain ⟨r', hr', hsettings⟩ := hm.mem hlist h
    have hsame : r' = r :=
      List.inj_on_of_nodup_map hnodup hr' hr ((congrArg NodeRecord.id hsettings).trans hid)
    exact hsame ▸ hsettings
  · exact readBack_of_storable hstorable ▸ .entry hn

/-- Start-up comes to its end. -/
theorem exists_started (float64 : String → String) (cfg : Keyed NodeRecord.id)
    (kept : String → Bool) (t : Nodes) :
    ∃ t' dbNodes order rt, Reconciles float64 cfg kept t t' ∧ ListNodes float64 t' dbNodes ∧
      RouterTable.next .new ⟨.sync (dbNodes.map NodeRecord.node), order⟩ = some rt := by
  obtain ⟨existingNodes, hexisting⟩ :=
    exists_listNodes (initializeNodes (fun _ => zeroTime) cfg.rows t)
  obtain ⟨dbNodes, hlist⟩ := exists_listNodes (removeStaleNodes cfg kept existingNodes _)
  let nodes := RouterTable.apply .empty (.sync (dbNodes.map NodeRecord.node))
  exact ⟨_, dbNodes, nodes.rows, _, ⟨cfg.rows, _, existingNodes, .refl _, hexisting, rfl⟩, hlist,
    if_pos (.refl nodes.rows)⟩

/-- A configuration with two nodes for one alias, the second one disabled, and a table with a node
that is not in it. -/
def moved : Keyed NodeRecord.id :=
  ⟨[{ id := "a", name := "z", aliases := some ["gpt"], rpm := 9,
      override := some [("stream", .bool true)] },
    { id := "b", name := "b", aliases := some ["gpt", "mini"], rpm := 60, enabled := false }],
    by decide⟩

def movedFrom : Nodes :=
  upsertNode .empty zeroTime { id := "old", name := "a", aliases := some ["gpt"], rpm := 1 }

/-- Only the enabled node of the configuration gets requests, with its override. -/
theorem routing_follows_moved :
    ∃ t' dbNodes order rt, Reconciles id moved (fun _ => false) movedFrom t' ∧
      ListNodes id t' dbNodes ∧
      RouterTable.next .new ⟨.sync (dbNodes.map NodeRecord.node), order⟩ = some rt ∧
      (∀ n, n ∈ rt.router.resolve "gpt" .chat ↔
        n = { id := "a", name := "z", aliases := ["gpt"] }) ∧ ∀ r ∈ dbNodes, r.id = "a" →
          r.override = some [("stream", .bool true)] := by
  obtain ⟨t', dbNodes, order, rt, h, hlist, hsync⟩ :=
    exists_started id moved (fun _ => false) movedFrom
  obtain ⟨hroutes, hsettings, hown⟩ := routing_follows_config h hlist hsync "gpt" .chat
  refine ⟨t', dbNodes, order, rt, h, hlist, hsync, fun n => ?_, fun r hr hid => ?_⟩
  case refine_2 =>
    have hstorable : Storable id (moved.rows.head (by decide)) :=
      ⟨by simp [moved, overrideJson, Json.WellFormed, Json.MembersWellFormed], by decide, rfl⟩
    have hsame := hsettings r hr _ (hown _ List.mem_cons_self hstorable) hid.symm
    exact (congrArg NodeRecord.override hsame :)
  rw [hroutes n]
  constructor
  · rintro ⟨m, hm | ⟨-, -, hkept⟩, rfl, henabled, -⟩
    · rcases List.mem_cons.mp hm with rfl | hm
      · rfl
      · obtain rfl := List.mem_singleton.mp hm
        cases henabled
    · cases hkept
  · rintro rfl
    exact ⟨_, .entry List.mem_cons_self, rfl, rfl, List.mem_singleton_self _, .inl rfl⟩

/-! ### The limits of the models -/

theorem limitAliases_eq (cfg : RateLimitConfig) (aliases : List String)
    (limits : String → Option RateLimitConfig) (alias_ : String) :
    limitAliases cfg aliases limits alias_ =
      (limits alias_).or (if alias_ ∈ aliases then some cfg else none) := by
  induction aliases generalizing limits with
  | nil => simp [limitAliases]
  | cons a rest ih =>
    by_cases ha : alias_ = a
    · subst ha
      cases hlimits : limits alias_ with
      | none => simp [limitAliases, hlimits, ih]
      | some old => simp [limitAliases, hlimits, ih]
    · cases hlimits : limits a with
      | none => simp [limitAliases, hlimits, ih, ha]
      | some old => simp [limitAliases, hlimits, ih, ha]

instance (n : NodeRecord) (alias_ : String) : Decidable (Limits n alias_) :=
  inferInstanceAs (Decidable (alias_ ∈ n.aliases.getD [] ∧ ¬(n.tpm ≤ 0 ∧ n.rpm ≤ 0)))

/-- The limits of an alias are those of the first node that limits it. -/
theorem modelLimits_eq (dbNodes : List NodeRecord) (limits : String → Option RateLimitConfig)
    (alias_ : String) :
    modelLimits dbNodes limits alias_ =
      (limits alias_).or
        ((dbNodes.find? (Limits · alias_)).map fun n => { tpm := n.tpm, rpm := n.rpm }) := by
  induction dbNodes generalizing limits with
  | nil => simp [modelLimits]
  | cons n rest ih =>
    rw [modelLimits]
    by_cases hfree : n.tpm ≤ 0 ∧ n.rpm ≤ 0
    · have hnot : ¬ Limits n alias_ := fun hlimits => hlimits.2 hfree
      rw [if_pos hfree, ih, List.find?_cons_of_neg (by simpa using hnot)]
    · rw [if_neg hfree, ih, limitAliases_eq]
      by_cases hlists : alias_ ∈ n.aliases.getD []
      · have hlimits : Limits n alias_ := ⟨hlists, hfree⟩
        rw [List.find?_cons_of_pos (by simpa using hlimits)]
        simp [hlists]
      · have hnot : ¬ Limits n alias_ := fun hlimits => hlists hlimits.1
        rw [List.find?_cons_of_neg (by simpa using hnot)]
        simp [hlists]

theorem limits_of_settings {n m : NodeRecord} (h : n.settings = m.settings) {alias_ : String} :
    Limits n alias_ ↔ Limits m alias_ :=
  iff_of_eq (NodeRecord.congr_settings (Limits · alias_) (fun _ => rfl) h)

/-- The first node of a listing that limits an alias has the least name of those that do. -/
theorem least_of_find? (hlist : ListNodes float64 t dbNodes) {alias_ : String} {n : NodeRecord}
    (h : dbNodes.find? (Limits · alias_) = some n) :
    n ∈ dbNodes ∧ Limits n alias_ ∧ ∀ m ∈ dbNodes, Limits m alias_ → ¬ m.name < n.name := by
  obtain ⟨sorted, horder, rfl⟩ := hlist
  have hnames : (sorted.map (scanNode float64)).Pairwise fun a b => ¬ b.name < a.name :=
    List.pairwise_map.mpr horder.sorted
  obtain ⟨hn, before, after, hsplit, hbefore⟩ := List.find?_eq_some_iff_append.mp h
  rw [hsplit] at hnames ⊢
  refine ⟨by simp, by simpa using hn, fun m hm hlimits => ?_⟩
  rcases List.mem_append.mp hm with hm | hm
  · exact absurd hlimits (by simpa using hbefore m hm)
  · rcases List.mem_cons.mp hm with rfl | hm
    · exact lt_irrefl m.name
    · exact (List.pairwise_cons.mp (List.pairwise_append.mp hnames).2.1).1 m hm

/-- An alias is limited if and only if some node that remains limits it, enabled or not, and its
limits are then those of such a node with the least name. -/
theorem modelLimits_follow_config (h : Reconciles float64 cfg kept t t')
    (hlist : ListNodes float64 t' dbNodes) (alias_ : String) :
    (modelLimits dbNodes (fun _ => none) alias_ = none ↔
      ∀ m, Remains float64 cfg kept t m → ¬ Limits m alias_) ∧
    ∀ limits, modelLimits dbNodes (fun _ => none) alias_ = some limits →
      ∃ m, Remains float64 cfg kept t m ∧ Limits m alias_ ∧
        limits = { tpm := m.tpm, rpm := m.rpm } ∧ ∀ m', Remains float64 cfg kept t m' →
          Limits m' alias_ → ¬ m'.name < m.name := by
  simp only [modelLimits_eq, Option.none_or, Option.map_eq_none_iff, List.find?_eq_none,
    Option.map_eq_some_iff, decide_eq_true_eq]
  refine ⟨⟨fun hnone m hm hlimits => ?_, fun hnone n hn hlimits => ?_⟩, ?_⟩
  · obtain ⟨n, hn, hsettings⟩ := hm.mem hlist h
    exact hnone n hn ((limits_of_settings hsettings).mpr hlimits)
  · obtain ⟨m, hm, hsettings⟩ := remains_of_mem hlist h hn
    exact hnone m hm ((limits_of_settings hsettings).mpr hlimits)
  · rintro limits ⟨n, hfound, rfl⟩
    obtain ⟨hn, hlimits, hleast⟩ := least_of_find? hlist hfound
    obtain ⟨m, hm, hsettings⟩ := remains_of_mem hlist h hn
    refine ⟨m, hm, (limits_of_settings hsettings).mpr hlimits, ?_, fun m' hm' hlimits' => ?_⟩
    · exact NodeRecord.congr_settings (fun n => RateLimitConfig.mk n.tpm n.rpm)
        (fun _ => rfl) hsettings.symm
    obtain ⟨n', hn', hsettings'⟩ := hm'.mem hlist h
    rw [NodeRecord.congr_settings NodeRecord.name (fun _ => rfl) hsettings,
      ← NodeRecord.congr_settings NodeRecord.name (fun _ => rfl) hsettings']
    exact hleast n' hn' ((limits_of_settings hsettings').mpr hlimits')

/-- The limit of the alias is that of the disabled node, which has the smaller name. -/
theorem modelLimits_follow_moved :
    ∃ t' dbNodes, Reconciles id moved (fun _ => false) movedFrom t' ∧ ListNodes id t' dbNodes ∧
      modelLimits dbNodes (fun _ => none) "gpt" = some { rpm := 60 } := by
  obtain ⟨t', dbNodes, -, -, h, hlist, -⟩ := exists_started id moved (fun _ => false) movedFrom
  refine ⟨t', dbNodes, h, hlist, ?_⟩
  obtain ⟨hnone, hsome⟩ := modelLimits_follow_config h hlist "gpt"
  have hb : Remains id moved (fun _ => false) movedFrom (readBack id
      { id := "b", name := "b", aliases := some ["gpt", "mini"], rpm := 60, enabled := false }) :=
    .entry (List.mem_cons_of_mem _ List.mem_cons_self)
  cases hlimits : modelLimits dbNodes (fun _ => none) "gpt" with
  | none => exact absurd (by decide) (hnone.mp hlimits _ hb)
  | some limits =>
    obtain ⟨m, hm | ⟨-, -, hkept⟩, -, rfl, hleast⟩ := hsome limits hlimits
    · rcases List.mem_cons.mp hm with rfl | hm
      · exact absurd (by decide) (hleast _ hb (by decide))
      · obtain rfl := List.mem_singleton.mp hm
        rfl
    · cases hkept

end LlmProxy.Startup
