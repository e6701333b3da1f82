import LlmProxy.Auth

/-! The part of `main` that brings `api_keys` in line with the configuration: first every configured
key is upserted, in the order in which the map is visited, and then every stored key whose id is not
configured is deleted. -/

namespace LlmProxy.Startup

open ProofKit Storage

/-- The loop over `cfg.APIKeys`; `clock id` is the time at which the key `id` is written.  A
database error ends the process. -/
def initializeKeys (clock : String → Int) : List APIKey → ApiKeys → Except GoError ApiKeys
  | [], t => .ok t
  | k :: rest, t =>
    if k.key = "" then initializeKeys clock rest t
    else
      match t.upsertAPIKey (clock k.id) k with
      | .error e => .error e
      | .ok t => initializeKeys clock rest t

/-- The loop over the stored keys. -/
def removeStale (cfg : Keyed APIKey.id) : List APIKey → ApiKeys → ApiKeys
  | [], t => t
  | k :: rest, t =>
    match cfg.get? k.id with
    | some _ => removeStale cfg rest t
    | none => removeStale cfg rest (t.deleteAPIKey k.id)

/-- `order` lists the entries of `cfg` as the first loop visits them. -/
def reconcile (cfg : Keyed APIKey.id) (order : List APIKey) (clock : String → Int) (t : ApiKeys) :
    Except GoError ApiKeys :=
  (initializeKeys clock order t).map fun t => removeStale cfg t.listAPIKeys t

variable {cfg : Keyed APIKey.id} {order : List APIKey} {clock : String → Int} {t t' : ApiKeys}

/-! ### The loops -/

/-- The table after the entries with a key have been written, and no other row has changed. -/
structure Written (order : List APIKey) (t t' : ApiKeys) : Prop where
  entry : ∀ k ∈ order, k.key ≠ "" → ∃ row ∈ t', row.settings = k.settings
  other : ∀ row : APIKey, (∀ k ∈ order, k.key ≠ "" → k.id ≠ row.id) → (row ∈ t' ↔ row ∈ t)

theorem initializeKeys_written (hnodup : (order.map APIKey.id).Nodup)
    (h : initializeKeys clock order t = .ok t') : Written order t t' := by
  induction order generalizing t with
  | nil =>
    obtain rfl := Except.ok.inj h
    exact ⟨fun k hk => absurd hk List.not_mem_nil, fun row _ => Iff.rfl⟩
  | cons k rest ih =>
    obtain ⟨hfresh, hrest⟩ := List.nodup_cons.mp hnodup
    rw [initializeKeys] at h
    split at h
    · next hempty =>
      obtain ⟨hentry, hother⟩ := ih hrest h
      refine ⟨fun k' hk' hkey => ?_, fun row hrow => ?_⟩
      · rcases List.mem_cons.mp hk' with rfl | hk'
        · exact absurd hempty hkey
        · exact hentry k' hk' hkey
      · exact hother row fun k' hk' => hrow k' (by simp [hk'])
    · next hkey =>
      split at h
      · cases h
      next mid hmid =>
      have hmem := ApiKeys.upsertAPIKey_eq_ok hmid
      obtain ⟨hentry, hother⟩ := ih hrest h
      -- the row of `k` stays, as no later entry has its id
      have hkeep : ∀ k' ∈ rest, k'.key ≠ "" → k'.id ≠ (t.stored (clock k.id) k).id :=
        fun k' hk' _ heq => hfresh (List.mem_map.mpr ⟨k', hk', heq.trans (ApiKeys.stored_id _)⟩)
      refine ⟨fun k' hk' hkey => ?_, fun row hrow => ?_⟩
      · rcases List.mem_cons.mp hk' with rfl | hk'
        · exact ⟨_, (hother _ hkeep).mpr ((hmem _).mpr (.inl rfl)), ApiKeys.settings_stored _⟩
        · exact hentry k' hk' hkey
      · have hne : row.id ≠ k.id := (hrow k (by simp) hkey).symm
        rw [hother row fun k' hk' => hrow k' (by simp [hk']), hmem row]
        constructor
        · rintro (rfl | ⟨hold, -⟩)
          · exact absurd (ApiKeys.stored_id _) hne
          · exact hold
        · exact fun hold => .inr ⟨hold, hne⟩

theorem mem_removeStale {listed : List APIKey} {row : APIKey} :
    row ∈ removeStale cfg listed t ↔
      row ∈ t ∧ ∀ k ∈ listed, cfg.get? k.id = none → row.id ≠ k.id := by
  induction listed generalizing t with
  | nil => simp [removeStale]
  | cons k rest ih =>
    rw [removeStale]
    split
    · next k' hk => simp [ih, hk]
    · next hk => simp [ih, hk, ApiKeys.mem_deleteAPIKey, and_assoc]

/-- What start-up makes of a table: it writes every entry with a key, keeps a row whose entry has
none, and removes the rows without an entry. -/
structure Reconciled (cfg : Keyed APIKey.id) (t t' : ApiKeys) : Prop where
  source : ∀ row ∈ t', ∃ k ∈ cfg, k.id = row.id ∧
    (k.key ≠ "" ∧ row.settings = k.settings ∨ k.key = "" ∧ row ∈ t)
  entry : ∀ k ∈ cfg, k.key ≠ "" → ∃ row ∈ t', row.settings = k.settings
  keyless : ∀ k ∈ cfg, k.key = "" → ∀ row ∈ t, k.id = row.id → row ∈ t'

theorem removeStale_reconciled {mid : ApiKeys} (horder : order.Perm cfg.rows)
    (h : Written order t mid) : Reconciled cfg t (removeStale cfg mid.listAPIKeys mid) := by
  have hmem (row : APIKey) :
      row ∈ removeStale cfg mid.listAPIKeys mid ↔ row ∈ mid ∧ (cfg.get? row.id).isSome := by
    rw [mem_removeStale]
    refine and_congr_right fun hrow => ⟨fun hall => ?_, fun hsome k hk hnone heq => ?_⟩
    · by_contra hnone
      exact hall row hrow (by simpa using hnone) rfl
    · simp [heq, hnone] at hsome
  -- an entry without a key writes no row, and no other entry has its id
  have hskip {k row : APIKey} (hk : k ∈ cfg) (hkey : k.key = "") (hid : k.id = row.id) :
      row ∈ mid ↔ row ∈ t := by
    refine h.other row fun k' hk' hkey' hid' => hkey' ?_
    rw [cfg.eq_of_key (horder.mem_iff.mp hk') hk (hid'.trans hid.symm), hkey]
  constructor
  · intro row hrow
    obtain ⟨hmid, hsome⟩ := (hmem row).mp hrow
    obtain ⟨k, hfound⟩ := Option.isSome_iff_exists.mp hsome
    obtain ⟨hk, hid⟩ := Keyed.get?_eq_some.mp hfound
    refine ⟨k, hk, hid, ?_⟩
    by_cases hkey : k.key = ""
    · exact .inr ⟨hkey, (hskip hk hkey hid).mp hmid⟩
    · obtain ⟨row', hrow', hset⟩ := h.entry k (horder.mem_iff.mpr hk) hkey
      have hsame : row' = row := mid.eq_of_id hrow' hmid ((APIKey.settings_id hset).trans hid)
      exact .inl ⟨hkey, hsame ▸ hset⟩
  · intro k hk hkey
    obtain ⟨row, hrow, hset⟩ := h.entry k (horder.mem_iff.mpr hk) hkey
    have hfound : cfg.get? row.id = some k :=
      Keyed.get?_eq_some.mpr ⟨hk, (APIKey.settings_id hset).symm⟩
    exact ⟨row, (hmem row).mpr ⟨hrow, by simp [hfound]⟩, hset⟩
  · intro k hk hkey row hrow hid
    have hfound : cfg.get? row.id = some k := Keyed.get?_eq_some.mpr ⟨hk, hid⟩
    exact (hmem row).mpr ⟨(hskip hk hkey hid).mpr hrow, by simp [hfound]⟩

theorem reconcile_reconciled (horder : order.Perm cfg.rows)
    (h : reconcile cfg order clock t = .ok t') : Reconciled cfg t t' := by
  cases hinit : initializeKeys clock order t with
  | error e => simp [reconcile, hinit, Except.map] at h
  | ok mid =>
    rw [reconcile, hinit, Except.map] at h
    obtain rfl := Except.ok.inj h
    exact removeStale_reconciled horder
      (initializeKeys_written ((horder.map _).nodup_iff.mpr cfg.nodup) hinit)

/-! ### The table that start-up leaves -/

/-- A configured value that is stored already is stored under the configured id. -/
def Kept (cfg : Keyed APIKey.id) (t : ApiKeys) : Prop :=
  ∀ k ∈ cfg.rows, ∀ row ∈ t.rows, row.key = k.key → row.id = k.id

theorem initializeKeys_ok (clock : String → Int) (hkeys : (order.map APIKey.key).Nodup)
    (hfree : ∀ k ∈ order, ∀ row ∈ t, row.key = k.key → row.id = k.id) :
    ∃ t', initializeKeys clock order t = .ok t' := by
  induction order generalizing t with
  | nil => exact ⟨t, rfl⟩
  | cons k rest ih =>
    obtain ⟨hfresh, hrest⟩ := List.nodup_cons.mp hkeys
    rw [initializeKeys]
    split
    · exact ih hrest fun k' hk' => hfree k' (by simp [hk'])
    · have hnot : ¬ t.Taken k := fun ⟨row, hrow, hkey, hid⟩ => hid (hfree k (by simp) row hrow hkey)
      obtain ⟨mid, hmid⟩ := ApiKeys.upsertAPIKey_of_free hnot
      rw [hmid]
      refine ih hrest fun k' hk' row hrow hkey => ?_
      rcases (ApiKeys.upsertAPIKey_eq_ok hmid row).mp hrow with rfl | ⟨hold, -⟩
      · exact absurd (List.mem_map.mpr ⟨k', hk', hkey.symm.trans (ApiKeys.stored_key _)⟩) hfresh
      · exact hfree k' (by simp [hk']) row hold hkey

/-- A value that is stored under another id stops the process when its entry comes first. -/
theorem initializeKeys_error {k : APIKey} (rest : List APIKey) (clock : String → Int)
    (hkey : k.key ≠ "") (htaken : t.Taken k) :
    ∃ e, initializeKeys clock (k :: rest) t = .error e := by
  obtain ⟨e, he⟩ := ApiKeys.upsertAPIKey_of_taken htaken
  exact ⟨e, by rw [initializeKeys, if_neg hkey, he]⟩

/-- With a key for every entry, the rows of the table are those of the configuration. -/
theorem Reconciled.perm (h : Reconciled cfg t t') (hkeys : ∀ k ∈ cfg.rows, k.key ≠ "") :
    (t'.rows.map APIKey.settings).Perm (cfg.rows.map APIKey.settings) := by
  have hnodup (rows : Keyed APIKey.id) : (rows.rows.map APIKey.settings).Nodup :=
    rows.rows_nodup.map_on fun a ha b hb hab => rows.eq_of_key ha hb (APIKey.settings_id hab)
  refine (List.perm_ext_iff_of_nodup (hnodup t'.toKeyed) (hnodup cfg)).mpr fun k => ?_
  simp only [List.mem_map]
  constructor
  · rintro ⟨row, hrow, rfl⟩
    obtain ⟨k, hk, -, ⟨-, hset⟩ | ⟨hkey, -⟩⟩ := h.source row hrow
    · exact ⟨k, hk, hset.symm⟩
    · exact absurd hkey (hkeys k hk)
  · rintro ⟨k, hk, rfl⟩
    exact h.entry k hk (hkeys k hk)

/-- Start-up ends with exactly the configured keys, whatever the order in which it visits them, if
and only if no configured value is stored under another id. -/
theorem reconcile_exact_iff (cfg : Keyed APIKey.id) (t : ApiKeys)
    (hkeys : ∀ k ∈ cfg.rows, k.key ≠ "") (hdistinct : (cfg.rows.map APIKey.key).Nodup) :
    (∀ (order : List APIKey) (clock : String → Int), order.Perm cfg.rows →
      ∃ t', reconcile cfg order clock t = .ok t' ∧
        (t'.rows.map APIKey.settings).Perm (cfg.rows.map APIKey.settings)) ↔
      Kept cfg t := by
  constructor
  · intro hall k hk row hrow hkey
    by_contra hid
    obtain ⟨t', hok, -⟩ := hall _ (fun _ => 0) (List.perm_cons_erase hk).symm
    obtain ⟨e, he⟩ := initializeKeys_error (cfg.rows.erase k) (fun _ => 0) (hkeys k hk)
      ⟨row, hrow, hkey, hid⟩
    simp [reconcile, he, Except.map] at hok
  · intro hkept order clock horder
    obtain ⟨mid, hmid⟩ := initializeKeys_ok clock ((horder.map _).nodup_iff.mpr hdistinct)
      fun k hk => hkept k (horder.mem_iff.mp hk)
    have hok : reconcile cfg order clock t = .ok (removeStale cfg mid.listAPIKeys mid) := by
      rw [reconcile, hmid, Except.map]
    exact ⟨_, hok, (reconcile_reconciled horder hok).perm hkeys⟩

/-- A configuration and a table with an old value, and with a stale row. -/
def rotated : Keyed APIKey.id :=
  ⟨[{ id := "a", key := "v2" }, { id := "b", key := "v3" }], by decide⟩

def rotatedFrom : ApiKeys :=
  ⟨⟨[{ id := "a", key := "v1" }, { id := "c", key := "v0" }], by decide⟩, by decide⟩

theorem reconcile_exact_rotated :
    ∃ t', reconcile rotated rotated.rows.reverse (fun _ => 5) rotatedFrom = .ok t' ∧
      (t'.rows.map APIKey.settings).Perm (rotated.rows.map APIKey.settings) :=
  (reconcile_exact_iff rotated rotatedFrom (by decide) (by decide)).mpr (by unfold Kept; decide) _ _
    (List.reverse_perm _)

/-- A configuration that has given a stored key another id. -/
def renamed : Keyed APIKey.id := ⟨[{ id := "new", key := "v" }], by decide⟩

def renamedFrom : ApiKeys := ⟨⟨[{ id := "old", key := "v" }], by decide⟩, by decide⟩

/-- The upsert of the key under its new id fails, because the row under the old one is only deleted
after it. -/
theorem reconcile_renamed_fails :
    (∀ k ∈ renamed.rows, k.key ≠ "") ∧ (renamed.rows.map APIKey.key).Nodup ∧
      reconcile renamed renamed.rows (fun _ => 0) renamedFrom =
        .error { text := "UNIQUE constraint failed: api_keys.key_value" } :=
  ⟨by decide, by decide, rfl⟩

/-! ### Who may authenticate -/

/-- The look-up in the table. -/
def lookUp (t : ApiKeys) (value : String) : Except GoError (Option APIKey) :=
  .ok (t.getAPIKeyByValue value)

/-- The configuration has an enabled entry with the token. -/
def Granted (cfg : Keyed APIKey.id) (token : String) : Prop :=
  ∃ k ∈ cfg.rows, k.key = token ∧ k.enabled = true

/-- After start-up only tokens of the configuration authenticate, exactly when no row whose entry
has no key, and which start-up therefore neither writes nor removes, does so with another value. -/
theorem authenticated_granted_iff (horder : order.Perm cfg.rows)
    (h : reconcile cfg order clock t = .ok t') (now : Int) :
    (∀ token key, Auth.authenticate (lookUp t') now token = .ok key → Granted cfg token) ↔
      ∀ k ∈ cfg.rows, k.key = "" → ∀ row ∈ t.rows, row.id = k.id →
        row.enabled = true → row.expired now = false → Granted cfg row.key := by
  have hreconciled := reconcile_reconciled horder h
  have hfound {token : String} {row : APIKey} :
      lookUp t' token = .ok (some row) ↔ row ∈ t' ∧ row.key = token := by
    rw [lookUp, Except.ok.injEq, ApiKeys.getAPIKeyByValue_eq_some]
  constructor
  · intro hall k hk hkey row hrow hid henabled hexpired
    have hkept : row ∈ t' := hreconciled.keyless k hk hkey row hrow hid.symm
    exact hall row.key row
      (Auth.authenticate_eq_ok.mpr ⟨hfound.mpr ⟨hkept, rfl⟩, henabled, hexpired⟩)
  · intro hold token row hok
    obtain ⟨hlook, henabled, hexpired⟩ := Auth.authenticate_eq_ok.mp hok
    obtain ⟨hrow, rfl⟩ := hfound.mp hlook
    obtain ⟨k, hk, hid, ⟨-, hset⟩ | ⟨hkey, hrow⟩⟩ := hreconciled.source row hrow
    · exact ⟨k, hk, (APIKey.settings_key hset).symm,
        (APIKey.settings_enabled hset).symm.trans henabled⟩
    · exact hold k hk hkey row hrow hid.symm henabled hexpired

theorem authenticated_granted_rotated :
    ∃ t', reconcile rotated rotated.rows (fun _ => 5) rotatedFrom = .ok t' ∧
      ∀ token key, Auth.authenticate (lookUp t') 9 token = .ok key → Granted rotated token := by
  obtain ⟨t', ht'⟩ : ∃ t', reconcile rotated rotated.rows (fun _ => 5) rotatedFrom = .ok t' :=
    ⟨_, rfl⟩
  exact ⟨t', ht',
    (authenticated_granted_iff (List.Perm.refl _) ht' 9).mpr (by unfold Granted; decide)⟩

/-- A configuration whose only entry is disabled and has lost its key. -/
def keyless : Keyed APIKey.id := ⟨[{ id := "a", key := "", enabled := false }], by decide⟩

def keylessFrom : ApiKeys := ⟨⟨[{ id := "a", key := "secret" }], by decide⟩, by decide⟩

/-- The row of the entry stays as it was, so that its old value still authenticates. -/
theorem keyless_still_authenticates :
    ∃ t' key, reconcile keyless keyless.rows (fun _ => 0) keylessFrom = .ok t' ∧
      Auth.authenticate (lookUp t') 0 "secret" = .ok key ∧ ¬ Granted keyless "secret" :=
  ⟨_, _, rfl, rfl, by unfold Granted; decide⟩

end LlmProxy.Startup
