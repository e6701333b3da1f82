import LlmProxy.Logging.Classify
import LlmProxy.ProofKit.Keyed

/-! The table `api_keys` of `SQLiteStorage`.  Two columns are unique, the primary key `id` and
`key_value`, and `UpsertAPIKey` resolves conflicts on the first only.  Times are nanoseconds since
1970; `none` is the zero time in `createdAt` and a nil pointer in `expiresAt`. -/

namespace LlmProxy

open ProofKit

/-- `domain.APIKey`. -/
structure APIKey where
  id : String
  key : String
  name : String := ""
  enabled : Bool := true
  tpm : Int := 0
  rpm : Int := 0
  allowModels : List String := []
  createdAt : Option Int := none
  expiresAt : Option Int := none
  deriving DecidableEq

/-- What a configuration says about a key: all but its times. -/
def APIKey.settings (k : APIKey) : APIKey := { k with createdAt := none, expiresAt := none }

theorem APIKey.settings_id {k k' : APIKey} (h : k.settings = k'.settings) : k.id = k'.id :=
  show k.settings.id = k'.settings.id from congrArg _ h

theorem APIKey.settings_key {k k' : APIKey} (h : k.settings = k'.settings) : k.key = k'.key :=
  show k.settings.key = k'.settings.key from congrArg _ h

theorem APIKey.settings_enabled {k k' : APIKey} (h : k.settings = k'.settings) :
    k.enabled = k'.enabled :=
  show k.settings.enabled = k'.settings.enabled from congrArg _ h

namespace Storage

/-- The rows of `api_keys`, with both constraints. -/
structure ApiKeys extends Keyed APIKey.id where
  keyNodup : (rows.map APIKey.key).Nodup

namespace ApiKeys

instance : Membership APIKey ApiKeys where
  mem t k := k ∈ t.toKeyed

theorem mem_toKeyed {t : ApiKeys} {k : APIKey} : k ∈ t.toKeyed ↔ k ∈ t := Iff.rfl

/-- The same rows, by their values. -/
def byValue (t : ApiKeys) : Keyed APIKey.key := ⟨t.rows, t.keyNodup⟩

variable {t t' : ApiKeys} {k row : APIKey}

theorem eq_of_id (hk : k ∈ t) (hrow : row ∈ t) (h : k.id = row.id) : k = row :=
  Keyed.eq_of_key hk hrow h

theorem eq_of_value (hk : k ∈ t) (hrow : row ∈ t) (h : k.key = row.key) : k = row :=
  t.byValue.eq_of_key hk hrow h

/-- Another row has the value of the key. -/
def Taken (t : ApiKeys) (k : APIKey) : Prop := ∃ row ∈ t.rows, row.key = k.key ∧ row.id ≠ k.id

instance : Decidable (t.Taken k) := inferInstanceAs (Decidable (∃ row ∈ t.rows, _))

/-- The row that the statement of `UpsertAPIKey` writes: an update keeps `created_at`. -/
def stored (t : ApiKeys) (now : Int) (k : APIKey) : APIKey :=
  match t.get? k.id with
  | some old => { k with createdAt := old.createdAt }
  | none => { k with createdAt := some (k.createdAt.getD now) }

@[simp] theorem settings_stored (now : Int) : (t.stored now k).settings = k.settings := by
  unfold stored
  split <;> rfl

@[simp] theorem stored_id (now : Int) : (t.stored now k).id = k.id :=
  APIKey.settings_id (settings_stored now)

@[simp] theorem stored_key (now : Int) : (t.stored now k).key = k.key :=
  APIKey.settings_key (settings_stored now)

/-- A row in the place of the one with its id keeps the values unique if no other row has its
value. -/
theorem keyNodup_upsert (h : ∀ row ∈ t.rows, row.key = k.key → row.id = k.id) :
    ((t.toKeyed.upsert k).rows.map APIKey.key).Nodup := by
  refine List.Nodup.map_on (fun a ha b hb hab => ?_) (Keyed.rows_nodup _)
  rcases Keyed.mem_upsert.mp ha with rfl | ⟨hrow, hane⟩
  · rcases Keyed.mem_upsert.mp hb with rfl | ⟨hb, hbne⟩
    · rfl
    · exact absurd (h b hb hab.symm) hbne
  · rcases Keyed.mem_upsert.mp hb with rfl | ⟨hb, -⟩
    · exact absurd (h a hrow hab) hane
    · exact eq_of_value hrow hb hab

/-- `UpsertAPIKey` at the time `now`. -/
def upsertAPIKey (t : ApiKeys) (now : Int) (k : APIKey) : Except GoError ApiKeys :=
  if h : t.Taken k then .error { text := "UNIQUE constraint failed: api_keys.key_value" }
  else .ok { t.toKeyed.upsert (t.stored now k) with
    keyNodup := keyNodup_upsert fun row hrow hkey => by
      by_contra hid
      exact h ⟨row, hrow, by simpa using hkey, by simpa using hid⟩ }

/-- `DeleteAPIKey`. -/
def deleteAPIKey (t : ApiKeys) (id : String) : ApiKeys :=
  { t.toKeyed.erase id with keyNodup := t.keyNodup.sublist (List.filter_sublist.map _) }

/-- `ListAPIKeys`: its order is that of `created_at`, which leaves equal times open. -/
def listAPIKeys (t : ApiKeys) : List APIKey := t.rows

/-- `GetAPIKeyByValue`. -/
def getAPIKeyByValue (t : ApiKeys) (keyValue : String) : Option APIKey :=
  t.byValue.get? keyValue

theorem mem_deleteAPIKey {id : String} : row ∈ t.deleteAPIKey id ↔ row ∈ t ∧ row.id ≠ id :=
  Keyed.mem_erase

theorem upsertAPIKey_eq_ok {now : Int} (h : t.upsertAPIKey now k = .ok t') (row : APIKey) :
    row ∈ t' ↔ row = t.stored now k ∨ row ∈ t ∧ row.id ≠ k.id := by
  unfold upsertAPIKey at h
  split at h
  · cases h
  · obtain rfl := Except.ok.inj h
    exact Keyed.mem_upsert.trans (by rw [stored_id, mem_toKeyed])

theorem upsertAPIKey_of_taken {now : Int} (h : t.Taken k) :
    ∃ e, t.upsertAPIKey now k = .error e := by
  unfold upsertAPIKey
  rw [dif_pos h]
  exact ⟨_, rfl⟩

theorem upsertAPIKey_of_free {now : Int} (h : ¬ t.Taken k) :
    ∃ t', t.upsertAPIKey now k = .ok t' := by
  unfold upsertAPIKey
  rw [dif_neg h]
  exact ⟨_, rfl⟩

theorem getAPIKeyByValue_eq_some {keyValue : String} :
    t.getAPIKeyByValue keyValue = some row ↔ row ∈ t ∧ row.key = keyValue :=
  Keyed.get?_eq_some

end ApiKeys

end Storage

end LlmProxy
