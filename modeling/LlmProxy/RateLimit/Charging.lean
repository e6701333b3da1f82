import LlmProxy.RateLimit.Reserving

/-! What a call of `AllowRequest` does to a cache whose operations may fail.  The call increments
the counters of the limits on requests that apply to it, each at most once, and decrements only
counters that it has incremented.  A call that is not allowed has at its end only the increments
left whose decrement failed. -/

namespace LlmProxy.RateLimit

open ProofKit Storage Program

/-- The minute in which a call has read the clock, the keys that it has incremented and not
decremented, and those of them whose decrement has failed. -/
structure Charges where
  minute : Option Int := none
  held : List String := []
  kept : List String := []

/-- The charges after an operation and its answer. -/
def Charges.after (g : Charges) : (op : Op) → op.Ans → Charges
  | .now, t => { g with minute := some (minuteOf t) }
  | .get _, _ => g
  | .incrBy key delta _, .ok _ =>
    if delta = 1 then { g with held := g.held ++ [key] } else { g with held := g.held.erase key }
  | .incrBy key delta _, .error _ => if delta = 1 then g else { g with kept := g.kept ++ [key] }

/-- The operations that a call may do with the charges that it has made. -/
def Charging (l : Limiter) (keyID modelAlias : String) (g : Charges) : Op → Prop
  | .now => g.minute = none
  | .get _ => True
  | .incrBy key delta _ =>
    (delta = 1 ∧ key ∉ g.held ∧
      ∃ ts, g.minute = some ts ∧ ∃ w ∈ l.slots keyID modelAlias ts, key = w.key) ∨
    (delta = -1 ∧ key ∈ g.held)

def charging (l : Limiter) (keyID modelAlias : String) : Contract Op Op.Ans Charges where
  allowed := Charging l keyID modelAlias
  answers _ _ _ := True
  next := Charges.after

/-- Only failed decrements are left. -/
def Charges.RolledBack (g : Charges) : Prop := ∀ key, key ∈ g.held ↔ key ∈ g.kept

/-- The state of `undo` with the keys that it still has to decrement. -/
structure Charges.Undoing (g : Charges) (keys : List String) : Prop where
  held_nodup : g.held.Nodup
  keys_nodup : keys.Nodup
  held_iff : ∀ key, key ∈ g.held ↔ key ∈ g.kept ∨ key ∈ keys
  fresh : ∀ key ∈ keys, key ∉ g.kept

variable {l : Limiter} {keyID modelAlias : String} {g : Charges}

theorem Charges.Undoing.returned {key : String} {rest : List String} (h : g.Undoing (key :: rest)) :
    ({ g with held := g.held.erase key } : Charges).Undoing rest := by
  obtain ⟨hnotin, hrest⟩ := List.nodup_cons.mp h.keys_nodup
  refine ⟨h.held_nodup.erase key, hrest, fun key' => ?_, fun key' hk => h.fresh key' (by simp [hk])⟩
  rw [h.held_nodup.mem_erase_iff, h.held_iff, List.mem_cons]
  constructor
  · rintro ⟨hne, hkept | rfl | hlater⟩
    · exact .inl hkept
    · exact absurd rfl hne
    · exact .inr hlater
  · rintro (hkept | hlater)
    · exact ⟨fun heq => h.fresh key (by simp) (heq ▸ hkept), .inl hkept⟩
    · exact ⟨fun heq => hnotin (heq ▸ hlater), .inr (.inr hlater)⟩

theorem Charges.Undoing.failed {key : String} {rest : List String} (h : g.Undoing (key :: rest)) :
    ({ g with kept := g.kept ++ [key] } : Charges).Undoing rest := by
  obtain ⟨hnotin, hrest⟩ := List.nodup_cons.mp h.keys_nodup
  refine ⟨h.held_nodup, hrest, fun key' => ?_, fun key' hk => ?_⟩
  · rw [h.held_iff]
    simp only [List.mem_cons, List.mem_append, List.not_mem_nil, or_false, or_assoc]
  · intro hmem
    rcases List.mem_append.mp hmem with hkept | hlast
    · exact h.fresh key' (by simp [hk]) hkept
    · exact hnotin (List.mem_singleton.mp hlast ▸ hk)

theorem undo_charges {keys : List String} (h : g.Undoing keys) :
    Obeys (charging l keyID modelAlias) (fun g' _ => g'.RolledBack) (Limiter.undo keys) g := by
  induction keys generalizing g with
  | nil =>
    intro key
    simpa using h.held_iff key
  | cons key rest ih =>
    refine obeys_call fun g' hg => ?_
    obtain rfl : g' = g := hg
    refine ⟨.inr ⟨rfl, (h.held_iff key).mpr (by simp)⟩, fun r _ => ?_⟩
    cases r with
    | ok v => exact ih h.returned
    | error e => exact ih h.failed

/-- The charges before any failed decrement. -/
theorem undoing_all {minute : Option Int} {held : List String} (h : held.Nodup) :
    ({ minute, held } : Charges).Undoing held :=
  ⟨h, h, fun _ => by simp, fun _ _ => List.not_mem_nil⟩

theorem getCount_charges (key : String) :
    Obeys (charging l keyID modelAlias) (fun g' _ => g' = g) (Limiter.getCount key) g := by
  refine obeys_call fun g' hg => ⟨trivial, fun r _ => ?_⟩
  obtain rfl : g' = g := hg
  cases r with
  | none => exact rfl
  | some val => exact rfl

/-- What the loop over the limits on requests leaves. -/
def ChargedRPM (ts : Int) (g : Charges) : Except Limiter.AllowResult (List String) → Prop
  | .error result => g.RolledBack ∧ result.allowed = false
  | .ok incremented => incremented.Nodup ∧ g = { minute := some ts, held := incremented }

theorem checkRPM_charges {ts : Int} {weight : ℚ} {before layers : List Limiter.Layer}
    (hsplit : l.rpmLayers keyID modelAlias = before ++ layers) {held : List String}
    (hheld : held = (before.filter (0 < ·.limit)).map fun layer => (layer.slot ts).key)
    (hnodup : held.Nodup) :
    Obeys (charging l keyID modelAlias) (ChargedRPM ts)
      (Limiter.checkRPM ts weight layers held) { minute := some ts, held } := by
  induction layers generalizing before held with
  | nil => exact ⟨hnodup, rfl⟩
  | cons layer rest ih =>
    have hsplit' : l.rpmLayers keyID modelAlias = (before ++ [layer]) ++ rest := by
      rw [hsplit, List.append_assoc, List.singleton_append]
    rw [Limiter.checkRPM]
    split
    · next hlimit => exact ih hsplit' (by simp [hheld, not_lt.mpr hlimit]) hnodup
    · next hlimit =>
      refine (getCount_charges _).bind ?_
      rintro g prevCount rfl
      refine obeys_call fun g' hg => ?_
      obtain rfl : g' = _ := hg
      have hmem : layer.slot ts ∈ l.slots keyID modelAlias ts :=
        List.mem_map_of_mem (List.mem_filter.mpr ⟨by simp [hsplit], by simpa using hlimit⟩)
      have hfresh : (layer.slot ts).key ∉ held := hheld ▸ slot_fresh hsplit
      refine ⟨.inl ⟨rfl, hfresh, ts, rfl, _, hmem, rfl⟩, fun r _ => ?_⟩
      cases r with
      | error e =>
        exact (undo_charges (undoing_all hnodup)).bind fun g _ hg => ⟨hg, rfl⟩
      | ok v =>
        have hnodup' : (held ++ [(layer.slot ts).key]).Nodup :=
          hnodup.append (List.nodup_singleton _) (List.disjoint_singleton.mpr hfresh)
        have hheld' : held ++ [(layer.slot ts).key] =
            ((before ++ [layer]).filter (0 < ·.limit)).map fun layer => (layer.slot ts).key := by
          simp [hheld, not_le.mp hlimit]
        show Obeys _ _ (if (layer.limit : ℚ) < Limiter.estimated v prevCount weight then _ else _)
          ({ minute := some ts, held := held ++ [(layer.slot ts).key] } : Charges)
        split
        · exact (undo_charges (undoing_all hnodup')).bind fun g _ hg => ⟨hg, rfl⟩
        · exact ih hsplit' hheld' hnodup'

theorem checkTPM_charges {ts : Int} {weight : ℚ} (layers : List Limiter.Layer) {held : List String}
    (hnodup : held.Nodup) (minute : Option Int) :
    Obeys (charging l keyID modelAlias)
      (fun g r => match r with
        | .error result => g.RolledBack ∧ result.allowed = false
        | .ok () => True)
      (Limiter.checkTPM ts weight held layers) { minute, held } := by
  induction layers with
  | nil => trivial
  | cons layer rest ih =>
    rw [Limiter.checkTPM]
    split
    · exact ih
    · refine (getCount_charges _).bind ?_
      rintro g currCount rfl
      refine (getCount_charges _).bind ?_
      rintro g prevCount rfl
      split
      · exact (undo_charges (undoing_all hnodup)).bind fun g _ hg => ⟨hg, rfl⟩
      · exact ih

/-- A call that returns false or an error has only failed decrements left. -/
def Refunded (g : Charges) (r : Limiter.AllowResult) : Prop :=
  r.allowed = false ∨ r.err ≠ none → g.RolledBack

theorem checkLayers_charges {ts : Int} {weight : ℚ} :
    Obeys (charging l keyID modelAlias) Refunded (l.checkLayers keyID modelAlias ts weight)
      { minute := some ts } := by
  refine (checkRPM_charges (List.nil_append _).symm rfl List.nodup_nil).bind ?_
  rintro g (result | incremented) hcharged
  · exact fun _ => hcharged.1
  · obtain ⟨hnodup, rfl⟩ := hcharged
    refine (checkTPM_charges _ hnodup _).bind ?_
    rintro g (result | _) hchecked
    · exact fun _ => hchecked.1
    · intro hfailed
      simp at hfailed

theorem allowRequest_charges (l : Limiter) (keyID modelAlias : String) :
    Obeys (charging l keyID modelAlias) Refunded (l.allowRequest keyID modelAlias) {} := by
  rw [Limiter.allowRequest]
  split
  · intro hfailed
    simp at hfailed
  · refine obeys_call fun g hg => ?_
    obtain rfl : g = {} := hg
    exact ⟨rfl, fun now _ => checkLayers_charges⟩

end LlmProxy.RateLimit
