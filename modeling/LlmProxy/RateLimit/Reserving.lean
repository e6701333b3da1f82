import Mathlib.Data.Rat.Cast.Order
import Mathlib.Tactic.Linarith
import LlmProxy.RateLimit.Counters

/-! What a call of `AllowRequest` does to the counters of requests, whatever other calls do to them
in between.  The call reads the clock once; it takes a place in the counter of a limit that applies
to it, at most one in each, and gives back only places that it has.  At its end it has a place in
every such counter if it is allowed, and none if it is not. -/

namespace LlmProxy.RateLimit

open ProofKit Storage Program

/-- A counter of requests. -/
structure Slot where
  scope : Scope
  id : String
  minute : Int
  deriving DecidableEq

def Slot.key (w : Slot) : String := rpmKey w.scope w.id w.minute

theorem Slot.key_injective : Function.Injective Slot.key := by
  intro w w' h
  have hcounter : (⟨.rpm, w.scope, w.id, w.minute⟩ : Counter) =
      ⟨.rpm, w'.scope, w'.id, w'.minute⟩ :=
    Counter.key_injective h
  cases w
  cases w'
  simpa using hcounter

/-- The minute in which a call has read the clock, and the places that it has: the key of the
counter, and the count with this place. -/
structure Reservation where
  minute : Option Int := none
  held : List (String × Int) := []

/-- The places after an operation and its answer. -/
def Reservation.after (g : Reservation) : (op : Op) → op.Ans → Reservation
  | .now, t => { g with minute := some (minuteOf t) }
  | .get _, _ => g
  | .incrBy key delta _, .ok v =>
    if delta = 1 then { g with held := g.held ++ [(key, v)] }
    else { g with held := g.held.eraseP (·.1 = key) }
  | .incrBy .., .error _ => g

/-- There is a place in the counter. -/
def Reservation.holds (g : Reservation) (w : Slot) : Bool := g.held.any (·.1 = w.key)

/-- There is a place in the counter, which was one of the first `n`. -/
def Reservation.holdsWithin (g : Reservation) (w : Slot) (n : Nat) : Bool :=
  g.held.any fun p => p.1 = w.key ∧ p.2 ≤ n

def Limiter.Layer.slot (layer : Limiter.Layer) (ts : Int) : Slot :=
  { scope := layer.scope, id := layer.id, minute := ts }

/-- The counters of the limits that apply to a call in a minute. -/
def Limiter.slots (l : Limiter) (keyID modelAlias : String) (ts : Int) : List Slot :=
  ((l.rpmLayers keyID modelAlias).filter (0 < ·.limit)).map (·.slot ts)

/-- The operations that a call may do with the places that it has. -/
def Reserves (l : Limiter) (keyID modelAlias : String) (g : Reservation) : Op → Prop
  | .now => g.minute = none
  | .get _ => True
  | .incrBy key delta ttl => ttl = Limiter.ttl ∧
    ((delta = 1 ∧ key ∉ g.held.map (·.1) ∧
      ∃ ts, g.minute = some ts ∧ ∃ w ∈ l.slots keyID modelAlias ts, key = w.key) ∨
    (delta = -1 ∧ key ∈ g.held.map (·.1)))

/-- Counters of requests are never negative, and increments succeed. -/
def Answers : (op : Op) → op.Ans → Prop
  | .now, _ => True
  | .get key, r => ∀ w : Slot, w.key = key → 0 ≤ (Option.map parseInt r).getD 0
  | .incrBy .., r => ∃ v, r = .ok v

def reserving (l : Limiter) (keyID modelAlias : String) : Contract Op Op.Ans Reservation where
  allowed := Reserves l keyID modelAlias
  answers _ := Answers
  next := Reservation.after

/-- What a call has at its end. -/
def Settled (l : Limiter) (keyID modelAlias : String) (g : Reservation)
    (r : Limiter.AllowResult) : Prop :=
  if r.allowed then
    ∀ layer ∈ l.rpmLayers keyID modelAlias, 0 < layer.limit →
      ∃ ts, g.minute = some ts ∧ ∃ v, ((layer.slot ts).key, v) ∈ g.held ∧ v ≤ layer.limit
  else g.held = []

variable {l : Limiter} {keyID modelAlias : String} {g : Reservation}

/-! ### Places -/

theorem Reservation.holds_eq_true {w : Slot} : g.holds w = true ↔ w.key ∈ g.held.map (·.1) := by
  simp [holds]

theorem Reservation.after_take (key : String) (v ttl : Int) :
    g.after (.incrBy key 1 ttl) (.ok v) = { g with held := g.held ++ [(key, v)] } := by
  simp [after]

theorem Reservation.after_give (key : String) (v ttl : Int) :
    g.after (.incrBy key (-1) ttl) (.ok v) = { g with held := g.held.eraseP (·.1 = key) } := by
  simp [after]

theorem Reservation.holds_take (w : Slot) (v : Int) (w' : Slot) :
    Reservation.holds { g with held := g.held ++ [(w.key, v)] } w' =
      (g.holds w' || decide (w' = w)) := by
  simp [holds, Slot.key_injective.eq_iff, eq_comm]

theorem Reservation.holdsWithin_take (w : Slot) (v : Int) (w' : Slot) (n : Nat) :
    Reservation.holdsWithin { g with held := g.held ++ [(w.key, v)] } w' n =
      (g.holdsWithin w' n || decide (w' = w ∧ v ≤ n)) := by
  simp [holdsWithin, Slot.key_injective.eq_iff, eq_comm]

theorem mem_eraseP_of_nodup {held : List (String × Int)} (hnodup : (held.map (·.1)).Nodup)
    {key key' : String} :
    key' ∈ (held.eraseP (·.1 = key)).map (·.1) ↔ key' ∈ held.map (·.1) ∧ key' ≠ key := by
  induction held with
  | nil => simp
  | cons p rest ih =>
    obtain ⟨hnot, hrest⟩ := List.nodup_cons.mp hnodup
    by_cases hp : p.1 = key
    · rw [List.eraseP_cons_of_pos (by simpa using hp), List.map_cons, List.mem_cons]
      constructor
      · intro hmem
        refine ⟨.inr hmem, ?_⟩
        rintro rfl
        rw [← hp] at hmem
        exact hnot hmem
      · rintro ⟨hhead | hmem, hne⟩
        · exact absurd (hhead.trans hp) hne
        · exact hmem
    · rw [List.eraseP_cons_of_neg (by simpa using hp), List.map_cons, List.map_cons,
        List.mem_cons, List.mem_cons, ih hrest]
      constructor
      · rintro (rfl | ⟨hmem, hne⟩)
        · exact ⟨.inl rfl, hp⟩
        · exact ⟨.inr hmem, hne⟩
      · rintro ⟨hhead | hmem, hne⟩
        · exact .inl hhead
        · exact .inr ⟨hmem, hne⟩

/-- A place that is given back is gone, because there was only one. -/
theorem Reservation.holds_give (hnodup : (g.held.map (·.1)).Nodup) (w w' : Slot) :
    Reservation.holds { g with held := g.held.eraseP (·.1 = w.key) } w' =
      (g.holds w' && decide (w' ≠ w)) := by
  rw [Bool.eq_iff_iff, holds_eq_true, Bool.and_eq_true, holds_eq_true, decide_eq_true_eq,
    ← Slot.key_injective.ne_iff]
  exact mem_eraseP_of_nodup hnodup

theorem Reservation.holdsWithin_give {w w' : Slot} {n : Nat}
    (h : Reservation.holdsWithin { g with held := g.held.eraseP (·.1 = w.key) } w' n = true) :
    g.holdsWithin w' n = true := by
  obtain ⟨p, hp, hn⟩ := List.any_eq_true.mp h
  exact List.any_eq_true.mpr ⟨p, List.mem_of_mem_eraseP hp, hn⟩

theorem Reservation.holds_of_holdsWithin {w : Slot} {n : Nat} (h : g.holdsWithin w n = true) :
    g.holds w = true := by
  obtain ⟨p, hp, hn⟩ := List.any_eq_true.mp h
  simp only [decide_eq_true_eq] at hn
  exact List.any_eq_true.mpr ⟨p, hp, by simp [hn.1]⟩

/-! ### The code -/

theorem getCount_obeys (key : String) :
    Obeys (reserving l keyID modelAlias)
      (fun g' n => g' = g ∧ ∀ w : Slot, w.key = key → 0 ≤ n) (Limiter.getCount key) g := by
  refine obeys_call fun g' hg => ?_
  obtain rfl : g' = g := hg
  refine ⟨trivial, fun r hr => ?_⟩
  cases r with
  | none => exact ⟨rfl, fun _ _ => le_rfl⟩
  | some val => exact ⟨rfl, hr⟩

/-- `undo` of all the places leaves none. -/
theorem undo_obeys (held : List (String × Int)) (minute : Option Int) :
    Obeys (reserving l keyID modelAlias) (fun g _ => g.held = [])
      (Limiter.undo (held.map (·.1))) { minute, held } := by
  induction held with
  | nil => exact rfl
  | cons p rest ih =>
    refine obeys_call fun g' hg => ?_
    obtain rfl : g' = _ := hg
    refine ⟨⟨rfl, .inr ⟨rfl, by simp⟩⟩, ?_⟩
    rintro r ⟨v, rfl⟩
    have hafter : Reservation.after { minute, held := p :: rest }
        (.incrBy p.1 (-1) Limiter.ttl) (.ok v) = { minute, held := rest } := by
      simp [Reservation.after]
    show Obeys _ _ (Limiter.undo (rest.map (·.1)))
      (Reservation.after { minute, held := p :: rest } (.incrBy p.1 (-1) Limiter.ttl) (.ok v))
    rw [hafter]
    exact ih

/-- The count with a place that the check lets pass is within the limit. -/
theorem le_limit_of_estimated {currCount prevCount limit : Int} {weight : ℚ} (hprev : 0 ≤ prevCount)
    (hweight : weight ≤ 1) (h : ¬ (limit : ℚ) < Limiter.estimated currCount prevCount weight) :
    currCount ≤ limit := by
  have hshare : (0 : ℚ) ≤ prevCount * (1 - weight) :=
    mul_nonneg (by exact_mod_cast hprev) (by linarith)
  have : (currCount : ℚ) ≤ limit := by
    unfold Limiter.estimated at h
    linarith
  exact_mod_cast this

/-- What the loop over the limits on requests leaves. -/
def ReservedRPM (l : Limiter) (keyID modelAlias : String) (ts : Int) (g : Reservation) :
    Except Limiter.AllowResult (List String) → Prop
  | .error result => g.held = [] ∧ result.allowed = false
  | .ok incremented => incremented = g.held.map (·.1) ∧ g.minute = some ts ∧
    ∀ layer ∈ l.rpmLayers keyID modelAlias, 0 < layer.limit →
      ∃ v, ((layer.slot ts).key, v) ∈ g.held ∧ v ≤ layer.limit

/-- The places taken for the layers before one are not in its counter. -/
theorem slot_fresh {before rest : List Limiter.Layer} {layer : Limiter.Layer} {ts : Int}
    (hsplit : l.rpmLayers keyID modelAlias = before ++ layer :: rest) :
    (layer.slot ts).key ∉ (before.filter (0 < ·.limit)).map fun layer => (layer.slot ts).key := by
  intro hmem
  obtain ⟨other, hother, hkey⟩ := List.mem_map.mp hmem
  have hscope : other.scope = layer.scope := congrArg Slot.scope (Slot.key_injective hkey)
  have hnodup : ((l.rpmLayers keyID modelAlias).map (·.scope)).Nodup := by
    simp [Limiter.rpmLayers]
  rw [hsplit, List.map_append] at hnodup
  refine List.disjoint_of_nodup_append hnodup (a := layer.scope) ?_ (by simp)
  exact hscope ▸ List.mem_map_of_mem (List.mem_of_mem_filter hother)

theorem checkRPM_obeys {ts : Int} {weight : ℚ} (hweight : weight ≤ 1)
    {before layers : List Limiter.Layer} (hsplit : l.rpmLayers keyID modelAlias = before ++ layers)
    {held : List (String × Int)}
    (hkeys : held.map (·.1) = (before.filter (0 < ·.limit)).map fun layer => (layer.slot ts).key)
    (hheld : ∀ layer ∈ before, 0 < layer.limit →
      ∃ v, ((layer.slot ts).key, v) ∈ held ∧ v ≤ layer.limit) :
    Obeys (reserving l keyID modelAlias) (ReservedRPM l keyID modelAlias ts)
      (Limiter.checkRPM ts weight layers (held.map (·.1))) { minute := some ts, held } := by
  induction layers generalizing before held with
  | nil =>
    refine ⟨rfl, rfl, ?_⟩
    rw [hsplit, List.append_nil]
    exact hheld
  | cons layer rest ih =>
    have hsplit' : l.rpmLayers keyID modelAlias = (before ++ [layer]) ++ rest := by
      rw [hsplit, List.append_assoc, List.singleton_append]
    rw [Limiter.checkRPM]
    split
    · next hlimit =>
      refine ih hsplit' ?_ ?_
      · simp [hkeys, not_lt.mpr hlimit]
      · intro layer' hmem hpos
        rcases List.mem_append.mp hmem with hbefore | hlast
        · exact hheld layer' hbefore hpos
        · obtain rfl := List.mem_singleton.mp hlast
          exact absurd hpos (not_lt.mpr hlimit)
    · next hlimit =>
      refine (getCount_obeys _).bind ?_
      rintro g prevCount ⟨rfl, hprev⟩
      refine obeys_call fun g' hg => ?_
      obtain rfl : g' = _ := hg
      have hmem : layer.slot ts ∈ l.slots keyID modelAlias ts :=
        List.mem_map_of_mem (List.mem_filter.mpr ⟨by simp [hsplit], by simpa using hlimit⟩)
      refine ⟨⟨rfl, .inl ⟨rfl, hkeys ▸ slot_fresh hsplit, ts, rfl, _, hmem, rfl⟩⟩, ?_⟩
      rintro r ⟨v, rfl⟩
      have hafter : Reservation.after { minute := some ts, held }
          (.incrBy (layer.slot ts).key 1 Limiter.ttl) (.ok v) =
          { minute := some ts, held := held ++ [((layer.slot ts).key, v)] } := by
        simp [Reservation.after]
      have hmap : held.map (·.1) ++ [rpmKey layer.scope layer.id ts] =
          (held ++ [((layer.slot ts).key, v)]).map (·.1) := by
        rw [List.map_append]
        rfl
      show Obeys _ _ (if (layer.limit : ℚ) < Limiter.estimated v prevCount weight then _ else _)
        (Reservation.after { minute := some ts, held }
          (.incrBy (layer.slot ts).key 1 Limiter.ttl) (.ok v))
      rw [hafter, hmap]
      split
      · exact (undo_obeys _ _).bind fun g _ hg => ⟨hg, rfl⟩
      · next hroom =>
        refine ih hsplit' ?_ ?_
        · simp [hkeys, not_le.mp hlimit]
        · intro layer' hmem hpos
          rcases List.mem_append.mp hmem with hbefore | hlast
          · obtain ⟨v', hv', hle⟩ := hheld layer' hbefore hpos
            exact ⟨v', by simp [hv'], hle⟩
          · obtain rfl := List.mem_singleton.mp hlast
            exact ⟨v, by simp,
              le_limit_of_estimated (hprev (layer'.slot (ts - 1)) rfl) hweight hroom⟩

theorem checkTPM_obeys {ts : Int} {weight : ℚ} (layers : List Limiter.Layer)
    (held : List (String × Int)) (minute : Option Int) :
    Obeys (reserving l keyID modelAlias)
      (fun g r => match r with
        | .error result => g.held = [] ∧ result.allowed = false
        | .ok () => g = { minute, held })
      (Limiter.checkTPM ts weight (held.map (·.1)) layers) { minute, held } := by
  induction layers with
  | nil => exact rfl
  | cons layer rest ih =>
    rw [Limiter.checkTPM]
    split
    · exact ih
    · refine (getCount_obeys _).bind ?_
      rintro g currCount ⟨rfl, -⟩
      refine (getCount_obeys _).bind ?_
      rintro g prevCount ⟨rfl, -⟩
      split
      · exact (undo_obeys _ _).bind fun g _ hg => ⟨hg, rfl⟩
      · exact ih

theorem checkLayers_obeys {ts : Int} {weight : ℚ} (hweight : weight ≤ 1) :
    Obeys (reserving l keyID modelAlias) (Settled l keyID modelAlias)
      (l.checkLayers keyID modelAlias ts weight) { minute := some ts } := by
  have hkeys : ([] : List (String × Int)).map (·.1) =
      (([] : List Limiter.Layer).filter (0 < ·.limit)).map fun layer => (layer.slot ts).key := rfl
  refine (checkRPM_obeys hweight (List.nil_append _).symm hkeys (by simp)).bind ?_
  rintro ⟨minute, held⟩ (result | incremented) hreserved
  · show Settled l keyID modelAlias _ _
    simpa [Settled, hreserved.2] using hreserved.1
  · obtain ⟨rfl, rfl, hheld⟩ := hreserved
    refine (checkTPM_obeys _ held _).bind ?_
    rintro g (result | _) hchecked
    · show Settled l keyID modelAlias _ _
      simpa [Settled, hchecked.2] using hchecked.1
    · obtain rfl : g = _ := hchecked
      show Settled l keyID modelAlias _ _
      rw [Settled, if_pos rfl]
      exact fun layer hlayer hlimit => ⟨ts, rfl, hheld layer hlayer hlimit⟩

/-- A call that the early return lets through has no limit on requests. -/
theorem limit_le_of_unlimited (h : l.unlimited keyID modelAlias = true) {layer : Limiter.Layer}
    (hlayer : layer ∈ l.rpmLayers keyID modelAlias) : layer.limit ≤ 0 := by
  simp only [Limiter.unlimited, Bool.and_eq_true, decide_eq_true_eq] at h
  obtain ⟨⟨⟨⟨⟨hglobal, -⟩, hmodel⟩, -⟩, hkey⟩, -⟩ := h
  simp only [Limiter.rpmLayers, List.mem_cons, List.not_mem_nil, or_false] at hlayer
  rcases hlayer with rfl | rfl | rfl
  · exact hglobal
  · exact hmodel
  · exact hkey

theorem allowRequest_obeys (l : Limiter) (keyID modelAlias : String) :
    Obeys (reserving l keyID modelAlias) (Settled l keyID modelAlias)
      (l.allowRequest keyID modelAlias) {} := by
  rw [Limiter.allowRequest]
  split
  · next hunlimited =>
    show Settled l keyID modelAlias _ _
    rw [Settled, if_pos rfl]
    exact fun layer hlayer hlimit =>
      absurd hlimit (not_lt.mpr (limit_le_of_unlimited hunlimited hlayer))
  · refine obeys_call fun g hg => ?_
    obtain rfl : g = {} := hg
    exact ⟨rfl, fun now _ => checkLayers_obeys (secondOf_div_le_one now)⟩

end LlmProxy.RateLimit
