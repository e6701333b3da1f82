import LlmProxy.RateLimit.Limiter

/-! The limiter's counters: one for each kind, scope, id and minute, each under a key of its own.
`Tracks` says that a cache counts a usage in such counters, as long as it keeps them: a counter is
there until its deadline, which lies in a later minute than its own. -/

namespace LlmProxy.RateLimit

open ProofKit Storage

structure Counter where
  kind : Kind
  scope : Scope
  id : String
  minute : Int
  deriving DecidableEq

def Counter.key (w : Counter) : String := windowKey w.kind w.scope w.id w.minute

/-! ### Keys -/

theorem append_colon_inj {front front' digits digits' : List Char} (hd : ':' ∉ digits)
    (hd' : ':' ∉ digits') (h : front ++ ':' :: digits = front' ++ ':' :: digits') :
    front = front' ∧ digits = digits' := by
  rcases List.append_eq_append_iff.mp h with ⟨part, rfl, hpart⟩ | ⟨part, rfl, hpart⟩
  · cases part with
    | nil => simpa using hpart
    | cons c part => exact absurd (by simp [(List.cons.inj hpart).2]) hd
  · cases part with
    | nil => simpa using hpart.symm
    | cons c part => exact absurd (by simp [(List.cons.inj hpart).2]) hd'

/-- The part of a key that names the id, which an empty id lacks. -/
def keyId (id : String) : List Char := if id = "" then [] else ':' :: id.toList

/-- A key up to the minute. -/
def keyFront (kind : Kind) (scope : Scope) (id : String) : List Char :=
  kind.text.toList ++ (':' :: scope.text.toList ++ keyId id)

theorem windowKey_toList (kind : Kind) (scope : Scope) (id : String) (ts : Int) :
    (windowKey kind scope id ts).toList = keyFront kind scope id ++ ':' ::
      (formatInt ts).toList := by
  unfold windowKey keyFront keyId
  split <;> simp

theorem keyId_inj {id id' : String} (h : keyId id = keyId id') : id = id' := by
  unfold keyId at h
  split at h <;> split at h <;> simp_all [String.toList_inj]

theorem keyFront_inj {kind kind' : Kind} {scope scope' : Scope} {id id' : String}
    (h : keyFront kind scope id = keyFront kind' scope' id') :
    kind = kind' ∧ scope = scope' ∧ id = id' := by
  have hlength : kind.text.toList.length = kind'.text.toList.length := by
    cases kind <;> cases kind' <;> simp [Kind.text]
  obtain ⟨hkind, hrest⟩ := List.append_inj h hlength
  have hscope : scope = scope' ∧ keyId id = keyId id' := by
    -- the texts of the scopes differ in their first letter
    cases scope <;> cases scope' <;> simp_all [Scope.text]
  refine ⟨?_, hscope.1, keyId_inj hscope.2⟩
  cases kind <;> cases kind' <;> simp_all [Kind.text]

theorem Counter.key_injective : Function.Injective Counter.key := by
  intro w w' h
  have hlist := congrArg String.toList h
  rw [Counter.key, Counter.key, windowKey_toList, windowKey_toList] at hlist
  obtain ⟨hfront, hts⟩ :=
    append_colon_inj (colon_notMem_formatInt _) (colon_notMem_formatInt _) hlist
  obtain ⟨hkind, hscope, hid⟩ := keyFront_inj hfront
  have hminute := formatInt_injective (String.toList_inj.mp hts)
  cases w
  cases w'
  simp_all

/-! ### Layers -/

/-- The id that a call has in a scope. -/
def Scope.idOf (keyID modelAlias : String) : Scope → String
  | global => ""
  | model => modelAlias
  | key => keyID

def Limiter.rpmLimit (l : Limiter) : Scope → String → Int
  | .global, _ => l.global.rpm
  | .model, id => l.modelRPM id
  | .key, id => l.keyRPM id

theorem mem_rpmLayers {l : Limiter} {keyID modelAlias : String} {layer : Limiter.Layer}
    (h : layer ∈ l.rpmLayers keyID modelAlias) :
    layer.id = layer.scope.idOf keyID modelAlias ∧
      layer.limit = l.rpmLimit layer.scope layer.id := by
  simp only [Limiter.rpmLayers, List.mem_cons, List.not_mem_nil, or_false] at h
  rcases h with rfl | rfl | rfl <;> exact ⟨rfl, rfl⟩

/-! ### Minutes -/

theorem minuteOf_mono {now later : Nat} (h : now ≤ later) : minuteOf now ≤ minuteOf later := by
  have := Nat.div_le_div_right (c := 60) (Nat.div_le_div_right (c := second) h)
  exact Int.ofNat_le.mpr this

/-- The time to live of a counter reaches into the next minute. -/
theorem minuteOf_lt_deadline (now : Nat) : minuteOf now < minuteOf (now + Limiter.ttl.toNat) := by
  simp only [minuteOf, Limiter.ttl, second, Int.ofNat_eq_natCast]
  omega

/-- The share of the minute that has passed. -/
theorem secondOf_div_le_one (now : Nat) : (secondOf now / 60 : ℚ) ≤ 1 := by
  have hlt : secondOf now < 60 := Nat.mod_lt _ (by decide)
  have hle : (secondOf now : ℚ) ≤ 60 := by exact_mod_cast hlt.le
  exact div_le_one_of_le₀ hle (Nat.ofNat_nonneg 60)

/-! ### Usage in a cache -/

/-- The cache counts the usage: a counter that is there shows its usage, and one that is not there
has none if it is still open. -/
structure Tracks {ι : Type} (key : ι → String) (minute : ι → Int) (isOpen : ι → Prop) (now : Nat)
    (c : MemoryCache) (usage : ι → Int) : Prop where
  stored : ∀ w e, c.live now (key w) = some e → e.value = formatInt (usage w) ∧
    FitsInt64 (usage w) ∧ ∃ deadline, e.expireAt = some deadline ∧ minute w < minuteOf deadline
  absent : ∀ w, c.live now (key w) = none → isOpen w → usage w = 0

namespace Tracks

variable {ι : Type} {key : ι → String} {minute : ι → Int} {isOpen : ι → Prop}
  {now : Nat} {c : MemoryCache} {usage : ι → Int} {w : ι}

theorem empty (isOpen : ι → Prop) (now : Nat) : Tracks key minute isOpen now {} fun _ => 0 where
  stored w e h := by simp [MemoryCache.live] at h
  absent w _ _ := rfl

theorem count_eq (h : Tracks key minute isOpen now c usage)
    (hseen : (c.live now (key w)).isSome ∨ isOpen w) : c.count now (key w) = usage w := by
  cases hlive : c.live now (key w) with
  | some e =>
    obtain ⟨hvalue, hfits, -⟩ := h.stored w e hlive
    rw [MemoryCache.count_of_live hlive, hvalue, parseInt_formatInt hfits]
  | none =>
    rw [MemoryCache.count_of_none hlive,
      h.absent w hlive (hseen.resolve_left (by simp [hlive]))]

/-- A counter that is not there counts nothing. -/
theorem count_cases (h : Tracks key minute isOpen now c usage) (w : ι) :
    c.count now (key w) = usage w ∨ c.count now (key w) = 0 := by
  cases hlive : c.live now (key w) with
  | some e => exact .inl (h.count_eq (.inl (by simp [hlive])))
  | none => exact .inr (MemoryCache.count_of_none hlive)

theorem put_frame (h : Tracks key minute isOpen now c usage) {k : String} (hk : ∀ w, key w ≠ k)
    (e : Option CacheEntry) : Tracks key minute isOpen now (c.put k e) usage where
  stored w e' := by
    rw [MemoryCache.live_put_of_ne (hk w)]
    exact h.stored w e'
  absent w := by
    rw [MemoryCache.live_put_of_ne (hk w)]
    exact h.absent w

/-- An increment of a key that is none of the counters changes none of them. -/
theorem incrBy_frame (h : Tracks key minute isOpen now c usage) {k : String} (hk : ∀ w, key w ≠ k)
    (delta ttl : Int) : Tracks key minute isOpen now (c.incrBy now k delta ttl).2 usage := by
  unfold MemoryCache.incrBy
  split <;> exact h.put_frame hk _

/-- The counter with a new value. -/
theorem put_self [DecidableEq ι] (h : Tracks key minute isOpen now c usage)
    (hkey : Function.Injective key) {x : Int} (hfits : FitsInt64 x) {e : CacheEntry}
    (hvalue : e.value = formatInt x) (hlive : e.expired now = false)
    (hdeadline : ∃ deadline, e.expireAt = some deadline ∧ minute w < minuteOf deadline) :
    Tracks key minute isOpen now (c.put (key w) (some e)) (Function.update usage w x) where
  stored w' e' := by
    by_cases hw : w' = w
    · subst hw
      rw [MemoryCache.live_put_self, Function.update_self, hlive]
      rintro ⟨⟩
      exact ⟨hvalue, hfits, hdeadline⟩
    · rw [MemoryCache.live_put_of_ne (hkey.ne hw), Function.update_of_ne hw]
      exact h.stored w' e'
  absent w' := by
    by_cases hw : w' = w
    · subst hw
      simp [hlive]
    · rw [MemoryCache.live_put_of_ne (hkey.ne hw), Function.update_of_ne hw]
      exact h.absent w'

/-- An increment of an open counter. -/
theorem incrBy [DecidableEq ι] (h : Tracks key minute isOpen now c usage)
    (hkey : Function.Injective key) (hopen : isOpen w) (hpast : minute w ≤ minuteOf now)
    {delta : Int} (hfits : FitsInt64 (usage w + delta)) :
    (c.incrBy now (key w) delta Limiter.ttl).1 = usage w + delta ∧
      Tracks key minute isOpen now (c.incrBy now (key w) delta Limiter.ttl).2
        (Function.update usage w (usage w + delta)) := by
  unfold MemoryCache.incrBy
  cases hlive : c.live now (key w) with
  | none =>
    have hzero : usage w = 0 := h.absent w hlive hopen
    rw [hzero, zero_add] at hfits ⊢
    have hdeadline : deadlineOf now Limiter.ttl = some (now + Limiter.ttl.toNat) := rfl
    refine ⟨rfl, h.put_self hkey hfits rfl ?_ ⟨_, hdeadline, ?_⟩⟩
    · simp [CacheEntry.expired, hdeadline]
    · exact lt_of_le_of_lt hpast (minuteOf_lt_deadline now)
  | some e =>
    obtain ⟨hvalue, husage, hdeadline⟩ := h.stored w e hlive
    have hcurrent : (if e.value = "" then 0 else parseInt e.value) = usage w := by
      rw [← parseInt_formatInt husage, ← hvalue]
      split
      · next hempty => rw [hempty]; rfl
      · rfl
    simp only [hcurrent, wrapInt64_of_fits hfits, true_and]
    exact h.put_self hkey hfits rfl (MemoryCache.live_eq_some.mp hlive).2 hdeadline

/-- Time passes, and no counter that stays open expires. -/
theorem advance (h : Tracks key minute isOpen now c usage) {later : Nat} {isOpen' : ι → Prop}
    (hle : now ≤ later) (hopen : ∀ w, isOpen' w → isOpen w)
    (hkeep : ∀ w e, c.live now (key w) = some e → isOpen' w → e.expired later = false) :
    Tracks key minute isOpen' later c usage where
  stored w e hlive := h.stored w e (MemoryCache.live_of_le hle hlive)
  absent w hnone hw := by
    cases hlive : c.live now (key w) with
    | none => exact h.absent w hlive (hopen w hw)
    | some e =>
      have hlater : c.live later (key w) = some e :=
        MemoryCache.live_eq_some.mpr ⟨(MemoryCache.live_eq_some.mp hlive).1, hkeep w e hlive hw⟩
      simp [hlater] at hnone

theorem weaken (h : Tracks key minute isOpen now c usage) {isOpen' : ι → Prop} {usage' : ι → Int}
    (hopen : ∀ w, isOpen' w → isOpen w) (husage : ∀ w, usage' w = usage w) :
    Tracks key minute isOpen' now c usage' where
  stored w e hlive := husage w ▸ h.stored w e hlive
  absent w hnone hw := (husage w).trans (h.absent w hnone (hopen w hw))

theorem sweep (h : Tracks key minute isOpen now c usage) :
    Tracks key minute isOpen now (c.sweep now) usage where
  stored w e := by
    rw [MemoryCache.live_sweep]
    exact h.stored w e
  absent w := by
    rw [MemoryCache.live_sweep]
    exact h.absent w

/-- A counter does not expire in its own minute. -/
theorem not_expired (h : Tracks key minute isOpen now c usage) {e : CacheEntry}
    (hlive : c.live now (key w) = some e) {later : Nat} (hw : minuteOf later ≤ minute w) :
    e.expired later = false := by
  obtain ⟨-, -, deadline, hdeadline, hminute⟩ := h.stored w e hlive
  have hlater : ¬ deadline < later := fun hlt => by
    have := minuteOf_mono hlt.le
    omega
  simp [CacheEntry.expired, hdeadline, hlater]

end Tracks

end LlmProxy.RateLimit
