import Mathlib.Data.List.Nodup
import Mathlib.Tactic.Ring
import LlmProxy.RateLimit.Counters

/-! A call of the limiter that runs to its end at one time of the clock, over a cache that tracks a
usage: what `AllowRequest` decides, and the usage that the cache tracks after it and after
`RecordTokens`. -/

namespace LlmProxy.RateLimit

open ProofKit Storage Program

/-- The cache tracks the usage, and the counters of this minute and the later ones are open. -/
def Tallies (clock : Nat) (c : MemoryCache) (usage : Counter → Int) : Prop :=
  Tracks Counter.key Counter.minute (minuteOf clock ≤ ·.minute) clock c usage

/-- The caches show the same in every minute but that of the clock. -/
def SameBefore (clock : Nat) (c c' : MemoryCache) : Prop :=
  ∀ w : Counter, w.minute ≠ minuteOf clock → c'.live clock w.key = c.live clock w.key

/-- The usage after `delta` more in each of the counters. -/
def raised (delta : Int) (usage : Counter → Int) (ws : List Counter) (w : Counter) : Int :=
  usage w + delta * ws.count w

variable {clock : Nat} {c c₀ : MemoryCache} {usage : Counter → Int} {delta : Int}

theorem raised_nil : raised delta usage [] = usage := by
  funext w
  simp [raised]

theorem raised_of_notMem {ws : List Counter} {w : Counter} (h : w ∉ ws) :
    raised delta usage ws w = usage w := by
  simp [raised, List.count_eq_zero_of_not_mem h]

theorem raised_cons (ws : List Counter) (w : Counter) :
    Function.update (raised delta usage ws) w (raised delta usage ws w + delta) =
      raised delta usage (w :: ws) := by
  funext w'
  by_cases h : w' = w
  · subst h
    simp only [raised, Function.update_self, List.count_cons_self]
    push_cast
    ring
  · simp [raised, h, Ne.symm h]

theorem raised_concat (ws : List Counter) (w : Counter) :
    Function.update (raised delta usage ws) w (raised delta usage ws w + delta) =
      raised delta usage (ws ++ [w]) := by
  rw [raised_cons]
  funext w'
  rw [raised, raised, (List.perm_append_singleton w ws).count_eq]

/-- What is taken back from a counter is no longer counted. -/
theorem raised_tail (ws : List Counter) (w : Counter) :
    Function.update (raised delta usage (w :: ws)) w (raised delta usage (w :: ws) w + -delta) =
      raised delta usage ws := by
  rw [← raised_cons, Function.update_idem, Function.update_self, add_neg_cancel_right,
    Function.update_eq_self]

theorem raised_update (ws : List Counter) (w : Counter) :
    raised delta (Function.update usage w (usage w + delta)) ws =
      raised delta usage (w :: ws) := by
  rw [← raised_cons]
  funext w'
  by_cases h : w' = w
  · subst h
    simp only [raised, Function.update_self]
    ring
  · simp [raised, h]

/-! ### Operations -/

theorem SameBefore.refl : SameBefore clock c c := fun _ _ => rfl

theorem SameBefore.incrBy {w : Counter} (h : SameBefore clock c₀ c) (hw : w.minute = minuteOf clock)
    (delta ttl : Int) : SameBefore clock c₀ (c.incrBy clock w.key delta ttl).2 := by
  intro w' hw'
  have hne : w'.key ≠ w.key := Counter.key_injective.ne (by rintro rfl; exact hw' hw)
  rw [← h w' hw']
  unfold MemoryCache.incrBy
  split <;> exact MemoryCache.live_put_of_ne hne _

theorem SameBefore.count_eq {w : Counter} (h : SameBefore clock c₀ c)
    (hw : w.minute ≠ minuteOf clock) : c.count clock w.key = c₀.count clock w.key := by
  simp [MemoryCache.count, MemoryCache.get, h w hw]

theorem Tallies.count_eq (h : Tallies clock c usage) {w : Counter}
    (hw : w.minute = minuteOf clock) : c.count clock w.key = usage w :=
  Tracks.count_eq h (.inr hw.ge)

theorem run_eval (op : Op) : eval (serve clock) op.run c = serve clock op c := rfl

theorem getCount_run (key : String) :
    eval (serve clock) (Limiter.getCount key) c = (c.count clock key, c) := by
  have hserve : serve clock (.get key) c = (c.get clock key, c) := rfl
  rw [Limiter.getCount, eval_bind, run_eval, hserve]
  unfold MemoryCache.count
  cases c.get clock key <;> rfl

theorem Tallies.incrBy (h : Tallies clock c usage) {w : Counter} (hw : w.minute = minuteOf clock)
    {delta : Int} (hfits : FitsInt64 (usage w + delta)) :
    (c.incrBy clock w.key delta Limiter.ttl).1 = usage w + delta ∧
      Tallies clock (c.incrBy clock w.key delta Limiter.ttl).2
        (Function.update usage w (usage w + delta)) :=
  Tracks.incrBy h Counter.key_injective hw.ge hw.le hfits

/-- `undo` takes back one increment of each counter. -/
theorem undo_run {ws : List Counter} (hc : Tallies clock c (raised 1 usage ws))
    (hsame : SameBefore clock c₀ c) (hnodup : ws.Nodup)
    (hws : ∀ w ∈ ws, w.minute = minuteOf clock ∧ FitsInt64 (usage w)) :
    Tallies clock (eval (serve clock) (Limiter.undo (ws.map Counter.key)) c).2 usage ∧
      SameBefore clock c₀ (eval (serve clock) (Limiter.undo (ws.map Counter.key)) c).2 := by
  induction ws generalizing c with
  | nil =>
    rw [raised_nil] at hc
    exact ⟨hc, hsame⟩
  | cons w ws ih =>
    obtain ⟨hnot, hnodup⟩ := List.nodup_cons.mp hnodup
    have hhead := hws w (by simp)
    have hvalue : raised 1 usage (w :: ws) w + -1 = usage w := by
      simp [raised, List.count_eq_zero_of_not_mem hnot]
    have htally := (hc.incrBy hhead.1 (by rw [hvalue]; exact hhead.2)).2
    rw [raised_tail] at htally
    rw [List.map_cons, Limiter.undo, eval_bind, run_eval]
    exact ih htally (hsame.incrBy hhead.1 _ _) hnodup fun w' hw' => hws w' (by simp [hw'])

/-! ### The loops -/

def Limiter.Layer.counter (layer : Limiter.Layer) (kind : Kind) (minute : Int) : Counter :=
  { kind, scope := layer.scope, id := layer.id, minute }

/-- The counters of the limits on requests that apply. -/
def charged (ts : Int) (layers : List Limiter.Layer) : List Counter :=
  (layers.filter (0 < ·.limit)).map (·.counter .rpm ts)

/-- A limit on requests leaves room for one more, where the cache shows the minute before. -/
def RoomRPM (clock : Nat) (c₀ : MemoryCache) (usage : Counter → Int) (weight : ℚ)
    (layer : Limiter.Layer) : Prop :=
  0 < layer.limit →
    Limiter.estimated (usage (layer.counter .rpm (minuteOf clock)) + 1)
      (c₀.count clock (layer.counter .rpm (minuteOf clock - 1)).key) weight ≤ layer.limit

/-- What the loop over the limits on requests has done when it ends. -/
def CheckedRPM (clock : Nat) (c₀ : MemoryCache) (usage : Counter → Int) (weight : ℚ)
    (layers : List Limiter.Layer) (ws : List Counter) :
    Except Limiter.AllowResult (List String) → MemoryCache → Prop
  | .ok incremented, c =>
    (∀ layer ∈ layers, RoomRPM clock c₀ usage weight layer) ∧
      incremented = (ws ++ charged (minuteOf clock) layers).map Counter.key ∧
      Tallies clock c (raised 1 usage (ws ++ charged (minuteOf clock) layers))
  | .error result, c =>
    result.allowed = false ∧ ¬ (∀ layer ∈ layers, RoomRPM clock c₀ usage weight layer) ∧
      Tallies clock c usage

/-- The counters of a call are different ones of this minute, and one more fits in each. -/
structure Chargeable (clock : Nat) (usage : Counter → Int) (ws : List Counter) : Prop where
  nodup : ws.Nodup
  minute : ∀ w ∈ ws, w.minute = minuteOf clock
  fits : ∀ w ∈ ws, 0 ≤ usage w ∧ usage w + 1 < 2 ^ 63

theorem Chargeable.sublist {ws ws' : List Counter} (h : Chargeable clock usage ws)
    (hsub : ws'.Sublist ws) : Chargeable clock usage ws' :=
  ⟨h.nodup.sublist hsub, fun w hw => h.minute w (hsub.subset hw),
    fun w hw => h.fits w (hsub.subset hw)⟩

theorem Chargeable.undo {ws : List Counter} (h : Chargeable clock usage ws)
    (hc : Tallies clock c (raised 1 usage ws)) (hsame : SameBefore clock c₀ c) :
    Tallies clock (eval (serve clock) (Limiter.undo (ws.map Counter.key)) c).2 usage ∧
      SameBefore clock c₀ (eval (serve clock) (Limiter.undo (ws.map Counter.key)) c).2 :=
  undo_run hc hsame h.nodup fun w hw => ⟨h.minute w hw, by
    have := h.fits w hw
    constructor <;> omega⟩

/-- One more in a counter that the call has not incremented yet. -/
theorem Chargeable.incr {ws : List Counter} {w : Counter}
    (h : Chargeable clock usage (ws ++ [w])) (hc : Tallies clock c (raised 1 usage ws))
    (hsame : SameBefore clock c₀ c) :
    ∃ c', serve clock (.incrBy w.key 1 Limiter.ttl) c = (.ok (usage w + 1), c') ∧
      Tallies clock c' (raised 1 usage (ws ++ [w])) ∧ SameBefore clock c₀ c' := by
  have hminute := h.minute w (by simp)
  have hnot : w ∉ ws := fun hmem => List.disjoint_of_nodup_append h.nodup hmem (by simp)
  have hfits : FitsInt64 (raised 1 usage ws w + 1) := by
    rw [raised_of_notMem hnot]
    have := h.fits w (by simp)
    constructor <;> omega
  obtain ⟨hvalue, htally⟩ := hc.incrBy hminute hfits
  rw [raised_concat] at htally
  rw [raised_of_notMem hnot] at hvalue
  exact ⟨_, Prod.ext (congrArg Except.ok hvalue) rfl, htally, hsame.incrBy hminute 1 _⟩

theorem charged_skip {ts : Int} {layer : Limiter.Layer} (h : layer.limit ≤ 0)
    (rest : List Limiter.Layer) : charged ts (layer :: rest) = charged ts rest := by
  simp [charged, not_lt.mpr h]

theorem charged_cons {ts : Int} {layer : Limiter.Layer} (h : ¬ layer.limit ≤ 0)
    (rest : List Limiter.Layer) :
    charged ts (layer :: rest) = layer.counter .rpm ts :: charged ts rest := by
  simp [charged, not_le.mp h]

theorem checkRPM_run {weight : ℚ} {layers : List Limiter.Layer} {ws : List Counter}
    {r : Except Limiter.AllowResult (List String)} {c' : MemoryCache}
    (hws : Chargeable clock usage (ws ++ charged (minuteOf clock) layers))
    (hc : Tallies clock c (raised 1 usage ws)) (hsame : SameBefore clock c₀ c)
    (hrun : eval (serve clock)
      (Limiter.checkRPM (minuteOf clock) weight layers (ws.map Counter.key)) c = (r, c')) :
    CheckedRPM clock c₀ usage weight layers ws r c' ∧ SameBefore clock c₀ c' := by
  induction layers generalizing ws c with
  | nil =>
    obtain ⟨rfl, rfl⟩ := Prod.mk.inj hrun
    exact ⟨⟨by simp, by simp [charged], by simpa [charged] using hc⟩, hsame⟩
  | cons layer rest ih =>
    by_cases hlimit : layer.limit ≤ 0
    · rw [Limiter.checkRPM, if_pos hlimit] at hrun
      have hroom : RoomRPM clock c₀ usage weight layer := fun h => absurd h (not_lt.mpr hlimit)
      rw [charged_skip hlimit] at hws
      obtain ⟨hchecked, hsame'⟩ := ih hws hc hsame hrun
      refine ⟨?_, hsame'⟩
      cases r <;> simpa [CheckedRPM, charged_skip hlimit, hroom] using hchecked
    · rw [charged_cons hlimit, List.append_cons] at hws
      obtain ⟨c₁, hserve, htally, hsame₁⟩ :=
        (hws.sublist (List.sublist_append_left _ _)).incr hc hsame
      -- the minute before is not the one that the increments are in
      have hprev := hsame.count_eq (w := layer.counter .rpm (minuteOf clock - 1))
        (by simp [Limiter.Layer.counter])
      have hmap : ws.map Counter.key ++ [rpmKey layer.scope layer.id (minuteOf clock)] =
          (ws ++ [layer.counter .rpm (minuteOf clock)]).map Counter.key := by
        rw [List.map_append]
        rfl
      have hserve' : serve clock
          (.incrBy (rpmKey layer.scope layer.id (minuteOf clock)) 1 Limiter.ttl) c = _ := hserve
      have hprev' : c.count clock (rpmKey layer.scope layer.id (minuteOf clock - 1)) = _ := hprev
      rw [Limiter.checkRPM, if_neg hlimit] at hrun
      simp only [eval_bind, getCount_run, run_eval, hserve', hprev', hmap] at hrun
      split at hrun
      · next hover =>
        rw [eval_bind] at hrun
        obtain ⟨rfl, rfl⟩ := Prod.mk.inj hrun
        obtain ⟨hundone, hsame'⟩ :=
          (hws.sublist (List.sublist_append_left _ _)).undo htally hsame₁
        refine ⟨⟨rfl, fun hall => ?_, hundone⟩, hsame'⟩
        exact absurd (hall layer (by simp) (not_le.mp hlimit)) (not_le.mpr hover)
      · next hroom =>
        have hroom' : RoomRPM clock c₀ usage weight layer := fun _ => not_lt.mp hroom
        obtain ⟨hchecked, hsame'⟩ := ih hws htally hsame₁ hrun
        refine ⟨?_, hsame'⟩
        cases r <;> simpa [CheckedRPM, charged_cons hlimit, hroom'] using hchecked

/-- A limit on tokens is not reached yet, where the cache shows the minute before. -/
def RoomTPM (clock : Nat) (c₀ : MemoryCache) (usage : Counter → Int) (weight : ℚ)
    (layer : Limiter.Layer) : Prop :=
  0 < layer.limit →
    Limiter.estimated (usage (layer.counter .tpm (minuteOf clock)))
      (c₀.count clock (layer.counter .tpm (minuteOf clock - 1)).key) weight < layer.limit

def CheckedTPM (clock : Nat) (c₀ : MemoryCache) (usage : Counter → Int) (weight : ℚ)
    (layers : List Limiter.Layer) (ws : List Counter) :
    Except Limiter.AllowResult Unit → MemoryCache → Prop
  | .ok (), c =>
    (∀ layer ∈ layers, RoomTPM clock c₀ usage weight layer) ∧ Tallies clock c (raised 1 usage ws)
  | .error result, c =>
    result.allowed = false ∧ ¬ (∀ layer ∈ layers, RoomTPM clock c₀ usage weight layer) ∧
      Tallies clock c usage

theorem checkTPM_run {weight : ℚ} {layers : List Limiter.Layer} {ws : List Counter}
    {r : Except Limiter.AllowResult Unit} {c' : MemoryCache} (hws : Chargeable clock usage ws)
    (hkind : ∀ w ∈ ws, w.kind = .rpm) (hc : Tallies clock c (raised 1 usage ws))
    (hsame : SameBefore clock c₀ c)
    (hrun : eval (serve clock)
      (Limiter.checkTPM (minuteOf clock) weight (ws.map Counter.key) layers) c = (r, c')) :
    CheckedTPM clock c₀ usage weight layers ws r c' := by
  induction layers with
  | nil =>
    obtain ⟨rfl, rfl⟩ := Prod.mk.inj hrun
    exact ⟨by simp, hc⟩
  | cons layer rest ih =>
    rw [Limiter.checkTPM] at hrun
    split at hrun
    · next hlimit =>
      have hroom : RoomTPM clock c₀ usage weight layer := fun h => absurd h (not_lt.mpr hlimit)
      have hchecked := ih hrun
      cases r <;> simpa [CheckedTPM, hroom] using hchecked
    · next hlimit =>
      have hcurr : c.count clock (tpmKey layer.scope layer.id (minuteOf clock)) =
          usage (layer.counter .tpm (minuteOf clock)) := by
        have hnot : layer.counter .tpm (minuteOf clock) ∉ ws := fun hmem => by
          simpa [Limiter.Layer.counter] using hkind _ hmem
        have hcount := hc.count_eq (w := layer.counter .tpm (minuteOf clock)) rfl
        rwa [raised_of_notMem hnot] at hcount
      have hprev : c.count clock (tpmKey layer.scope layer.id (minuteOf clock - 1)) = _ :=
        hsame.count_eq (w := layer.counter .tpm (minuteOf clock - 1))
          (by simp [Limiter.Layer.counter])
      simp only [eval_bind, getCount_run, hcurr, hprev] at hrun
      split at hrun
      · next hover =>
        rw [eval_bind] at hrun
        obtain ⟨rfl, rfl⟩ := Prod.mk.inj hrun
        refine ⟨rfl, fun hall => ?_, (hws.undo hc hsame).1⟩
        exact absurd (hall layer (by simp) (not_le.mp hlimit)) (not_lt.mpr hover)
      · next hroom =>
        have hroom' : RoomTPM clock c₀ usage weight layer := fun _ => not_le.mp hroom
        have hchecked := ih hrun
        cases r <;> simpa [CheckedTPM, hroom'] using hchecked

/-! ### Calls -/

/-- The limits of a call have different scopes. -/
theorem charged_nodup (l : Limiter) (ts : Int) (keyID modelAlias : String) :
    (charged ts (l.rpmLayers keyID modelAlias)).Nodup := by
  apply List.Nodup.sublist (List.filter_sublist.map _)
  simp [Limiter.rpmLayers, Limiter.Layer.counter]

theorem charged_rpmLayers {l : Limiter} {keyID modelAlias : String}
    (hfits : ∀ w ∈ charged (minuteOf clock) (l.rpmLayers keyID modelAlias),
      0 ≤ usage w ∧ usage w + 1 < 2 ^ 63) :
    Chargeable clock usage (charged (minuteOf clock) (l.rpmLayers keyID modelAlias)) := by
  refine ⟨charged_nodup .., fun w hw => ?_, hfits⟩
  obtain ⟨layer, -, rfl⟩ := List.mem_map.mp hw
  rfl

/-- The limits of a call leave room for it, where the cache shows the minute before. -/
def Room (l : Limiter) (clock : Nat) (c : MemoryCache) (usage : Counter → Int)
    (keyID modelAlias : String) : Prop :=
  (∀ layer ∈ l.rpmLayers keyID modelAlias, RoomRPM clock c usage (secondOf clock / 60) layer) ∧
    ∀ layer ∈ l.tpmLayers keyID modelAlias, RoomTPM clock c usage (secondOf clock / 60) layer

theorem unlimited_layers {l : Limiter} {keyID modelAlias : String}
    (h : l.unlimited keyID modelAlias = true) :
    (∀ layer ∈ l.rpmLayers keyID modelAlias, layer.limit ≤ 0) ∧
      ∀ layer ∈ l.tpmLayers keyID modelAlias, layer.limit ≤ 0 := by
  simp only [Limiter.unlimited, Bool.and_eq_true, decide_eq_true_eq] at h
  simp [Limiter.rpmLayers, Limiter.tpmLayers, h]

theorem checkLayers_run {l : Limiter} {keyID modelAlias : String} {r : Limiter.AllowResult}
    {c' : MemoryCache} (hc : Tallies clock c usage)
    (hfits : ∀ w ∈ charged (minuteOf clock) (l.rpmLayers keyID modelAlias),
      0 ≤ usage w ∧ usage w + 1 < 2 ^ 63)
    (hrun : eval (serve clock)
      (l.checkLayers keyID modelAlias (minuteOf clock) (secondOf clock / 60)) c = (r, c')) :
    (r.allowed = true ↔ Room l clock c usage keyID modelAlias) ∧
      Tallies clock c' (if r.allowed
        then raised 1 usage (charged (minuteOf clock) (l.rpmLayers keyID modelAlias))
        else usage) := by
  have hws := charged_rpmLayers hfits
  rw [Limiter.checkLayers, eval_bind] at hrun
  rcases hrpm : eval (serve clock) (Limiter.checkRPM (minuteOf clock) (secondOf clock / 60)
    (l.rpmLayers keyID modelAlias) []) c with ⟨r₁, c₁⟩
  obtain ⟨hchecked, hsame⟩ :=
    checkRPM_run (show Chargeable clock usage ([] ++ _) from hws) (by rwa [raised_nil]) .refl hrpm
  rw [hrpm] at hrun
  cases r₁ with
  | error result =>
    obtain ⟨rfl, rfl⟩ := Prod.mk.inj hrun
    obtain ⟨hfalse, hover, htally⟩ := hchecked
    exact ⟨by simp [hfalse, Room, hover], by simpa [hfalse] using htally⟩
  | ok incremented =>
    obtain ⟨hroom, rfl, htally⟩ := hchecked
    have hkind : ∀ w ∈ charged (minuteOf clock) (l.rpmLayers keyID modelAlias), w.kind = .rpm := by
      intro w hw
      obtain ⟨layer, -, rfl⟩ := List.mem_map.mp hw
      rfl
    simp only [eval_bind] at hrun
    rcases htpm : eval (serve clock) (Limiter.checkTPM (minuteOf clock) (secondOf clock / 60)
      (([] ++ charged (minuteOf clock) (l.rpmLayers keyID modelAlias)).map Counter.key)
      (l.tpmLayers keyID modelAlias)) c₁ with ⟨r₂, c₂⟩
    have hchecked := checkTPM_run hws hkind htally hsame htpm
    rw [htpm] at hrun
    cases r₂ with
    | error result =>
      obtain ⟨rfl, rfl⟩ := Prod.mk.inj hrun
      obtain ⟨hfalse, hover, htally⟩ := hchecked
      exact ⟨by simp [hfalse, Room, hover], by simpa [hfalse] using htally⟩
    | ok _ =>
      obtain ⟨rfl, rfl⟩ := Prod.mk.inj hrun
      exact ⟨iff_of_true rfl ⟨hroom, hchecked.1⟩, hchecked.2⟩

/-- `AllowRequest` allows a call that the limits leave room for, and counts the calls that it
allows. -/
theorem allowRequest_run {l : Limiter} {keyID modelAlias : String} {r : Limiter.AllowResult}
    {c' : MemoryCache} (hc : Tallies clock c usage)
    (hfits : ∀ w ∈ charged (minuteOf clock) (l.rpmLayers keyID modelAlias),
      0 ≤ usage w ∧ usage w + 1 < 2 ^ 63)
    (hrun : eval (serve clock) (l.allowRequest keyID modelAlias) c = (r, c')) :
    (r.allowed = true ↔ Room l clock c usage keyID modelAlias) ∧
      Tallies clock c' (if r.allowed
        then raised 1 usage (charged (minuteOf clock) (l.rpmLayers keyID modelAlias))
        else usage) := by
  rw [Limiter.allowRequest] at hrun
  split at hrun
  · next hunlimited =>
    obtain ⟨hrpm, htpm⟩ := unlimited_layers hunlimited
    obtain ⟨rfl, rfl⟩ := Prod.mk.inj hrun
    have hcharged : charged (minuteOf clock) (l.rpmLayers keyID modelAlias) = [] := by
      rw [charged, List.filter_eq_nil_iff.mpr (by simpa using hrpm), List.map_nil]
    refine ⟨iff_of_true rfl ⟨fun layer hl h => ?_, fun layer hl h => ?_⟩, ?_⟩
    · exact absurd h (not_lt.mpr (hrpm layer hl))
    · exact absurd h (not_lt.mpr (htpm layer hl))
    · simpa [hcharged, raised_nil] using hc
  · exact checkLayers_run hc hfits hrun

theorem incrAll_run {ws : List Counter} (hc : Tallies clock c usage) (hnodup : ws.Nodup)
    (hws : ∀ w ∈ ws, w.minute = minuteOf clock ∧ FitsInt64 (usage w + delta)) :
    Tallies clock (eval (serve clock) (Limiter.incrAll delta (ws.map Counter.key)) c).2
      (raised delta usage ws) := by
  induction ws generalizing c usage with
  | nil =>
    rw [raised_nil]
    exact hc
  | cons w ws ih =>
    obtain ⟨hnot, hnodup⟩ := List.nodup_cons.mp hnodup
    obtain ⟨hminute, hfits⟩ := hws w (by simp)
    have htally := (hc.incrBy hminute hfits).2
    rw [List.map_cons, Limiter.incrAll, eval_bind, run_eval, ← raised_update]
    refine ih htally hnodup fun w' hw' => ?_
    rw [Function.update_of_ne (by rintro rfl; exact hnot hw')]
    exact hws w' (by simp [hw'])

/-- The counters that `RecordTokens` adds to. -/
def tokenCounters (ts : Int) (keyID modelAlias : String) : List Counter :=
  [⟨.tpm, .global, "", ts⟩, ⟨.tpm, .model, modelAlias, ts⟩, ⟨.tpm, .key, keyID, ts⟩]

theorem tokenCounters_nodup (ts : Int) (keyID modelAlias : String) :
    (tokenCounters ts keyID modelAlias).Nodup := by
  simp [tokenCounters]

theorem recordTokens_run {keyID modelAlias : String} {tokens : Int} (hc : Tallies clock c usage)
    (hfits : ∀ w ∈ tokenCounters (minuteOf clock) keyID modelAlias,
      FitsInt64 (usage w + tokens)) (hpos : 0 < tokens) :
    Tallies clock (eval (serve clock) (Limiter.recordTokens keyID modelAlias tokens) c).2
      (raised tokens usage (tokenCounters (minuteOf clock) keyID modelAlias)) := by
  rw [Limiter.recordTokens, if_neg (not_le.mpr hpos), eval_bind, run_eval]
  refine incrAll_run hc (tokenCounters_nodup ..) fun w hw => ⟨?_, hfits w hw⟩
  simp only [tokenCounters, List.mem_cons, List.not_mem_nil, or_false] at hw
  rcases hw with rfl | rfl | rfl <;> rfl

end LlmProxy.RateLimit
