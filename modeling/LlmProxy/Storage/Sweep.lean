import LlmProxy.Storage.Redis

/-! What the callers of `MemoryCache` can rely on: a map from keys to values with deadlines.  The
rounds of `cleanup` take out entries that no call can see any more. -/

namespace LlmProxy.Storage

open ProofKit

def CacheCall.isCleanup : CacheCall → Bool
  | .cleanup => true
  | _ => false

/-- Each call reads the clock no earlier than what comes before it.  A round of `cleanup` reads it
before it gets the lock, so that its time may be older than that. -/
def InOrder (calls : List (Nat × CacheCall)) : Prop :=
  calls.Pairwise fun a b => b.2.isCleanup = false → a.1 ≤ b.1

instance (calls : List (Nat × CacheCall)) : Decidable (InOrder calls) :=
  inferInstanceAs (Decidable (calls.Pairwise _))

def withoutCleanup (calls : List (Nat × CacheCall)) : List (Nat × CacheCall) :=
  calls.filter fun call => !call.2.isCleanup

/-- What the callers get, while rounds of `cleanup` go on between their calls. -/
def callReplies {σ : Type} (step : σ → Nat → CacheCall → CacheReply × σ) :
    σ → List (Nat × CacheCall) → List CacheReply
  | _, [] => []
  | s, (now, call) :: rest =>
    if call.isCleanup then callReplies step (step s now call).2 rest
    else (step s now call).1 :: callReplies step (step s now call).2 rest

/-! ### The contract -/

/-- For each key a value, with the last moment at which it can be seen, if there is one. -/
structure CacheMap where
  held : String → Option (String × Option Nat) := fun _ => none

namespace CacheMap

def hold (m : CacheMap) (key : String) (entry : Option (String × Option Nat)) : CacheMap :=
  { held := Function.update m.held key entry }

/-- An entry is visible until its deadline has passed. -/
def visible (m : CacheMap) (now : Nat) (key : String) : Option (String × Option Nat) :=
  (m.held key).filter fun entry => entry.2.all fun deadline => now ≤ deadline

def step (m : CacheMap) (now : Nat) : CacheCall → CacheReply × CacheMap
  | .get key => (.found ((m.visible now key).map (·.1)), m)
  | .set key value ttl => (.done, m.hold key (some (value, deadlineOf now ttl)))
  | .delete key => (.done, m.hold key none)
  | .incrBy key delta ttl =>
    match m.visible now key with
    | none => (.counted (.ok delta), m.hold key (some (formatInt delta, deadlineOf now ttl)))
    | some (value, deadline) =>
      (.counted (.ok (parseInt value + delta)),
        m.hold key (some (formatInt (parseInt value + delta), deadline)))
  | .cleanup => (.done, m)

/-- An increment finds a number, if it finds anything, and the sum is one of type `int64`. -/
def Counts (m : CacheMap) (now : Nat) : CacheCall → Prop
  | .incrBy key delta _ => ∀ entry ∈ m.visible now key,
    RedisServer.Decimal entry.1 ∧ FitsInt64 (parseInt entry.1 + delta)
  | _ => True

instance (m : CacheMap) (now : Nat) : (call : CacheCall) → Decidable (m.Counts now call)
  | .incrBy key _ _ => inferInstanceAs (Decidable (∀ entry ∈ m.visible now key, _ ∧ _))
  | .get _ | .set _ _ _ | .delete _ | .cleanup => isTrue trivial

/-- This holds of each increment among the calls. -/
def CountsAlong : CacheMap → List (Nat × CacheCall) → Prop
  | _, [] => True
  | m, (now, call) :: rest => m.Counts now call ∧ CountsAlong (m.step now call).2 rest

instance decidableCountsAlong :
    (m : CacheMap) → (calls : List (Nat × CacheCall)) → Decidable (m.CountsAlong calls)
  | _, [] => isTrue trivial
  | m, (now, call) :: rest =>
    have := decidableCountsAlong (m.step now call).2 rest
    inferInstanceAs (Decidable (_ ∧ _))

end CacheMap

/-! ### Rounds of `cleanup` -/

section Sweeps

/-- From a time on the two caches show the same entries. -/
def SameFrom (last : Nat) (c c' : MemoryCache) : Prop :=
  ∀ later, last ≤ later → ∀ key, c.live later key = c'.live later key

variable {last now : Nat} {c c' : MemoryCache}

theorem SameFrom.mono (h : SameFrom last c c') (hle : last ≤ now) : SameFrom now c c' :=
  fun later hlater => h later (hle.trans hlater)

theorem SameFrom.put (h : SameFrom last c c') (key : String) (e : Option CacheEntry) :
    SameFrom last (c.put key e) (c'.put key e) := by
  intro later hlater key'
  by_cases hkey : key' = key
  · subst hkey
    simp [MemoryCache.live, MemoryCache.put]
  · rw [MemoryCache.live_put_of_ne hkey, MemoryCache.live_put_of_ne hkey]
    exact h later hlater key'

theorem SameFrom.sweep (h : SameFrom last c c') (hle : now ≤ last) :
    SameFrom last (c.sweep now) c' := by
  intro later hlater key
  rw [MemoryCache.live_sweep_of_le (hle.trans hlater)]
  exact h later hlater key

/-- A call gets the same reply from both caches, and leaves the same entries. -/
theorem SameFrom.step (h : SameFrom now c c') {call : CacheCall} (hcall : call.isCleanup = false) :
    (c.step now call).1 = (c'.step now call).1 ∧
      SameFrom now (c.step now call).2 (c'.step now call).2 := by
  cases call with
  | get key => exact ⟨by simp only [MemoryCache.step, MemoryCache.get, h now le_rfl key], h⟩
  | set key value ttl => exact ⟨rfl, h.put key _⟩
  | delete key => exact ⟨rfl, h.put key none⟩
  | incrBy key delta ttl =>
    have hlive := h now le_rfl key
    simp only [MemoryCache.step, MemoryCache.incrBy]
    rw [hlive]
    cases c'.live now key with
    | none => exact ⟨rfl, h.put key _⟩
    | some e => exact ⟨rfl, h.put key _⟩
  | cleanup => cases hcall

/-- The callers cannot tell whether rounds of `cleanup` go on beside their calls. -/
theorem SameFrom.callReplies (h : SameFrom last c c') {calls : List (Nat × CacheCall)}
    (horder : InOrder calls) (hlast : ∀ call ∈ calls, call.2.isCleanup = false → last ≤ call.1) :
    callReplies MemoryCache.step c calls = replies MemoryCache.step c' (withoutCleanup calls) := by
  induction calls generalizing last c c' with
  | nil => rfl
  | cons first rest ih =>
    obtain ⟨now, call⟩ := first
    obtain ⟨hfirst, hrest⟩ := List.pairwise_cons.mp horder
    have hlast' := (List.forall_mem_cons.mp hlast).2
    cases hcall : call.isCleanup with
    | true =>
      obtain rfl : call = .cleanup := by cases call <;> first | rfl | cases hcall
      have hlater : ∀ b ∈ rest, b.2.isCleanup = false → max last now ≤ b.1 := fun b hb hb' =>
        max_le (hlast' b hb hb') (hfirst b hb hb')
      have hswept : SameFrom (max last now) (c.sweep now) c' :=
        (h.mono (le_max_left last now)).sweep (le_max_right last now)
      exact ih hswept hrest hlater
    | false =>
      have hnow : last ≤ now := hlast _ List.mem_cons_self hcall
      obtain ⟨hreply, hnext⟩ := (h.mono hnow).step hcall
      have hkept : withoutCleanup ((now, call) :: rest) = (now, call) :: withoutCleanup rest :=
        List.filter_cons_of_pos (by simp [hcall])
      rw [hkept, replies, Storage.callReplies, if_neg (by simp [hcall]), hreply]
      exact congrArg _ (ih hnext hrest hfirst)

end Sweeps

/-! ### The cache is the map -/

/-- The entries of a cache, as the map has them. -/
def MemoryCache.map (c : MemoryCache) : CacheMap where
  held key := (c.entries key).map fun e => (e.value, e.expireAt)

section Map

variable {c : MemoryCache} {now : Nat}

theorem MemoryCache.map_put (key : String) (e : Option CacheEntry) :
    (c.put key e).map = c.map.hold key (e.map fun e => (e.value, e.expireAt)) := by
  simp only [MemoryCache.map, MemoryCache.put, CacheMap.hold, CacheMap.mk.injEq]
  funext key'
  by_cases hkey : key' = key
  · subst hkey
    simp
  · simp [Function.update_of_ne hkey]

theorem MemoryCache.visible_map (now : Nat) (key : String) :
    c.map.visible now key = (c.live now key).map fun e => (e.value, e.expireAt) := by
  simp only [CacheMap.visible, MemoryCache.map, MemoryCache.live]
  cases c.entries key with
  | none => rfl
  | some e =>
    have hopen : (e.expireAt.all fun deadline => decide (now ≤ deadline)) = !e.expired now := by
      unfold CacheEntry.expired
      cases e.expireAt with
      | none => rfl
      | some deadline => simp [← decide_not]
    simp only [Option.map_some, Option.filter_some, hopen]
    cases e.expired now <;> rfl

theorem MemoryCache.step_map {call : CacheCall} (hcall : call.isCleanup = false)
    (hcounts : c.map.Counts now call) :
    (c.step now call).1 = (c.map.step now call).1 ∧
      (c.step now call).2.map = (c.map.step now call).2 := by
  cases call with
  | get key =>
    simp only [MemoryCache.step, CacheMap.step, MemoryCache.get, c.visible_map, Option.map_map,
      and_true]
    rfl
  | set key value ttl => exact ⟨rfl, map_put key _⟩
  | delete key => exact ⟨rfl, map_put key none⟩
  | incrBy key delta ttl =>
    have hvisible := c.visible_map now key
    cases hlive : c.live now key with
    | none =>
      rw [hlive, Option.map_none] at hvisible
      simp only [MemoryCache.step, CacheMap.step, hvisible, MemoryCache.incrBy_none hlive]
      exact ⟨trivial, map_put key _⟩
    | some e =>
      rw [hlive, Option.map_some] at hvisible
      have hfits : FitsInt64 (parseInt e.value + delta) := (hcounts _ hvisible).2
      simp only [MemoryCache.step, CacheMap.step, hvisible, MemoryCache.incrBy_some hlive hfits]
      exact ⟨trivial, map_put key _⟩
  | cleanup => cases hcall

theorem MemoryCache.replies_map {calls : List (Nat × CacheCall)}
    (hcalls : ∀ call ∈ calls, call.2.isCleanup = false) (hcounts : c.map.CountsAlong calls) :
    replies MemoryCache.step c calls = replies CacheMap.step c.map calls := by
  induction calls generalizing c with
  | nil => rfl
  | cons first rest ih =>
    obtain ⟨now, call⟩ := first
    obtain ⟨hcall, hrest⟩ := List.forall_mem_cons.mp hcalls
    obtain ⟨hreply, hmap⟩ := MemoryCache.step_map hcall hcounts.1
    rw [replies, replies, hreply, ← hmap]
    exact congrArg _ (ih hrest (hmap.symm ▸ hcounts.2))

end Map

/-- The replies of the cache, with rounds of `cleanup` between the calls, are those without any, and
those of the map as long as increments find numbers and the sums are of type `int64`. -/
theorem cleanup_unobservable {calls : List (Nat × CacheCall)} (horder : InOrder calls) :
    callReplies MemoryCache.step {} calls = replies MemoryCache.step {} (withoutCleanup calls) ∧
      (CacheMap.CountsAlong {} (withoutCleanup calls) →
        callReplies MemoryCache.step {} calls =
          replies CacheMap.step {} (withoutCleanup calls)) := by
  have hsame : SameFrom 0 {} {} := fun _ _ _ => rfl
  have hreplies := hsame.callReplies horder fun _ _ _ => Nat.zero_le _
  refine ⟨hreplies, fun hcounts => hreplies.trans ?_⟩
  refine MemoryCache.replies_map (c := {}) (fun call hcall => ?_) hcounts
  simpa using (List.mem_filter.mp hcall).2

/-- A counter that expires, with a round of `cleanup` before its deadline and one after it. -/
theorem cleanup_unobservable_counter :
    callReplies MemoryCache.step {} [(0, .incrBy "k" 1 second), (1, .cleanup), (5, .incrBy "k" 2 0),
        (2 * second, .cleanup), (2 * second, .get "k"), (3 * second, .incrBy "k" 4 0)] =
      [.counted (.ok 1), .counted (.ok 3), .found none, .counted (.ok 4)] := by
  refine ((cleanup_unobservable ?_).2 ?_).trans ?_
  · decide
  · decide
  · decide

end LlmProxy.Storage
