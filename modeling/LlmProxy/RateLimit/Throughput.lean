import LlmProxy.RateLimit.Concurrent
import LlmProxy.RateLimit.LimiterRun

/-! What the limits come to over time, for any number of calls interleaved in any order: how many
calls they let through in some minutes, and how long they can keep a call out. -/

namespace LlmProxy.RateLimit

open ProofKit Storage Program

/-- The minute of the call is one of those from `first` to `last`. -/
def Call.within (call : Call) (first last : Int) : Bool :=
  first ≤ call.minute ∧ call.minute ≤ last

namespace Traffic

/-- The calls of a layer that have returned true, of the minutes that a stretch of time touches. -/
def admittedDuring (s : Traffic) (scope : Scope) (id : String) (first last : Int) : Nat :=
  s.calls.countP fun call =>
    call.allowed && (scope.idOf call.keyID call.modelAlias = id && call.within first last)

variable {l : Limiter} {s s' : Traffic} {scope : Scope} {id : String} {call : Call}

/-! ### How many calls are admitted -/

theorem layer_mem_rpmLayers (l : Limiter) (scope : Scope) (keyID modelAlias : String) :
    ⟨scope, scope.idOf keyID modelAlias, l.rpmLimit scope (scope.idOf keyID modelAlias)⟩ ∈
      l.rpmLayers keyID modelAlias := by
  cases scope <;> simp [Limiter.rpmLayers, Limiter.rpmLimit, Scope.idOf]

theorem mem_counters_iff (hlimit : 0 < l.rpmLimit scope id) {minute : Int} :
    (⟨scope, id, minute⟩ : Slot) ∈ call.counters l ↔
      scope.idOf call.keyID call.modelAlias = id ∧ call.minute = minute := by
  simp only [Call.counters, Limiter.slots, List.mem_map, List.mem_filter, decide_eq_true_eq]
  constructor
  · rintro ⟨layer, ⟨hlayer, -⟩, hslot⟩
    obtain ⟨rfl, rfl, rfl⟩ := Slot.mk.inj hslot
    exact ⟨(mem_rpmLayers hlayer).1.symm, rfl⟩
  · rintro ⟨rfl, rfl⟩
    exact ⟨_, ⟨layer_mem_rpmLayers l scope call.keyID call.modelAlias, hlimit⟩, rfl⟩

/-- One minute more adds the calls of the counter of this minute. -/
theorem admittedDuring_succ (hlimit : 0 < l.rpmLimit scope id) {first last : Int}
    (hle : first ≤ last + 1) :
    s.admittedDuring scope id first (last + 1) =
      s.admittedDuring scope id first last + s.admitted l ⟨scope, id, last + 1⟩ := by
  refine countP_eq_add (fun call _ => ?_) fun call _ hold => ?_
  · rw [Bool.eq_iff_iff]
    simp only [mem_counters_iff hlimit, Call.within, Bool.and_eq_true, Bool.or_eq_true,
      decide_eq_true_eq]
    constructor
    · rintro ⟨hallowed, hid, hfirst, hlast⟩
      rcases Int.lt_or_eq_of_le hlast with hlt | hminute
      · exact .inl ⟨hallowed, hid, hfirst, by omega⟩
      · exact .inr ⟨hallowed, hid, hminute⟩
    · rintro (⟨hallowed, hid, hfirst, hlast⟩ | ⟨hallowed, hid, hminute⟩)
      · exact ⟨hallowed, hid, hfirst, by omega⟩
      · exact ⟨hallowed, hid, by omega, by omega⟩
  · simp only [Call.within, Bool.and_eq_true, decide_eq_true_eq] at hold
    obtain ⟨-, -, -, hlast⟩ := hold
    have hne : call.minute ≠ last + 1 := by omega
    simp [mem_counters_iff hlimit, hne]

theorem admittedDuring_le (h : Inv l s) (hlimit : 0 < l.rpmLimit scope id) (first : Int)
    (minutes : Nat) :
    (s.admittedDuring scope id first (first + minutes - 1) : Int) ≤
      minutes * l.rpmLimit scope id := by
  induction minutes with
  | zero =>
    have hnone : s.admittedDuring scope id first (first - 1) = 0 := by
      refine List.countP_eq_zero.mpr fun call _ hwithin => ?_
      simp only [Call.within, Bool.and_eq_true, decide_eq_true_eq] at hwithin
      obtain ⟨-, -, hfirst, hlast⟩ := hwithin
      omega
    simp [hnone]
  | succ minutes ih =>
    have hsucc :=
      admittedDuring_succ (s := s) hlimit (show first ≤ first + minutes - 1 + 1 by omega)
    have hone := admitted_le h (w := ⟨scope, id, first + minutes - 1 + 1⟩) hlimit
    have hlast : first + (minutes + 1 : Nat) - 1 = first + minutes - 1 + 1 := by omega
    rw [hlast, hsucc]
    push_cast
    rw [add_one_mul]
    exact add_le_add ih hone

/-- A stretch of `minutes` times sixty seconds touches one minute more. -/
theorem minuteOf_add (t minutes : Nat) : minuteOf (t + minutes * (60 * second)) = minuteOf t +
    minutes := by
  simp only [minuteOf, second, Int.ofNat_eq_natCast]
  omega

/-- In every run in which no counter expires while a call that uses it is under way: of the calls
that a limit applies to, at most `minutes + 1` times the limit return true within `minutes` times
sixty seconds, wherever these begin.  So within any sixty seconds it is at most twice the limit. -/
theorem throughput_bounded (hs : (system l).Reachable (Undisturbed l) s)
    (hlimit : 0 < l.rpmLimit scope id) (t minutes : Nat) :
    (s.admittedDuring scope id (minuteOf t) (minuteOf (t + minutes * (60 * second))) : Int) ≤
      (minutes + 1) * l.rpmLimit scope id := by
  have hle := admittedDuring_le (reachable_inv hs) hlimit (minuteOf t) (minutes + 1)
  have hlast : minuteOf t + (minutes + 1 : Nat) - 1 = minuteOf (t + minutes * (60 * second)) := by
    rw [minuteOf_add]
    omega
  rw [hlast] at hle
  exact_mod_cast hle

/-- Two calls are admitted at the end of a minute and one in the middle of the next: three within a
minute under a limit of two. -/
theorem throughput_bounded_boundary :
    ∃ l s, (system l).Reachable (Undisturbed l) s ∧ l.rpmLimit .global "" = 2 ∧
      s.admittedDuring .global "" 1 2 = 3 ∧
      (s.admittedDuring .global "" 1 2 : Int) ≤ 2 * l.rpmLimit .global "" := by
  let l : Limiter := { global := { rpm := 2 } }
  have hinit : (system l).Reachable (Undisturbed l) (start (119 * second)) := .init ⟨_, rfl⟩
  have hok : System.Admits (next l) (Undisturbed l) (start (119 * second))
      [.allow "key" "model", .allow "other" "model", .advance 0, .advance 1, .advance 0, .advance 1,
        .advance 0, .advance 1, .wait (31 * second), .allow "key" "model", .advance 2, .advance 2,
        .advance 2] := by decide +kernel
  obtain ⟨s, hs, hcount⟩ := System.Reachable.exists_of_exec
    (fun s => s.admittedDuring .global "" 1 2 = 3) hinit hok (by decide +kernel)
  have hbound := throughput_bounded hs (show 0 < l.rpmLimit .global "" by decide) (119 * second) 1
  have hfirst : minuteOf (119 * second) = 1 := by decide
  rw [minuteOf_add, hfirst] at hbound
  exact ⟨l, s, hs, rfl, hcount, hbound⟩

/-! ### How long a call is kept out -/

/-- Every increment gives a new counter the same time to live. -/
def Timed : Op → Prop
  | .incrBy _ _ ttl => ttl = Limiter.ttl
  | .now | .get _ => True

theorem getCount_timed (key : String) : (Limiter.getCount key).Calls Timed := by
  refine (calls_perform (show Timed (Op.get key) from trivial)).bind fun r => ?_
  cases r <;> trivial

theorem undo_timed (keys : List String) : (Limiter.undo keys).Calls Timed := by
  induction keys with
  | nil => trivial
  | cons key rest ih =>
    exact (calls_perform (show Timed (.incrBy key (-1) Limiter.ttl) from rfl)).bind fun _ => ih

theorem checkRPM_timed (ts : Int) (weight : ℚ) (layers : List Limiter.Layer)
    (incremented : List String) :
    (Limiter.checkRPM ts weight layers incremented).Calls Timed := by
  induction layers generalizing incremented with
  | nil => trivial
  | cons layer rest ih =>
    rw [Limiter.checkRPM]
    split
    · exact ih incremented
    · refine (getCount_timed _).bind fun prevCount => ?_
      refine (calls_perform (show Timed (.incrBy _ 1 Limiter.ttl) from rfl)).bind fun r => ?_
      cases r with
      | error e => exact (undo_timed incremented).bind fun _ => trivial
      | ok currCount =>
        dsimp only
        split
        · exact (undo_timed _).bind fun _ => trivial
        · exact ih _

theorem checkTPM_timed (ts : Int) (weight : ℚ) (incremented : List String)
    (layers : List Limiter.Layer) :
    (Limiter.checkTPM ts weight incremented layers).Calls Timed := by
  induction layers with
  | nil => trivial
  | cons layer rest ih =>
    rw [Limiter.checkTPM]
    split
    · exact ih
    · refine (getCount_timed _).bind fun currCount => (getCount_timed _).bind fun prevCount => ?_
      split
      · exact (undo_timed incremented).bind fun _ => trivial
      · exact ih

theorem allowRequest_timed (l : Limiter) (keyID modelAlias : String) :
    (l.allowRequest keyID modelAlias).Calls Timed := by
  rw [Limiter.allowRequest]
  split
  · trivial
  · refine (calls_perform (show Timed Op.now from trivial)).bind fun now => ?_
    refine (checkRPM_timed ..).bind fun r => ?_
    cases r with
    | error result => trivial
    | ok incremented =>
      refine (checkTPM_timed ..).bind fun r => ?_
      cases r <;> trivial

theorem incrAll_timed (delta : Int) (keys : List String) :
    (Limiter.incrAll delta keys).Calls Timed := by
  induction keys with
  | nil => trivial
  | cons key rest ih =>
    refine (calls_perform (show Timed (.incrBy key delta Limiter.ttl) from rfl)).bind fun r => ?_
    cases r with
    | error e => trivial
    | ok v => exact ih

theorem recordTokens_timed (keyID modelAlias : String) (tokens : Int) :
    (Limiter.recordTokens keyID modelAlias tokens).Calls Timed := by
  rw [Limiter.recordTokens]
  split
  · trivial
  · exact (calls_perform (show Timed Op.now from trivial)).bind fun now => incrAll_timed _ _

/-- Every entry expires within the time to live of a counter. -/
def ShortLived (clock : Nat) (c : MemoryCache) : Prop :=
  ∀ key e, c.entries key = some e → ∃ deadline, e.expireAt = some deadline ∧
    deadline ≤ clock + Limiter.ttl.toNat

theorem ShortLived.put {clock : Nat} {c : MemoryCache} (h : ShortLived clock c) (key : String)
    {e : CacheEntry} (he : ∃ deadline, e.expireAt = some deadline ∧
      deadline ≤ clock + Limiter.ttl.toNat) :
    ShortLived clock (c.put key (some e)) := by
  intro key' e' hentry
  have hupdate : Function.update c.entries key (some e) key' = some e' := hentry
  by_cases hkey : key' = key
  · subst hkey
    rw [Function.update_self] at hupdate
    exact Option.some.inj hupdate ▸ he
  · rw [Function.update_of_ne hkey] at hupdate
    exact h key' e' hupdate

theorem ShortLived.serve {clock : Nat} {c : MemoryCache} (h : ShortLived clock c) {op : Op}
    (hop : Timed op) :
    ShortLived clock (serve clock op c).2 := by
  match op, hop with
  | .now, _ | .get _, _ => exact h
  | .incrBy key delta ttl, hop =>
    obtain rfl : ttl = Limiter.ttl := hop
    show ShortLived clock (c.incrBy clock key delta Limiter.ttl).2
    unfold MemoryCache.incrBy
    cases hlive : c.live clock key with
    | none => exact h.put key ⟨_, rfl, le_refl _⟩
    | some e => exact h.put key (h key e (MemoryCache.live_eq_some.mp hlive).1)

/-- The calls under way and the cache are such. -/
structure TimedTraffic (s : Traffic) : Prop where
  cache : ShortLived s.clock s.cache
  calls : ∀ call ∈ s.calls, call.code.Calls Timed
  records : ∀ p ∈ s.records, p.Calls Timed

theorem next_timed (h : TimedTraffic s) {a : Action} (hnext : next l s a = some s') :
    TimedTraffic s' := by
  cases a with
  | allow keyID modelAlias =>
    obtain rfl := Option.some.inj hnext
    refine ⟨h.cache, List.forall_mem_append.mpr ⟨h.calls, List.forall_mem_singleton.mpr ?_⟩,
      h.records⟩
    exact allowRequest_timed l keyID modelAlias
  | record keyID modelAlias tokens =>
    obtain rfl := Option.some.inj hnext
    refine ⟨h.cache, h.calls,
      List.forall_mem_append.mpr ⟨h.records, List.forall_mem_singleton.mpr ?_⟩⟩
    exact recordTokens_timed keyID modelAlias tokens
  | advance i =>
    rw [next] at hnext
    split at hnext
    · cases hnext
    · next call hi =>
      split at hnext
      · cases hnext
      · next op rest hcode =>
        obtain rfl := Option.some.inj hnext
        have hcalls := h.calls call (List.mem_of_getElem? hi)
        rw [hcode] at hcalls
        refine ⟨h.cache.serve hcalls.1, fun call' hcall' => ?_, h.records⟩
        rcases List.mem_or_eq_of_mem_set hcall' with hold | rfl
        · exact h.calls call' hold
        · exact hcalls.2 _
  | advanceRecord i =>
    rw [next] at hnext
    split at hnext
    · cases hnext
    · cases hnext
    · next op rest hi =>
      obtain rfl := Option.some.inj hnext
      have hcalls := h.records _ (List.mem_of_getElem? hi)
      refine ⟨h.cache.serve hcalls.1, h.calls, fun p hp => ?_⟩
      rcases List.mem_or_eq_of_mem_set hp with hold | rfl
      · exact h.records p hold
      · exact hcalls.2 _
  | wait duration =>
    obtain rfl := Option.some.inj hnext
    refine ⟨fun key e hentry => ?_, h.calls, h.records⟩
    obtain ⟨deadline, hdeadline, hle⟩ := h.cache key e hentry
    exact ⟨deadline, hdeadline, hle.trans (Nat.add_le_add_right (Nat.le_add_right _ _) _)⟩
  | sweep =>
    obtain rfl := Option.some.inj hnext
    exact ⟨fun key e hentry => h.cache key e (MemoryCache.live_eq_some.mp hentry).1, h.calls,
      h.records⟩

/-- A call on a cache in which nothing is live is allowed. -/
theorem allowed_of_nothing_live {c : MemoryCache} {clock : Nat} (h : ∀ key, c.live clock key = none)
    (l : Limiter) (keyID modelAlias : String) :
    (eval (serve clock) (l.allowRequest keyID modelAlias) c).1.allowed = true := by
  have htallies : Tallies clock c fun _ => 0 :=
    ⟨fun w e hlive => by simp [h] at hlive, fun _ _ _ => rfl⟩
  refine (allowRequest_run htallies (fun _ _ => by decide) rfl).1.mpr ⟨?_, ?_⟩
  · intro layer _ hlimit
    have hone : (1 : ℚ) ≤ layer.limit := by exact_mod_cast hlimit
    simpa [Limiter.estimated, MemoryCache.count_of_none (h _)] using hone
  · intro layer _ hlimit
    simpa [Limiter.estimated, MemoryCache.count_of_none (h _)] using hlimit

/-- Whatever calls came before, in whatever interleaving: once nothing has been counted for longer
than the time to live of a counter, every call is allowed. -/
theorem recovers {ok : Traffic → Action → Prop} (hs : (system l).Reachable ok s) {duration : Nat}
    (hlong : Limiter.ttl < duration) (keyID modelAlias : String) :
    (eval (serve (s.clock + duration)) (l.allowRequest keyID modelAlias) s.cache).1.allowed =
      true := by
  have h : TimedTraffic s := by
    refine hs.invariant TimedTraffic ?_ fun s a s' _ h _ hstep => next_timed h hstep
    rintro _ ⟨clock, rfl⟩
    exact ⟨fun key e hentry => by simp [start] at hentry, by simp [start], by simp [start]⟩
  refine allowed_of_nothing_live (fun key => ?_) l keyID modelAlias
  refine Option.eq_none_iff_forall_ne_some.mpr fun e hlive => ?_
  obtain ⟨hentry, hopen⟩ := MemoryCache.live_eq_some.mp hlive
  obtain ⟨deadline, hdeadline, hle⟩ := h.cache key e hentry
  have hpositive : 0 < Limiter.ttl := by decide
  simp only [CacheEntry.expired, hdeadline, decide_eq_false_iff_not] at hopen
  omega

/-- A limit of one call a minute, which is used up: the next call is refused, and 62 seconds later
it is allowed. -/
theorem recovers_used_up :
    ∃ l s, (system l).Reachable (Undisturbed l) s ∧
      (eval (serve s.clock) (l.allowRequest "key" "model") s.cache).1.allowed = false ∧
      (eval (serve (s.clock + 62 * second)) (l.allowRequest "key" "model") s.cache).1.allowed =
        true := by
  let l : Limiter := { global := { rpm := 1 } }
  have hinit : (system l).Reachable (Undisturbed l) (start (60 * second)) := .init ⟨_, rfl⟩
  have hok : System.Admits (next l) (Undisturbed l) (start (60 * second))
      [.allow "key" "model", .advance 0, .advance 0, .advance 0] := by decide +kernel
  obtain ⟨s, hs, hrefused⟩ := System.Reachable.exists_of_exec
    (fun s => (eval (serve s.clock) (l.allowRequest "key" "model") s.cache).1.allowed = false)
    hinit hok (by decide +kernel)
  exact ⟨l, s, hs, hrefused, recovers hs (by decide) "key" "model"⟩

end Traffic

end LlmProxy.RateLimit
