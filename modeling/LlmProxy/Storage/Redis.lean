import LlmProxy.ProofKit.Significant
import LlmProxy.Storage.Memory

/-! `redis.RedisCache` and the part of Redis that it uses, next to `memory.MemoryCache`.  The clock
of the server is that of the program, and a script is one step of the server. -/

namespace LlmProxy.Storage

open ProofKit

def millisecond : Nat := 1000000

/-- The errors of `INCRBY`. -/
inductive RedisError
  | notAnInteger
  | wouldOverflow
  deriving DecidableEq

/-- What the server stores: texts under keys, each with an optional deadline. -/
structure RedisServer where
  keys : String → Option CacheEntry := fun _ => none

namespace RedisServer

def put (s : RedisServer) (key : String) (e : Option CacheEntry) : RedisServer :=
  { keys := Function.update s.keys key e }

/-- A key is gone once its deadline has passed. -/
def live (s : RedisServer) (now : Nat) (key : String) : Option CacheEntry :=
  (s.keys key).filter fun e => !e.expired now

/-! ### Commands -/

/-- The decimal texts of type `int64`, the only ones that Redis takes for an integer. -/
def Decimal (text : String) : Prop := formatInt (parseInt text) = text

instance (text : String) : Decidable (Decimal text) := inferInstanceAs (Decidable (_ = _))

/-- `INCRBY`, which leaves a deadline as it is, and does not give one to a new key. -/
def incrByCommand (s : RedisServer) (now : Nat) (key : String) (delta : Int) :
    Except RedisError (Int × RedisServer) :=
  match s.live now key with
  | none => .ok (delta, s.put key (some { value := formatInt delta }))
  | some e =>
    if Decimal e.value then
      let val := parseInt e.value + delta
      if FitsInt64 val then .ok (val, s.put key (some { e with value := formatInt val }))
      else .error .wouldOverflow
    else .error .notAnInteger

/-- `TTL`: -2 without the key, -1 without a deadline, the seconds that are left otherwise. -/
def ttlCommand (s : RedisServer) (now : Nat) (key : String) : Int :=
  match s.live now key with
  | none => -2
  | some e =>
    match e.expireAt with
    | none => -1
    | some deadline => (((deadline - now) / millisecond + 500) / 1000 : Nat)

/-- `PEXPIRE`, which deletes the key unless the milliseconds are positive. -/
def pexpireCommand (s : RedisServer) (now : Nat) (key : String) (ms : Int) : RedisServer :=
  match s.live now key with
  | none => s
  | some e =>
    s.put key
      (if 0 < ms then some { e with expireAt := some (now + ms.toNat * millisecond) } else none)

/-- An integer that a script returns: in Lua it is a number, that is a `float64`, which the server
converts to an `int64` for its reply.  A number that is none becomes the smallest one, as on
amd64. -/
def luaInteger (val : Int) : Int :=
  if FitsInt64 (roundInt 53 val) then roundInt 53 val else -2 ^ 63

/-! ### `RedisCache` -/

def get (s : RedisServer) (now : Nat) (key : String) : Option String :=
  (s.live now key).map (·.value)

/-- `Set` with a duration that is not negative. -/
def set (s : RedisServer) (now : Nat) (key value : String) (ttl : Int) : RedisServer :=
  s.put key (some { value, expireAt := deadlineOf now ttl })

def delete (s : RedisServer) (key : String) : RedisServer := s.put key none

/-- `IncrBy`, with the script `incrLua`. -/
def incrBy (s : RedisServer) (now : Nat) (key : String) (delta ttl : Int) :
    Except RedisError Int × RedisServer :=
  let ttlMs := ttl.tdiv millisecond
  match s.incrByCommand now key delta with
  | .error e => (.error e, s)
  | .ok (val, s) =>
    (.ok (luaInteger val), if s.ttlCommand now key = -1 then s.pexpireCommand now key ttlMs else s)

end RedisServer

/-! ### Calls -/

/-- A call of the cache, or a round of the cleanup of `MemoryCache`. -/
inductive CacheCall
  | get (key : String)
  | set (key value : String) (ttl : Int)
  | delete (key : String)
  | incrBy (key : String) (delta ttl : Int)
  | cleanup

/-- What a call returns. -/
inductive CacheReply
  | found (value : Option String)
  | done
  | counted (result : Except RedisError Int)
  deriving DecidableEq

def MemoryCache.step (c : MemoryCache) (now : Nat) : CacheCall → CacheReply × MemoryCache
  | .get key => (.found (c.get now key), c)
  | .set key value ttl => (.done, c.set now key value ttl)
  | .delete key => (.done, c.delete key)
  | .incrBy key delta ttl =>
    (.counted (.ok (c.incrBy now key delta ttl).1), (c.incrBy now key delta ttl).2)
  | .cleanup => (.done, c.sweep now)

def RedisServer.step (s : RedisServer) (now : Nat) : CacheCall → CacheReply × RedisServer
  | .get key => (.found (s.get now key), s)
  | .set key value ttl => (.done, s.set now key value ttl)
  | .delete key => (.done, s.delete key)
  | .incrBy key delta ttl =>
    (.counted (s.incrBy now key delta ttl).1, (s.incrBy now key delta ttl).2)
  | .cleanup => (.done, s)

/-- The replies to a sequence of calls, each with its time. -/
def replies {σ : Type} (step : σ → Nat → CacheCall → CacheReply × σ) :
    σ → List (Nat × CacheCall) → List CacheReply
  | _, [] => []
  | s, (now, call) :: rest => (step s now call).1 :: replies step (step s now call).2 rest

/-- This holds of each call and of the memory cache before it. -/
def Along (P : MemoryCache → Nat → CacheCall → Prop) : MemoryCache → List (Nat × CacheCall) → Prop
  | _, [] => True
  | c, (now, call) :: rest => P c now call ∧ Along P (c.step now call).2 rest

instance (P : MemoryCache → Nat → CacheCall → Prop) [∀ c now call, Decidable (P c now call)] :
    (c : MemoryCache) → (calls : List (Nat × CacheCall)) → Decidable (Along P c calls)
  | _, [] => isTrue trivial
  | c, (now, call) :: rest =>
    have := instDecidableAlong P (c.step now call).2 rest
    inferInstanceAs (Decidable (_ ∧ _))

def WholeMilliseconds (ttl : Int) : Prop := 0 ≤ ttl ∧ (millisecond : Int) ∣ ttl

instance (ttl : Int) : Decidable (WholeMilliseconds ttl) := inferInstanceAs (Decidable (_ ∧ _))

/-- The values stay decimal and fit, and durations are whole milliseconds. -/
def Regular (c : MemoryCache) (now : Nat) : CacheCall → Prop
  | .get _ => True
  | .set _ value ttl => RedisServer.Decimal value ∧ WholeMilliseconds ttl
  | .delete _ => True
  | .incrBy key delta ttl =>
    FitsInt64 delta ∧ FitsInt64 (c.count now key + delta) ∧ WholeMilliseconds ttl
  | .cleanup => True

instance (c : MemoryCache) (now : Nat) : (call : CacheCall) → Decidable (Regular c now call)
  | .get _ | .delete _ | .cleanup => isTrue trivial
  | .set _ _ _ => inferInstanceAs (Decidable (_ ∧ _))
  | .incrBy _ _ _ => inferInstanceAs (Decidable (_ ∧ _ ∧ _))

/-- An increment comes with a duration if it creates the key, and otherwise finds a key with a
deadline. -/
def CountsInWindow (c : MemoryCache) (now : Nat) : CacheCall → Prop
  | .incrBy key _ ttl => (c.live now key).elim (0 < ttl) fun e => e.expireAt ≠ none
  | _ => True

instance (c : MemoryCache) (now : Nat) : (call : CacheCall) → Decidable (CountsInWindow c now call)
  | .incrBy key _ ttl =>
    match h : c.live now key with
    | none => decidable_of_iff (0 < ttl) (by rw [CountsInWindow, h]; rfl)
    | some e => decidable_of_iff (e.expireAt ≠ none) (by rw [CountsInWindow, h]; rfl)
  | .get _ | .set _ _ _ | .delete _ | .cleanup => isTrue trivial

/-- The new count of an increment is an integer that a `float64` holds exactly, as all up to 2^53
are. -/
def ExactInLua (c : MemoryCache) (now : Nat) : CacheCall → Prop
  | .incrBy key delta _ => Significant 53 (c.count now key + delta)
  | _ => True

instance (c : MemoryCache) (now : Nat) : (call : CacheCall) → Decidable (ExactInLua c now call)
  | .incrBy _ _ _ => decidable_of_iff _ roundInt_eq_self_iff
  | .get _ | .set _ _ _ | .delete _ | .cleanup => isTrue trivial

def CountsAlike (c : MemoryCache) (now : Nat) (call : CacheCall) : Prop :=
  CountsInWindow c now call ∧ ExactInLua c now call

instance (c : MemoryCache) (now : Nat) (call : CacheCall) : Decidable (CountsAlike c now call) :=
  inferInstanceAs (Decidable (_ ∧ _))

/-- The two caches cannot be told apart: their replies are the same, and so would be those to a
`Get` at any time after any of the calls. -/
structure DropIn (calls : List (Nat × CacheCall)) : Prop where
  replies_eq : replies MemoryCache.step {} calls = replies RedisServer.step {} calls
  get_eq : ∀ first, first <+: calls → ∀ later key, (∀ call ∈ first, call.1 ≤ later) →
    replies MemoryCache.step {} (first ++ [(later, .get key)]) =
      replies RedisServer.step {} (first ++ [(later, .get key)])

/-! ### The script -/

namespace RedisServer

variable {s : RedisServer} {now : Nat} {key : String}

theorem live_put_of_ne {key' : String} (h : key' ≠ key) (e : Option CacheEntry) :
    (s.put key e).live now key' = s.live now key' := by
  simp [live, put, Function.update_of_ne h]

theorem live_put_self (e : Option CacheEntry) :
    (s.put key e).live now key = e.filter fun e => !e.expired now := by
  simp [live, put]

theorem put_put (e e' : Option CacheEntry) : (s.put key e).put key e' = s.put key e' := by
  simp [put]

/-- What the second half of the script makes of a new value. -/
def expiring (now : Nat) (ttl : Int) (e : CacheEntry) : Option CacheEntry :=
  if e.expireAt = none then
    if 0 < ttl then some { e with expireAt := deadlineOf now ttl } else none
  else some e

theorem ttlCommand_eq_neg_one {e : CacheEntry} (h : s.live now key = some e) :
    s.ttlCommand now key = -1 ↔ e.expireAt = none := by
  unfold ttlCommand
  rw [h]
  cases hd : e.expireAt with
  | none => simp [hd]
  | some deadline =>
    simp only [hd, reduceCtorEq]

theorem luaInteger_eq_self_iff {val : Int} (hfits : FitsInt64 val) :
    luaInteger val = val ↔ Significant 53 val := by
  rw [← roundInt_eq_self_iff, luaInteger]
  constructor
  · intro h
    split at h
    · exact h
    · rw [← h]
      decide
  · intro h
    rw [h, if_pos hfits]

example : luaInteger (2 ^ 53 + 1) = 2 ^ 53 ∧ luaInteger (2 ^ 63 - 1) = -2 ^ 63 := by decide

theorem incrBy_ok {delta ttl val : Int} {e : CacheEntry} (httl : WholeMilliseconds ttl)
    (hopen : e.expired now = false)
    (hincr : s.incrByCommand now key delta = .ok (val, s.put key (some e))) :
    s.incrBy now key delta ttl = (.ok (luaInteger val), s.put key (expiring now ttl e)) := by
  obtain ⟨hpos, ms, rfl⟩ := httl
  have hms : ((millisecond : Int) * ms).tdiv millisecond = ms :=
    Int.mul_tdiv_cancel_left _ (by decide)
  have hlive : (s.put key (some e)).live now key = some e := by simp [live_put_self, hopen]
  simp only [incrBy, hincr, hms, ttlCommand_eq_neg_one hlive, expiring, Prod.mk.injEq, true_and]
  split
  · have hsign : 0 < (millisecond : Int) * ms ↔ 0 < ms := by simp [millisecond]
    have htime : ((millisecond : Int) * ms).toNat = ms.toNat * millisecond := by
      simp only [millisecond]; omega
    simp only [pexpireCommand, hlive, put_put, hsign, deadlineOf, htime]
    split <;> rfl
  · rfl

theorem incrBy_none {delta ttl : Int} (httl : WholeMilliseconds ttl) (h : s.live now key = none) :
    s.incrBy now key delta ttl =
      (.ok (luaInteger delta), s.put key (expiring now ttl { value := formatInt delta })) := by
  refine incrBy_ok httl rfl ?_
  rw [incrByCommand, h]

theorem incrBy_some {delta ttl : Int} (httl : WholeMilliseconds ttl) {e : CacheEntry}
    (h : s.live now key = some e) (hdecimal : Decimal e.value)
    (hfits : FitsInt64 (parseInt e.value + delta)) :
    s.incrBy now key delta ttl =
      (.ok (luaInteger (parseInt e.value + delta)),
        s.put key (expiring now ttl { e with value := formatInt (parseInt e.value + delta) })) := by
  refine incrBy_ok httl ?_ ?_
  · have hopen : e.expired now = false := by simpa using (Option.filter_eq_some_iff.mp h).2
    exact hopen
  · simp only [incrByCommand, h, if_pos hdecimal, if_pos hfits]

end RedisServer

namespace MemoryCache

variable {c : MemoryCache} {now : Nat} {key : String}

theorem incrBy_none {delta ttl : Int} (h : c.live now key = none) :
    c.incrBy now key delta ttl =
      (delta, c.put key (some { value := formatInt delta, expireAt := deadlineOf now ttl })) := by
  rw [incrBy, h]

theorem incrBy_some {delta ttl : Int} {e : CacheEntry} (h : c.live now key = some e)
    (hfits : FitsInt64 (parseInt e.value + delta)) :
    c.incrBy now key delta ttl =
      (parseInt e.value + delta,
        c.put key (some { e with value := formatInt (parseInt e.value + delta) })) := by
  have hcurrent : (if e.value = "" then 0 else parseInt e.value) = parseInt e.value := by
    split
    · next hempty =>
      rw [hempty]
      rfl
    · rfl
  simp only [incrBy, h, hcurrent, wrapInt64_of_fits hfits]

end MemoryCache

/-! ### Both caches -/

section Agree

open RedisServer (Decimal expiring luaInteger luaInteger_eq_self_iff)

/-- From a time on the two caches have the same entries, and numbers in them. -/
structure Agree (last : Nat) (s : RedisServer) (c : MemoryCache) : Prop where
  live_eq : ∀ later, last ≤ later → ∀ key, s.live later key = c.live later key
  decimal : ∀ key e, c.live last key = some e → Decimal e.value

variable {last now : Nat} {s : RedisServer} {c : MemoryCache}

theorem Agree.mono (h : Agree last s c) (hle : last ≤ now) : Agree now s c where
  live_eq later hlater := h.live_eq later (hle.trans hlater)
  decimal key e hlive := h.decimal key e (MemoryCache.live_of_le hle hlive)

/-- The same entry is put in both caches. -/
theorem Agree.put (h : Agree now s c) (key : String) {e : Option CacheEntry}
    (hdecimal : ∀ e', e = some e' → Decimal e'.value) : Agree now (s.put key e) (c.put key e) := by
  constructor
  · intro later hlater key'
    by_cases hkey : key' = key
    · subst hkey
      simp [RedisServer.live_put_self, MemoryCache.live, MemoryCache.put]
    · rw [RedisServer.live_put_of_ne hkey, MemoryCache.live_put_of_ne hkey]
      exact h.live_eq later hlater key'
  · intro key' e' hlive
    by_cases hkey : key' = key
    · subst hkey
      have hentry := (MemoryCache.live_eq_some.mp hlive).1
      simp only [MemoryCache.put, Function.update_self] at hentry
      exact hdecimal e' hentry
    · rw [MemoryCache.live_put_of_ne hkey] at hlive
      exact h.decimal key' e' hlive

/-- Whoever looks finds the same in both caches. -/
theorem get_eq_of_live {later : Nat} {key : String} (h : s.live later key = c.live later key) :
    c.get later key = s.get later key := by
  rw [MemoryCache.get, RedisServer.get, h]

theorem decimal_formatInt {x : Int} (h : FitsInt64 x) : Decimal (formatInt x) := by
  rw [Decimal, parseInt_formatInt h]

/-- An increment of agreeing caches: both count the same, which the script may not return, and put
an entry of this value that may differ in its deadline. -/
theorem Agree.incrBy (h : Agree now s c) {key : String} {delta ttl : Int}
    (hregular : Regular c now (.incrBy key delta ttl)) :
    ∃ val e, val = c.count now key + delta ∧ FitsInt64 val ∧ e.value = formatInt val ∧
      e.expireAt = (c.live now key).elim none CacheEntry.expireAt ∧
      s.incrBy now key delta ttl = (.ok (luaInteger val), s.put key (expiring now ttl e)) ∧
      c.incrBy now key delta ttl =
        (val, c.put key (some { e with
          expireAt := (c.live now key).elim (deadlineOf now ttl) CacheEntry.expireAt })) := by
  obtain ⟨hdelta, hsum, httl⟩ := hregular
  have hlive := h.live_eq now le_rfl key
  cases hentry : c.live now key with
  | none =>
    rw [hentry] at hlive
    exact ⟨delta, { value := formatInt delta }, by
      rw [MemoryCache.count_of_none hentry, Int.zero_add],
      hdelta, rfl, rfl, RedisServer.incrBy_none httl hlive, MemoryCache.incrBy_none hentry⟩
  | some e =>
    rw [hentry] at hlive
    rw [MemoryCache.count_of_live hentry] at hsum ⊢
    exact ⟨_, { e with value := formatInt (parseInt e.value + delta) }, rfl, hsum, rfl, rfl,
      RedisServer.incrBy_some httl hlive (h.decimal key e hentry) hsum,
      MemoryCache.incrBy_some hentry hsum⟩

/-- A window has a deadline, which the script then leaves as it is, or gets one from it. -/
theorem expiring_of_window {ttl : Int} {e : CacheEntry} {old : Option CacheEntry}
    (hdeadline : e.expireAt = old.elim none CacheEntry.expireAt)
    (hwindow : old.elim (0 < ttl) fun e => e.expireAt ≠ none) :
    expiring now ttl e =
      some { e with expireAt := old.elim (deadlineOf now ttl) CacheEntry.expireAt } := by
  cases old with
  | none =>
    have hpos : 0 < ttl := hwindow
    have hnone : e.expireAt = none := hdeadline
    rw [expiring, if_pos hnone, if_pos hpos]
    rfl
  | some old =>
    have hkept : e.expireAt = old.expireAt := hdeadline
    have hsome : old.expireAt ≠ none := hwindow
    rw [expiring, if_neg (hkept ▸ hsome), Option.elim_some, ← hkept]

/-- Without a window the entry goes from Redis, at once or when the duration is over, and stays in
the memory cache. -/
theorem expiring_of_not_window (now : Nat) {ttl : Int} {e : CacheEntry} {old : Option CacheEntry}
    (hdeadline : e.expireAt = old.elim none CacheEntry.expireAt)
    (hwindow : ¬ old.elim (0 < ttl) fun e => e.expireAt ≠ none) :
    old.elim (deadlineOf now ttl) CacheEntry.expireAt = none ∧
      ∀ e', expiring now ttl e = some e' → e'.expired (now + ttl.toNat + 1) = true := by
  have hnone : e.expireAt = none ∧ old.elim (deadlineOf now ttl) CacheEntry.expireAt = none := by
    cases old with
    | none => exact ⟨hdeadline, if_neg hwindow⟩
    | some old =>
      have hold : old.expireAt = none := not_not.mp hwindow
      exact ⟨hdeadline.trans hold, hold⟩
  refine ⟨hnone.2, fun e' he' => ?_⟩
  rw [expiring, if_pos hnone.1] at he'
  split at he'
  · next hpos =>
    cases he'
    simp [CacheEntry.expired, deadlineOf, hpos]
  · cases he'

theorem Agree.step (h : Agree now s c) {call : CacheCall} (hregular : Regular c now call)
    (halike : CountsAlike c now call) :
    (c.step now call).1 = (s.step now call).1 ∧
      Agree now (s.step now call).2 (c.step now call).2 := by
  cases call with
  | get key => exact ⟨congrArg CacheReply.found (get_eq_of_live (h.live_eq now le_rfl key)), h⟩
  | set key value ttl =>
    refine ⟨rfl, h.put key fun e he => ?_⟩
    cases he
    exact hregular.1
  | delete key => exact ⟨rfl, h.put key nofun⟩
  | incrBy key delta ttl =>
    obtain ⟨val, e, hval, hfits, hvalue, hdeadline, hredis, hmemory⟩ := h.incrBy hregular
    obtain ⟨hwindow, hexact⟩ := halike
    have hlua : luaInteger val = val := (luaInteger_eq_self_iff hfits).mpr (hval ▸ hexact)
    simp only [MemoryCache.step, RedisServer.step, hredis, hmemory, hlua,
      expiring_of_window hdeadline hwindow]
    refine ⟨trivial, h.put key fun e' he' => ?_⟩
    cases he'
    exact hvalue ▸ decimal_formatInt hfits
  | cleanup =>
    refine ⟨rfl, fun later hlater key => ?_, fun key e hlive => ?_⟩
    · exact (h.live_eq later hlater key).trans (MemoryCache.live_sweep_of_le hlater).symm
    · exact h.decimal key e (MemoryCache.live_sweep.symm.trans hlive)

/-- If agreeing caches give the same reply to a call and cannot be told apart after it, then the
call counts in a window, and exactly. -/
theorem Agree.alike (h : Agree now s c) {call : CacheCall} (hregular : Regular c now call)
    (hreply : (c.step now call).1 = (s.step now call).1)
    (hsame : ∀ later, now ≤ later → ∀ key,
      (c.step now call).2.get later key = (s.step now call).2.get later key) :
    CountsAlike c now call := by
  cases call with
  | incrBy key delta ttl =>
    obtain ⟨val, e, hval, hfits, -, hdeadline, hredis, hmemory⟩ := h.incrBy hregular
    have hexact : val = luaInteger val := by
      simpa [MemoryCache.step, RedisServer.step, hredis, hmemory] using hreply
    have hsignificant := (luaInteger_eq_self_iff hfits).mp hexact.symm
    rw [hval] at hsignificant
    refine ⟨?_, hsignificant⟩
    by_contra hwindow
    obtain ⟨hstays, hgoes⟩ := expiring_of_not_window now hdeadline hwindow
    have hfound : (c.incrBy now key delta ttl).2.get (now + ttl.toNat + 1) key = some e.value := by
      rw [hmemory, hstays, MemoryCache.get, MemoryCache.live_put_self]
      rfl
    have hgone : (s.incrBy now key delta ttl).2.get (now + ttl.toNat + 1) key = none := by
      rw [hredis, RedisServer.get, RedisServer.live_put_self, Option.map_eq_none_iff,
        Option.filter_eq_none_iff]
      exact fun e' he' => by simp [hgoes e' he']
    have hget := hsame (now + ttl.toNat + 1) (by omega) key
    rw [MemoryCache.step, RedisServer.step, hfound, hgone] at hget
    cases hget
  | _ => exact ⟨trivial, trivial⟩

/-! ### Sequences of calls -/

variable {P : MemoryCache → Nat → CacheCall → Prop} {first calls : List (Nat × CacheCall)}

theorem Along.of_isPrefix (h : Along P c calls) (hpre : first <+: calls) : Along P c first := by
  induction first generalizing c calls with
  | nil => trivial
  | cons call first ih =>
    obtain ⟨rest, rfl⟩ := hpre
    exact ⟨h.1, ih h.2 (List.prefix_append _ _)⟩

theorem Along.concat (h : Along P c calls) {later : Nat} {call : CacheCall}
    (hlast : ∀ c, P c later call) :
    Along P c (calls ++ [(later, call)]) := by
  induction calls generalizing c with
  | nil => exact ⟨hlast c, trivial⟩
  | cons call calls ih => exact ⟨h.1, ih h.2⟩

theorem Agree.replies (h : Agree last s c) (hsorted : (last :: calls.map Prod.fst).Pairwise (· ≤ ·))
    (hregular : Along Regular c calls) (halike : Along CountsAlike c calls) :
    Storage.replies MemoryCache.step c calls = Storage.replies RedisServer.step s calls := by
  induction calls generalizing last s c with
  | nil => rfl
  | cons call calls ih =>
    obtain ⟨hlast, hrest⟩ := List.pairwise_cons.mp hsorted
    have hnow := h.mono (hlast call.1 (by simp))
    obtain ⟨hreply, hagree⟩ := hnow.step hregular.1 halike.1
    rw [Storage.replies, Storage.replies, hreply, ih hagree hrest hregular.2 halike.2]

theorem Agree.along_alike (h : Agree last s c)
    (hsorted : (last :: calls.map Prod.fst).Pairwise (· ≤ ·)) (hregular : Along Regular c calls)
    (hsame : ∀ first, first <+: calls → ∀ later key, last ≤ later →
      (∀ call ∈ first, call.1 ≤ later) →
      Storage.replies MemoryCache.step c (first ++ [(later, .get key)]) =
        Storage.replies RedisServer.step s (first ++ [(later, .get key)])) :
    Along CountsAlike c calls := by
  induction calls generalizing last s c with
  | nil => trivial
  | cons call calls ih =>
    obtain ⟨now, call⟩ := call
    obtain ⟨hlast, hrest⟩ := List.pairwise_cons.mp hsorted
    have hle : last ≤ now := hlast now (by simp)
    have hfirst (later : Nat) (hlater : now ≤ later) (key : String) :=
      hsame [(now, call)] (by simp) later key (hle.trans hlater) (by simpa using hlater)
    have halike : CountsAlike c now call := by
      refine (h.mono hle).alike hregular.1 (List.cons.inj (hfirst now le_rfl "")).1 ?_
      intro later hlater key
      exact CacheReply.found.inj (List.cons.inj (List.cons.inj (hfirst later hlater key)).2).1
    refine ⟨halike, ih ((h.mono hle).step hregular.1 halike).2 hrest hregular.2 ?_⟩
    intro first hfirst later key hlater hbefore
    have hreplies := hsame ((now, call) :: first) ((List.prefix_cons_inj _).mpr hfirst) later key
      (hle.trans hlater) (List.forall_mem_cons.mpr ⟨hlater, hbefore⟩)
    exact (List.cons.inj hreplies).2

end Agree

theorem agree_empty : Agree 0 {} {} := ⟨fun _ _ _ => rfl, nofun⟩

/-- The caches are told apart exactly by increments that find a key without a deadline, or create
one without a duration, or come to a count that a Lua number does not hold. -/
theorem drop_in_iff {calls : List (Nat × CacheCall)}
    (hsorted : (calls.map Prod.fst).Pairwise (· ≤ ·)) (hregular : Along Regular {} calls) :
    DropIn calls ↔ Along CountsAlike {} calls := by
  have hstart (times : List Nat) (h : times.Pairwise (· ≤ ·)) : (0 :: times).Pairwise (· ≤ ·) :=
    List.pairwise_cons.mpr ⟨fun _ _ => Nat.zero_le _, h⟩
  constructor
  · intro h
    refine agree_empty.along_alike (hstart _ hsorted) hregular ?_
    exact fun first hfirst later key _ hbefore => h.get_eq first hfirst later key hbefore
  · intro h
    refine ⟨agree_empty.replies (hstart _ hsorted) hregular h,
      fun first hfirst later key hbefore => ?_⟩
    refine agree_empty.replies (hstart _ ?_) ((hregular.of_isPrefix hfirst).concat fun _ => trivial)
      ((h.of_isPrefix hfirst).concat fun _ => ⟨trivial, trivial⟩)
    rw [List.map_append, List.pairwise_append]
    refine ⟨hsorted.sublist (hfirst.sublist.map _), List.pairwise_singleton _ _, ?_⟩
    simpa using fun time call hmem => hbefore (time, call) hmem

/-- Two increments in a window of a second, and one after it. -/
theorem drop_in_windows :
    DropIn [(0, .incrBy "k" 1 second), (5, .incrBy "k" 2 second),
      (2 * second, .incrBy "k" 3 second)] := by
  refine (drop_in_iff ?_ ?_).mpr ?_
  · decide
  · decide
  · decide

/-- A number that was set without a duration: the next increment gives it a deadline in Redis. -/
theorem set_key_gets_deadline :
    Along Regular {} [(0, .set "k" "1" 0), (1, .incrBy "k" 1 second), (2 * second, .get "k")] ∧
      replies MemoryCache.step {} [(0, .set "k" "1" 0), (1, .incrBy "k" 1 second),
        (2 * second, .get "k")] = [.done, .counted (.ok 2), .found (some "2")] ∧
      replies RedisServer.step {} [(0, .set "k" "1" 0), (1, .incrBy "k" 1 second),
        (2 * second, .get "k")] = [.done, .counted (.ok 2), .found none] := by
  decide

end LlmProxy.Storage
