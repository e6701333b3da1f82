import Mathlib.Logic.Function.Basic
import LlmProxy.ProofKit.Strconv

/-! `memory.MemoryCache`: texts under keys, each with an optional deadline.  Times are nanoseconds
since 1970 and durations are nanoseconds; every operation reads the clock once, and takes the time
that it reads as an argument here. -/

namespace LlmProxy.Storage

open ProofKit

def second : Nat := 1000000000

/-- `cacheEntry`, without a deadline where `expireAt` is the zero time. -/
structure CacheEntry where
  value : String
  expireAt : Option Nat := none
  deriving DecidableEq

def CacheEntry.expired (e : CacheEntry) (now : Nat) : Bool :=
  match e.expireAt with
  | none => false
  | some deadline => deadline < now

/-- The deadline that a positive `ttl` sets at the time `now`. -/
def deadlineOf (now : Nat) (ttl : Int) : Option Nat :=
  if 0 < ttl then some (now + ttl.toNat) else none

structure MemoryCache where
  entries : String → Option CacheEntry := fun _ => none

namespace MemoryCache

def put (c : MemoryCache) (key : String) (e : Option CacheEntry) : MemoryCache :=
  { entries := Function.update c.entries key e }

/-- The entry under a key, unless there is none or it has expired. -/
def live (c : MemoryCache) (now : Nat) (key : String) : Option CacheEntry :=
  (c.entries key).filter fun e => !e.expired now

def get (c : MemoryCache) (now : Nat) (key : String) : Option String :=
  (c.live now key).map (·.value)

def set (c : MemoryCache) (now : Nat) (key value : String) (ttl : Int) : MemoryCache :=
  c.put key (some { value, expireAt := deadlineOf now ttl })

def delete (c : MemoryCache) (key : String) : MemoryCache := c.put key none

/-- `IncrBy`, whose error is always nil. -/
def incrBy (c : MemoryCache) (now : Nat) (key : String) (delta ttl : Int) : Int × MemoryCache :=
  match c.live now key with
  | none => (delta, c.put key (some { value := formatInt delta, expireAt := deadlineOf now ttl }))
  | some e =>
    let current := if e.value = "" then 0 else parseInt e.value
    let current := wrapInt64 (current + delta)
    (current, c.put key (some { e with value := formatInt current }))

/-- One round of `cleanup`. -/
def sweep (c : MemoryCache) (now : Nat) : MemoryCache :=
  { entries := fun key => c.live now key }

/-! ### Counters -/

/-- The number under a key, 0 where there is none. -/
def count (c : MemoryCache) (now : Nat) (key : String) : Int :=
  ((c.get now key).map parseInt).getD 0

variable {c : MemoryCache} {now : Nat} {key : String}

theorem expired_of_le {e : CacheEntry} {now later : Nat} (hle : now ≤ later)
    (h : e.expired now = true) : e.expired later = true := by
  unfold CacheEntry.expired at *
  cases hd : e.expireAt with
  | none => simp [hd] at h
  | some deadline =>
    simp only [hd, decide_eq_true_eq] at h ⊢
    omega

theorem live_eq_some {e : CacheEntry} :
    c.live now key = some e ↔ c.entries key = some e ∧ e.expired now = false := by
  simp [live, Option.filter_eq_some_iff]

@[simp] theorem live_put_of_ne {key' : String} (h : key' ≠ key) (e : Option CacheEntry) :
    (c.put key e).live now key' = c.live now key' := by
  simp [live, put, Function.update_of_ne h]

@[simp] theorem live_put_self (e : CacheEntry) :
    (c.put key (some e)).live now key = if e.expired now then none else some e := by
  cases he : e.expired now <;> simp [live, put, Option.filter_some, he]

/-- What is live later was live before. -/
theorem live_of_le {e : CacheEntry} {later : Nat} (hle : now ≤ later)
    (h : c.live later key = some e) : c.live now key = some e := by
  rw [live_eq_some] at h ⊢
  refine ⟨h.1, ?_⟩
  cases he : e.expired now with
  | false => rfl
  | true => exact absurd (expired_of_le hle he) (by simp [h.2])

theorem live_sweep_of_le {later : Nat} (hle : now ≤ later) :
    (c.sweep now).live later key = c.live later key := by
  cases hlive : c.live later key with
  | some e => exact live_eq_some.mpr ⟨live_of_le hle hlive, (live_eq_some.mp hlive).2⟩
  | none =>
    rw [Option.eq_none_iff_forall_ne_some]
    intro e h
    obtain ⟨hnow, hopen⟩ := live_eq_some.mp h
    have hentry := (live_eq_some.mp (show c.live now key = some e from hnow)).1
    rw [live_eq_some.mpr ⟨hentry, hopen⟩] at hlive
    cases hlive

@[simp] theorem live_sweep : (c.sweep now).live now key = c.live now key := live_sweep_of_le le_rfl

theorem count_of_live {e : CacheEntry} (h : c.live now key = some e) :
    c.count now key = parseInt e.value := by
  simp [count, get, h]

theorem count_of_none (h : c.live now key = none) : c.count now key = 0 := by
  simp [count, get, h]

theorem count_eq_of_live {c' : MemoryCache} (h : c'.live now key = c.live now key) :
    c'.count now key = c.count now key := by
  simp [count, get, h]

theorem count_fits (c : MemoryCache) (now : Nat) (key : String) : FitsInt64 (c.count now key) := by
  cases hlive : c.live now key with
  | none =>
    rw [count_of_none hlive]
    decide
  | some e =>
    rw [count_of_live hlive]
    exact parseInt_fits e.value

theorem count_put_self {e : CacheEntry} (h : e.expired now = false) :
    (c.put key (some e)).count now key = parseInt e.value :=
  count_of_live (by simp [h])

theorem expired_deadlineOf (value : String) (now : Nat) (ttl : Int) :
    ({ value, expireAt := deadlineOf now ttl } : CacheEntry).expired now = false := by
  by_cases hpos : 0 < ttl <;> simp [CacheEntry.expired, deadlineOf, hpos]

/-- An increment changes one count, as the type of the counters has it, and returns the new one. -/
theorem count_incrBy {delta : Int} (hdelta : FitsInt64 delta) (ttl : Int) (key' : String) :
    (c.incrBy now key delta ttl).1 = wrapInt64 (c.count now key + delta) ∧
      (c.incrBy now key delta ttl).2.count now key' =
        if key' = key then wrapInt64 (c.count now key + delta) else c.count now key' := by
  have hframe (e : Option CacheEntry) (hne : key' ≠ key) :
      (c.put key e).count now key' = c.count now key' :=
    count_eq_of_live (live_put_of_ne hne e)
  unfold incrBy
  cases hlive : c.live now key with
  | none =>
    rw [count_of_none hlive, Int.zero_add, wrapInt64_of_fits hdelta]
    refine ⟨rfl, ?_⟩
    by_cases hkey : key' = key
    · subst hkey
      rw [if_pos rfl, count_put_self (expired_deadlineOf _ now ttl), parseInt_formatInt hdelta]
    · rw [if_neg hkey]
      exact hframe _ hkey
  | some e =>
    have hcurrent : (if e.value = "" then 0 else parseInt e.value) = parseInt e.value := by
      split
      · next hempty =>
        rw [hempty]
        rfl
      · rfl
    have hopen (value : String) : ({ e with value } : CacheEntry).expired now = false :=
      (live_eq_some.mp hlive).2
    simp only [hcurrent, count_of_live hlive]
    refine ⟨trivial, ?_⟩
    by_cases hkey : key' = key
    · subst hkey
      rw [if_pos rfl, count_put_self (hopen _), parseInt_formatInt (wrapInt64_fits _)]
    · rw [if_neg hkey]
      exact hframe _ hkey

end MemoryCache

end LlmProxy.Storage
