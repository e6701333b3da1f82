import LlmProxy.ProofKit.System
import Mathlib.Logic.Function.Basic

/-! A read-through cache with a time to live, under any number of concurrent calls.  A call looks
for an entry and returns its value if it is not expired; otherwise it reads the source, stores the
value with a new expiry and returns it.  No lock is held across these steps, so that a call may
store a value after others have stored a later one.  The source may change at any time. -/

namespace LlmProxy.ProofKit

structure CachedValue (ν : Type) where
  value : ν
  expiresAt : Nat
  /-- History: when the source was read. -/
  readAt : Nat
  deriving DecidableEq

/-- How far a call is. -/
inductive LookUp (κ ν : Type)
  | loading (key : κ)
  /-- It has an entry, and comes to compare the expiry with the clock. -/
  | testing (key : κ) (entry : CachedValue ν)
  | reading (key : κ)
  | storing (key : κ) (value : ν) (readAt : Nat)
  | returned (key : κ) (value : ν) (time : Nat)
  deriving DecidableEq

structure ReadThrough (κ ν : Type) where
  now : Nat
  cache : κ → Option (CachedValue ν) := fun _ => none
  calls : List (LookUp κ ν) := []

namespace ReadThrough

variable {κ ν : Type} [DecidableEq κ]

inductive Action (κ : Type)
  | tick (elapsed : Nat)
  | call (key : κ)
  /-- The next operation of a call. -/
  | advance (i : Nat)

/-- The next operation of a call: where it is then, and the cache. -/
def operate (ttl : Nat) (source : Nat → κ → ν) (s : ReadThrough κ ν) :
    LookUp κ ν → Option (LookUp κ ν × (κ → Option (CachedValue ν)))
  | .loading key =>
    match s.cache key with
    | some entry => some (.testing key entry, s.cache)
    | none => some (.reading key, s.cache)
  | .testing key entry =>
    some (if s.now < entry.expiresAt then .returned key entry.value s.now else .reading key,
      s.cache)
  | .reading key => some (.storing key (source s.now key) s.now, s.cache)
  | .storing key value readAt =>
    some (.returned key value s.now,
      Function.update s.cache key (some { value, expiresAt := s.now + ttl, readAt }))
  | .returned .. => none

def next (ttl : Nat) (source : Nat → κ → ν) (s : ReadThrough κ ν) :
    Action κ → Option (ReadThrough κ ν)
  | .tick elapsed => some { s with now := s.now + elapsed }
  | .call key => some { s with calls := s.calls ++ [.loading key] }
  | .advance i =>
    s.calls[i]?.bind fun call => (operate ttl source s call).map fun (call, cache) =>
      { s with cache, calls := s.calls.set i call }

/-- Starts at any time, with nothing cached. -/
def system (ttl : Nat) (source : Nat → κ → ν) : System (ReadThrough κ ν) (Action κ) :=
  .ofNext (fun s => ∃ now, s = { now }) (next ttl source)

/-- A call that comes to store a value has read it at most `d` before. -/
def InTime (d now : Nat) : LookUp κ ν → Prop
  | .storing _ _ readAt => now ≤ readAt + d
  | .loading _ | .testing .. | .reading _ | .returned .. => True

instance (d now : Nat) : (call : LookUp κ ν) → Decidable (InTime d now call)
  | .storing _ _ readAt => inferInstanceAs (Decidable (now ≤ readAt + d))
  | .loading _ | .testing .. | .reading _ | .returned .. => instDecidableTrue

/-- A call stores its value at most `d` after it has read it. -/
def Prompt (d : Nat) (s : ReadThrough κ ν) : Action κ → Prop
  | .advance i => ∀ call ∈ s.calls[i]?, InTime d s.now call
  | .tick _ | .call _ => True

instance (d : Nat) (s : ReadThrough κ ν) : (a : Action κ) → Decidable (Prompt d s a)
  | .advance i => inferInstanceAs (Decidable (∀ call ∈ s.calls[i]?, InTime d s.now call))
  | .tick _ | .call _ => instDecidableTrue

/-- The value was that of the source at a time not later than `time` and at most `age` before it. -/
def FreshAt (source : Nat → κ → ν) (age time : Nat) (key : κ) (value : ν) : Prop :=
  ∃ t ≤ time, time ≤ t + age ∧ value = source t key

variable {ttl d : Nat} {source : Nat → κ → ν} {s s' : ReadThrough κ ν} {a : Action κ}

/-- An entry that was read from the source, and that expires in time. -/
def Genuine (ttl d : Nat) (source : Nat → κ → ν) (now : Nat) (key : κ) (e : CachedValue ν) : Prop :=
  e.readAt ≤ now ∧ e.expiresAt ≤ e.readAt + d + ttl ∧ e.value = source e.readAt key

def Fair (ttl d : Nat) (source : Nat → κ → ν) (now : Nat) : LookUp κ ν → Prop
  | .loading _ | .reading _ => True
  | .testing key entry => Genuine ttl d source now key entry
  | .storing key value readAt => readAt ≤ now ∧ value = source readAt key
  | .returned key value time => FreshAt source (d + ttl) time key value

structure Inv (ttl d : Nat) (source : Nat → κ → ν) (s : ReadThrough κ ν) : Prop where
  cache : ∀ key e, s.cache key = some e → Genuine ttl d source s.now key e
  calls : ∀ call ∈ s.calls, Fair ttl d source s.now call

omit [DecidableEq κ] in
theorem Genuine.later {now now' : Nat} {key : κ} {e : CachedValue ν}
    (h : Genuine ttl d source now key e) (hle : now ≤ now') : Genuine ttl d source now' key e :=
  ⟨Nat.le_trans h.1 hle, h.2⟩

omit [DecidableEq κ] in
theorem Fair.later {now now' : Nat} {call : LookUp κ ν} (h : Fair ttl d source now call)
    (hle : now ≤ now') : Fair ttl d source now' call := by
  cases call with
  | loading | reading => trivial
  | testing key entry => exact Genuine.later h hle
  | storing key value readAt => exact ⟨Nat.le_trans h.1 hle, h.2⟩
  | returned key value time => exact h

/-- An operation of one call. -/
theorem operate_inv (h : Inv ttl d source s) {call call' : LookUp κ ν}
    {cache : κ → Option (CachedValue ν)} (hcall : Fair ttl d source s.now call)
    (hprompt : InTime d s.now call)
    (hoperate : operate ttl source s call = some (call', cache)) :
    Fair ttl d source s.now call' ∧ ∀ key e, cache key = some e →
      Genuine ttl d source s.now key e := by
  cases call with
  | loading key =>
    simp only [operate] at hoperate
    split at hoperate
    · next entry hentry =>
      obtain ⟨rfl, rfl⟩ := by simpa using hoperate
      exact ⟨h.cache key entry hentry, h.cache⟩
    · obtain ⟨rfl, rfl⟩ := by simpa using hoperate
      exact ⟨trivial, h.cache⟩
  | testing key entry =>
    obtain ⟨rfl, rfl⟩ := by simpa [operate] using hoperate
    refine ⟨?_, h.cache⟩
    split
    · next hlive =>
      obtain ⟨hread, hexpires, hvalue⟩ : Genuine ttl d source s.now key entry := hcall
      exact ⟨entry.readAt, hread, by omega, hvalue⟩
    · trivial
  | reading key =>
    obtain ⟨rfl, rfl⟩ := by simpa [operate] using hoperate
    exact ⟨⟨Nat.le_refl _, rfl⟩, h.cache⟩
  | storing key value readAt =>
    obtain ⟨rfl, rfl⟩ := by simpa [operate] using hoperate
    obtain ⟨hread, hvalue⟩ : readAt ≤ s.now ∧ value = source readAt key := hcall
    have hprompt : s.now ≤ readAt + d := hprompt
    have hexpires : s.now + ttl ≤ readAt + d + ttl := by omega
    refine ⟨⟨readAt, hread, by omega, hvalue⟩, fun key' e he => ?_⟩
    by_cases hkey : key' = key
    · subst hkey
      rw [Function.update_self] at he
      obtain rfl := Option.some.inj he
      exact ⟨hread, hexpires, hvalue⟩
    · rw [Function.update_of_ne hkey] at he
      exact h.cache key' e he
  | returned => cases hoperate

theorem next_inv (h : Inv ttl d source s) (hprompt : Prompt d s a)
    (hnext : next ttl source s a = some s') : Inv ttl d source s' := by
  cases a with
  | tick elapsed =>
    obtain rfl := Option.some.inj hnext
    exact ⟨fun key e he => (h.cache key e he).later (Nat.le_add_right _ _),
      fun call hc => (h.calls call hc).later (Nat.le_add_right _ _)⟩
  | call key =>
    obtain rfl := Option.some.inj hnext
    refine ⟨h.cache, fun c hc => ?_⟩
    rcases List.mem_append.mp hc with hc | hc
    · exact h.calls c hc
    · rw [List.mem_singleton.mp hc]
      trivial
  | advance i =>
    obtain ⟨call, hget, hmap⟩ := Option.bind_eq_some_iff.mp hnext
    obtain ⟨⟨call', cache⟩, hoperate, rfl⟩ := Option.map_eq_some_iff.mp hmap
    obtain ⟨hcall, hcache⟩ :=
      operate_inv h (h.calls call (List.mem_of_getElem? hget)) (hprompt call hget) hoperate
    refine ⟨hcache, fun c hc => ?_⟩
    rcases List.mem_or_eq_of_mem_set hc with hc | rfl
    · exact h.calls c hc
    · exact hcall

/-- Whatever calls run beside each other and however the source changes: a call that returns a value
returns one that the source had at most `d + ttl` before, if no call takes longer than `d` from its
read to its store. -/
theorem returned_fresh (h : (system ttl source).Reachable (Prompt d) s) {key : κ} {value : ν}
    {time : Nat} (hreturned : .returned key value time ∈ s.calls) :
    FreshAt source (d + ttl) time key value := by
  have hi : Inv ttl d source s := by
    apply h.invariant (Inv ttl d source)
    · rintro _ ⟨now, rfl⟩
      exact ⟨nofun, nofun⟩
    · intro s a s' _ hi hok hstep
      exact next_inv hi hok hstep
  exact hi.calls _ hreturned

end ReadThrough

end LlmProxy.ProofKit
