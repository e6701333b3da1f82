import LlmProxy.ProofKit.ReadThrough
import LlmProxy.RateLimit.Limiter
import LlmProxy.Storage.ApiKeys

/-! Package `main`: the function `keyLimits` that the limiter asks for the limits of a key.  It
keeps what it finds in the table `api_keys` for 30 s, in a `sync.Map` that all requests share.  The
table is written by others, and a look-up may fail: both are functions of the time here. -/

namespace LlmProxy.RateLimit

open ProofKit Storage

/-- `GetAPIKey`, with no row for the error of a missing one. -/
def getAPIKey (t : ApiKeys) (id : String) : Option APIKey := t.get? id

def keyLimitTTL : Nat := 30 * second

/-- The limits of a row. -/
def limitsOf : Option APIKey → Option RateLimitConfig
  | some k => if 0 < k.tpm ∨ 0 < k.rpm then some { tpm := k.tpm, rpm := k.rpm } else none
  | none => none

/-- What a call that misses the cache finds at a time: an error is taken for a key without
limits. -/
def lookUp (table : Nat → ApiKeys) (fails : Nat → String → Bool) (time : Nat) (keyID : String) :
    Option RateLimitConfig :=
  if fails time keyID then none else limitsOf (getAPIKey (table time) keyID)

/-- Any number of calls of `keyLimits`. -/
def keyLimits (table : Nat → ApiKeys) (fails : Nat → String → Bool) :
    System (ReadThrough String (Option RateLimitConfig)) (ReadThrough.Action String) :=
  ReadThrough.system keyLimitTTL (lookUp table fails)

variable {table : Nat → ApiKeys} {fails : Nat → String → Bool} {d time : Nat} {keyID : String}
  {limit : Option RateLimitConfig} {s : ReadThrough String (Option RateLimitConfig)}

/-- A change of a key's row is in force 30 s later.  From `changed` to `time` the row has been the
same and no look-up has failed; a call that returns at `time`, at least 30 s after the change and
the longest time `d` between a look-up and its store, returns the limits of that row, whatever other
calls have put into the cache before and meanwhile. -/
theorem keyLimits_takes_effect (h : (keyLimits table fails).Reachable (ReadThrough.Prompt d) s)
    (hreturned : .returned keyID limit time ∈ s.calls) {changed : Nat} {row : Option APIKey}
    (hrow : ∀ t, changed ≤ t → t ≤ time → fails t keyID = false ∧ getAPIKey (table t) keyID = row)
    (htime : changed + d + keyLimitTTL ≤ time) : limit = limitsOf row := by
  obtain ⟨t, hle, hage, hvalue⟩ := ReadThrough.returned_fresh h hreturned
  obtain ⟨hanswered, hsame⟩ := hrow t (by omega) hle
  rw [hvalue, lookUp, hanswered, hsame]
  rfl

/-- The table of one key, with this limit on requests. -/
def oneKey (rpm : Int) : ApiKeys :=
  ⟨⟨[{ id := "k", key := "sk", rpm }], by simp⟩, by simp⟩

deriving instance DecidableEq for RateLimitConfig

/-- The limit of a key goes from 5 to 7 right after the first call has put 5 into the cache.  A call
29 s later returns 5 still; one at 31 s does not. -/
theorem keyLimits_takes_effect_raised :
    ∃ s, (keyLimits (fun t => oneKey (if t = 0 then 5 else 7)) fun _ _ => false).Reachable
        (ReadThrough.Prompt 0) s ∧
      .returned "k" (some { rpm := 5 }) (29 * second) ∈ s.calls ∧
      ∃ limit, .returned "k" limit (31 * second) ∈ s.calls ∧
        limit = limitsOf (some { id := "k", key := "sk", rpm := 7 }) := by
  have hinit : (keyLimits (fun t => oneKey (if t = 0 then 5 else 7)) fun _ _ => false).Reachable
      (ReadThrough.Prompt 0) { now := 0 } := .init ⟨0, rfl⟩
  obtain ⟨s, hs, hearly, hlate⟩ := hinit.exists_of_exec
    (fun s => .returned "k" (some { rpm := 5 }) (29 * second) ∈ s.calls ∧
      .returned "k" (some { rpm := 7 }) (31 * second) ∈ s.calls)
    (show System.Admits _ _ _ [.call "k", .advance 0, .advance 0, .advance 0, .tick (29 * second),
      .call "k", .advance 1, .advance 1, .tick (2 * second), .call "k", .advance 2, .advance 2,
      .advance 2, .advance 2] by decide) (by decide)
  refine ⟨s, hs, hearly, _, hlate, ?_⟩
  have hrow : ∀ t, 1 ≤ t → t ≤ 31 * second →
      (fun _ _ => false : Nat → String → Bool) t "k" = false ∧
        getAPIKey (oneKey (if t = 0 then 5 else 7)) "k" =
          some { id := "k", key := "sk", rpm := 7 } := by
    intro t ht _
    rw [if_neg (by omega)]
    exact ⟨rfl, rfl⟩
  exact keyLimits_takes_effect hs hlate hrow (by decide)

end LlmProxy.RateLimit
