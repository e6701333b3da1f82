import Mathlib.Data.Rat.Defs
import LlmProxy.Domain
import LlmProxy.Logging.Classify
import LlmProxy.ProofKit.Program
import LlmProxy.Storage.Memory

/-! `ratelimit.Limiter`: the global, per-model and per-key limits on requests and tokens a minute.
The code is a program over the operations of the clock and of the cache, so that it can be run to
its end against a cache or be interleaved with other calls.  The `float64` expressions are exact
rationals here. -/

namespace LlmProxy.RateLimit

open ProofKit Storage

/-- What the limiter asks of the clock and of a `storage.Cache`. -/
inductive Op
  | now
  | get (key : String)
  | incrBy (key : String) (delta ttl : Int)
  deriving DecidableEq

def Op.Ans : Op → Type
  | now => Nat
  | get _ => Option String
  | incrBy .. => Except GoError Int

abbrev Prog := Program Op Op.Ans

def Op.run (op : Op) : Prog op.Ans := .perform op

/-- The operations on a `MemoryCache` at a time of the clock. -/
def serve (clock : Nat) : (op : Op) → MemoryCache → op.Ans × MemoryCache
  | .now, c => (clock, c)
  | .get key, c => (c.get clock key, c)
  | .incrBy key delta ttl, c => ((c.incrBy clock key delta ttl).map .ok id)

/-- `Unix() / 60` of a time. -/
def minuteOf (now : Nat) : Int := Int.ofNat (now / second / 60)

/-- `Second()` of a time: the offset of the local time zone is a number of whole minutes. -/
def secondOf (now : Nat) : Nat := now / second % 60

/-! ### Keys -/

inductive Scope
  | global
  | model
  | key
  deriving DecidableEq

def Scope.text : Scope → String
  | global => "global"
  | model => "model"
  | key => "key"

inductive Kind
  | rpm
  | tpm
  deriving DecidableEq

def Kind.text : Kind → String
  | rpm => "rl:rpm"
  | tpm => "rl:tpm"

/-- What `rpmKey` and `tpmKey` have in common. -/
def windowKey (kind : Kind) (scope : Scope) (id : String) (ts : Int) : String :=
  if id = "" then kind.text ++ ":" ++ scope.text ++ ":" ++ formatInt ts
  else kind.text ++ ":" ++ scope.text ++ ":" ++ id ++ ":" ++ formatInt ts

def rpmKey : Scope → String → Int → String := windowKey .rpm

def tpmKey : Scope → String → Int → String := windowKey .tpm

/-! ### Limits -/

structure Limiter where
  global : RateLimitConfig := {}
  modelLimits : String → Option RateLimitConfig := fun _ => none
  /-- The function that looks up the limits of a key, which may be nil. -/
  keyLimits : Option (String → Option RateLimitConfig) := none

namespace Limiter

def modelRPM (l : Limiter) (alias_ : String) : Int := ((l.modelLimits alias_).map (·.rpm)).getD 0

def modelTPM (l : Limiter) (alias_ : String) : Int := ((l.modelLimits alias_).map (·.tpm)).getD 0

def keyRPM (l : Limiter) (keyID : String) : Int :=
  ((l.keyLimits.bind (· keyID)).map (·.rpm)).getD 0

def keyTPM (l : Limiter) (keyID : String) : Int :=
  ((l.keyLimits.bind (· keyID)).map (·.tpm)).getD 0

/-- An element of `rpmLayers` or `tpmLayers`. -/
structure Layer where
  scope : Scope
  id : String
  limit : Int

def rpmLayers (l : Limiter) (keyID modelAlias : String) : List Layer :=
  [⟨.global, "", l.global.rpm⟩, ⟨.model, modelAlias, l.modelRPM modelAlias⟩,
    ⟨.key, keyID, l.keyRPM keyID⟩]

def tpmLayers (l : Limiter) (keyID modelAlias : String) : List Layer :=
  [⟨.global, "", l.global.tpm⟩, ⟨.model, modelAlias, l.modelTPM modelAlias⟩,
    ⟨.key, keyID, l.keyTPM keyID⟩]

/-! ### AllowRequest -/

/-- The results of `AllowRequest`. -/
structure AllowResult where
  allowed : Bool
  status : RateLimitStatus := {}
  err : Option GoError := none

def ttl : Int := 61 * second

def getCount (key : String) : Prog Int := do
  match ← (Op.get key).run with
  | none => pure 0
  | some val => pure (parseInt val)

def undo : List String → Prog Unit
  | [] => pure ()
  | k :: rest => do
    let _ ← (Op.incrBy k (-1) ttl).run
    undo rest

def estimated (currCount prevCount : Int) (weight : ℚ) : ℚ := currCount + prevCount * (1 - weight)

/-- `int(x)` of a `float64`. -/
def truncate (x : ℚ) : Int := x.num.tdiv x.den

/-- The loop over `rpmLayers`: the keys that it has incremented, or the results of a rejection. -/
def checkRPM (ts : Int) (weight : ℚ) :
    List Layer → List String → Prog (Except AllowResult (List String))
  | [], incremented => pure (.ok incremented)
  | layer :: rest, incremented =>
    if layer.limit ≤ 0 then checkRPM ts weight rest incremented
    else do
      let currKey := rpmKey layer.scope layer.id ts
      let prevCount ← getCount (rpmKey layer.scope layer.id (ts - 1))
      match ← (Op.incrBy currKey 1 ttl).run with
      | .error e =>
        undo incremented
        pure (.error
          { allowed := false, status := { blockReason := "cache_error" },
            err := some (e.wrap "ratelimit: rpm cache error: ") })
      | .ok currCount =>
        if (layer.limit : ℚ) < estimated currCount prevCount weight then do
          undo (incremented ++ [currKey])
          pure (.error
            { allowed := false
              status :=
                { blockReason := "limit_exceeded"
                  rpmCurrent := truncate (estimated currCount prevCount weight)
                  rpmLimit := layer.limit } })
        else checkRPM ts weight rest (incremented ++ [currKey])

/-- The loop over `tpmLayers`. -/
def checkTPM (ts : Int) (weight : ℚ) (incremented : List String) :
    List Layer → Prog (Except AllowResult Unit)
  | [] => pure (.ok ())
  | layer :: rest =>
    if layer.limit ≤ 0 then checkTPM ts weight incremented rest
    else do
      let currCount ← getCount (tpmKey layer.scope layer.id ts)
      let prevCount ← getCount (tpmKey layer.scope layer.id (ts - 1))
      if (layer.limit : ℚ) ≤ estimated currCount prevCount weight then do
        undo incremented
        pure (.error
          { allowed := false
            status :=
              { blockReason := "limit_exceeded"
                tpmCurrent := truncate (estimated currCount prevCount weight)
                tpmLimit := layer.limit } })
      else checkTPM ts weight incremented rest

/-- The checks in the minute `ts`, of which the part `weight` has passed. -/
def checkLayers (l : Limiter) (keyID modelAlias : String) (ts : Int) (weight : ℚ) :
    Prog AllowResult := do
  match ← checkRPM ts weight (l.rpmLayers keyID modelAlias) [] with
  | .error result => pure result
  | .ok incremented =>
    match ← checkTPM ts weight incremented (l.tpmLayers keyID modelAlias) with
    | .error result => pure result
    | .ok () => pure { allowed := true }

/-- Whether no limit applies to a call. -/
def unlimited (l : Limiter) (keyID modelAlias : String) : Bool :=
  l.global.rpm ≤ 0 && l.global.tpm ≤ 0 && l.modelRPM modelAlias ≤ 0 && l.modelTPM modelAlias ≤ 0 &&
    l.keyRPM keyID ≤ 0 && l.keyTPM keyID ≤ 0

def allowRequest (l : Limiter) (keyID modelAlias : String) : Prog AllowResult :=
  if l.unlimited keyID modelAlias then pure { allowed := true }
  else do
    let now ← Op.now.run
    l.checkLayers keyID modelAlias (minuteOf now) (secondOf now / 60)

/-! ### RecordTokens -/

/-- Increments of several keys by one amount, up to the first error. -/
def incrAll (delta : Int) : List String → Prog (Option GoError)
  | [] => pure none
  | k :: rest => do
    match ← (Op.incrBy k delta ttl).run with
    | .error e => pure (some (e.wrap "ratelimit: record tokens: "))
    | .ok _ => incrAll delta rest

def recordTokens (keyID modelAlias : String) (actualTokens : Int) : Prog (Option GoError) :=
  if actualTokens ≤ 0 then pure none
  else do
    let now ← Op.now.run
    let ts := minuteOf now
    incrAll actualTokens [tpmKey .global "" ts, tpmKey .model modelAlias ts, tpmKey .key keyID ts]

end Limiter

end LlmProxy.RateLimit
