import LlmProxy.Logging.Classify
import LlmProxy.Storage.Memory

/-! `storage.Cache`, as far as the counters of a limiter go: an operation that fails leaves every
counter as it is, and an increment that succeeds changes the one that it names. -/

namespace LlmProxy.Storage

open ProofKit

structure Cache (σ : Type) where
  get : σ → String → Option String × σ
  incrBy : σ → String → Int → Int → Except GoError Int × σ
  /-- The number under a key, 0 where there is none. -/
  count : σ → String → Int
  count_fits : ∀ s key, FitsInt64 (count s key)
  count_get : ∀ s key, count (get s key).2 = count s
  count_incrBy_error : ∀ s key delta ttl e, (incrBy s key delta ttl).1 = .error e →
    count (incrBy s key delta ttl).2 = count s
  count_incrBy_ok : ∀ s key delta ttl v, FitsInt64 delta → (incrBy s key delta ttl).1 = .ok v →
    count (incrBy s key delta ttl).2 =
      Function.update (count s) key (wrapInt64 (count s key + delta))

/-- The memory cache at a time of the clock. -/
def MemoryCache.cache (now : Nat) : Cache MemoryCache where
  get c key := (c.get now key, c)
  incrBy c key delta ttl := (c.incrBy now key delta ttl).map .ok id
  count c key := c.count now key
  count_fits c key := c.count_fits now key
  count_get _ _ := rfl
  count_incrBy_error _ _ _ _ _ h := by cases h
  count_incrBy_ok c key delta ttl v hdelta _ := by
    funext key'
    rw [Function.update_apply]
    exact (count_incrBy hdelta ttl key').2

/-- A cache of which the `n`-th operation fails with the error `fails n`, as every operation of
`RedisCache` does once the context is done: `Get` then finds nothing. -/
def Cache.failing {σ : Type} (C : Cache σ) (fails : Nat → Option GoError) : Cache (σ × Nat) where
  get s key :=
    match fails s.2 with
    | some _ => (none, s.1, s.2 + 1)
    | none => ((C.get s.1 key).1, (C.get s.1 key).2, s.2 + 1)
  incrBy s key delta ttl :=
    match fails s.2 with
    | some e => (.error e, s.1, s.2 + 1)
    | none => ((C.incrBy s.1 key delta ttl).1, (C.incrBy s.1 key delta ttl).2, s.2 + 1)
  count s := C.count s.1
  count_fits s := C.count_fits s.1
  count_get s key := by
    cases fails s.2 with
    | some e => rfl
    | none => exact C.count_get s.1 key
  count_incrBy_error s key delta ttl e := by
    cases fails s.2 with
    | some e => exact fun _ => rfl
    | none => exact C.count_incrBy_error s.1 key delta ttl e
  count_incrBy_ok s key delta ttl v hdelta := by
    cases fails s.2 with
    | some e => exact nofun
    | none => exact C.count_incrBy_ok s.1 key delta ttl v hdelta

end LlmProxy.Storage
