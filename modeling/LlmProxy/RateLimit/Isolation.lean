import LlmProxy.RateLimit.LimiterRun
import LlmProxy.RateLimit.Rollback

/-! Which counters a call of the limiter changes.  Every kind, scope, id and minute has a key of its
own, so that the calls of one key and model leave the counters of all others alone. -/

namespace LlmProxy.RateLimit

open ProofKit Storage Program

/-- The counters that `AllowRequest` may change. -/
def requestCounters (ts : Int) (keyID modelAlias : String) : List Counter :=
  [⟨.rpm, .global, "", ts⟩, ⟨.rpm, .model, modelAlias, ts⟩, ⟨.rpm, .key, keyID, ts⟩]

variable {clock : Nat} {c : MemoryCache} {delta : Int}

theorem serve_eq (clock : Nat) : serve clock = serveFrom (MemoryCache.cache clock) clock := by
  funext op c
  cases op <;> rfl

theorem slot_mem_requestCounters {l : Limiter} {keyID modelAlias : String} {ts : Int} {w : Slot}
    (h : w ∈ l.slots keyID modelAlias ts) :
    (⟨.rpm, w.scope, w.id, w.minute⟩ : Counter) ∈ requestCounters ts keyID modelAlias := by
  obtain ⟨layer, hlayer, rfl⟩ := List.mem_map.mp h
  have hmem := List.mem_of_mem_filter hlayer
  simp only [Limiter.rpmLayers, List.mem_cons, List.not_mem_nil, or_false] at hmem
  rcases hmem with rfl | rfl | rfl <;> simp [requestCounters, Limiter.Layer.slot]

/-- `AllowRequest` leaves every other counter. -/
theorem allowRequest_frame (l : Limiter) (keyID modelAlias : String) (clock : Nat) (c : MemoryCache)
    {w : Counter} (hw : w ∉ requestCounters (minuteOf clock) keyID modelAlias) :
    ((l.allowRequest keyID modelAlias).eval (serve clock) c).2.count clock w.key =
      c.count clock w.key := by
  obtain ⟨g, hbalance, -⟩ :=
    allowRequest_balance (MemoryCache.cache clock) l keyID modelAlias clock c
  have hnot : w.key ∉ g.held := fun hheld => by
    obtain ⟨slot, hslot, hkey⟩ := hbalance.held w.key hheld
    have hcounter : w = ⟨.rpm, slot.scope, slot.id, slot.minute⟩ := Counter.key_injective hkey
    exact hw (hcounter ▸ slot_mem_requestCounters hslot)
  rw [serve_eq]
  exact (hbalance.count w.key).trans (if_neg hnot)

/-- Increments of different counters by one amount. -/
theorem incrAll_counts {ws : List Counter} (hdelta : FitsInt64 delta) (hnodup : ws.Nodup)
    (hfits : ∀ w ∈ ws, FitsInt64 (c.count clock w.key + delta)) :
    ((Limiter.incrAll delta (ws.map Counter.key)).eval (serve clock) c).1 = none ∧
      ∀ w : Counter,
        ((Limiter.incrAll delta (ws.map Counter.key)).eval (serve clock) c).2.count clock w.key =
          c.count clock w.key + if w ∈ ws then delta else 0 := by
  induction ws generalizing c with
  | nil => exact ⟨rfl, fun w => (Int.add_zero _).symm⟩
  | cons w ws ih =>
    obtain ⟨hnot, hnodup⟩ := List.nodup_cons.mp hnodup
    have hafter (w' : Counter) : (c.incrBy clock w.key delta Limiter.ttl).2.count clock w'.key =
        c.count clock w'.key + if w' = w then delta else 0 := by
      rw [(MemoryCache.count_incrBy hdelta Limiter.ttl w'.key).2]
      by_cases hw : w' = w
      · subst hw
        rw [if_pos rfl, if_pos rfl, wrapInt64_of_fits (hfits w' (by simp))]
      · rw [if_neg (Counter.key_injective.ne hw), if_neg hw, Int.add_zero]
    have hrest : ∀ w' ∈ ws, FitsInt64
        ((c.incrBy clock w.key delta Limiter.ttl).2.count clock w'.key + delta) := fun w' hw' => by
      rw [hafter, if_neg (by rintro rfl; exact hnot hw'), Int.add_zero]
      exact hfits w' (by simp [hw'])
    obtain ⟨herr, hcounts⟩ := ih hnodup hrest
    rw [List.map_cons, Limiter.incrAll, eval_bind, run_eval]
    refine ⟨herr, fun w' => ?_⟩
    have hcount := hcounts w'
    rw [hafter] at hcount
    refine Eq.trans hcount ?_
    by_cases hw : w' = w
    · subst hw
      simp [hnot]
    · simp [hw]

theorem recordTokens_counts {keyID modelAlias : String} (hpos : 0 < delta)
    (hdelta : FitsInt64 delta)
    (hfits : ∀ w ∈ tokenCounters (minuteOf clock) keyID modelAlias,
      FitsInt64 (c.count clock w.key + delta)) :
    ((Limiter.recordTokens keyID modelAlias delta).eval (serve clock) c).1 = none ∧
      ∀ w : Counter,
        ((Limiter.recordTokens keyID modelAlias delta).eval (serve clock) c).2.count clock w.key =
          c.count clock w.key +
            if w ∈ tokenCounters (minuteOf clock) keyID modelAlias then delta else 0 := by
  rw [Limiter.recordTokens, if_neg (not_le.mpr hpos), eval_bind, run_eval]
  exact incrAll_counts hdelta (tokenCounters_nodup ..) hfits

/-- Different counters have different keys.  At every time and over every cache, `AllowRequest`
changes at most the counters of requests of its own key and model in this minute, and `RecordTokens`
adds the tokens to the counters of tokens of its own key and model and changes no other. -/
theorem counters_isolated (l : Limiter) (keyID modelAlias : String) (clock : Nat) (c : MemoryCache)
    {n : Int} (hpos : 0 < n) (hn : FitsInt64 n)
    (hfits : ∀ w ∈ tokenCounters (minuteOf clock) keyID modelAlias,
      FitsInt64 (c.count clock w.key + n)) :
    Function.Injective Counter.key ∧
      (∀ w ∉ requestCounters (minuteOf clock) keyID modelAlias,
        ((l.allowRequest keyID modelAlias).eval (serve clock) c).2.count clock w.key =
          c.count clock w.key) ∧
      ((Limiter.recordTokens keyID modelAlias n).eval (serve clock) c).1 = none ∧
      ∀ w : Counter,
        ((Limiter.recordTokens keyID modelAlias n).eval (serve clock) c).2.count clock w.key =
          c.count clock w.key +
            if w ∈ tokenCounters (minuteOf clock) keyID modelAlias then n else 0 :=
  ⟨Counter.key_injective, fun _ hw => allowRequest_frame l keyID modelAlias clock c hw,
    recordTokens_counts hpos hn hfits⟩

/-- A model whose name ends like the key of another counter. -/
theorem counters_isolated_colon :
    ((Limiter.recordTokens "k" "m:7" 3).eval (serve 0) {}).2.count 0 (tpmKey .model "m:7" 0) = 3 ∧
      ((Limiter.recordTokens "k" "m:7" 3).eval (serve 0) {}).2.count 0 (tpmKey .model "m" 7) =
        0 := by
  have h := (counters_isolated {} "k" "m:7" 0 {} (n := 3) (by decide) (by decide) (by decide)).2.2.2
  exact ⟨(h ⟨.tpm, .model, "m:7", 0⟩).trans (by decide),
    (h ⟨.tpm, .model, "m", 7⟩).trans (by decide)⟩

end LlmProxy.RateLimit
