import LlmProxy.Domain
import LlmProxy.ProofKit.Counting
import LlmProxy.ProofKit.Strconv
import LlmProxy.ProofKit.System

/-! The warnings of `LogRateLimitCheck`, which any number of workers call at the same time.  A step
is one operation on the clock, on one of the two atomic integers, or of `slog`; the clock may be set
to any time. -/

namespace LlmProxy.Logging

open ProofKit

/-- A warning, with the time that it was decided at. -/
structure Warning where
  now : Int
  blocked : Int
  status : RateLimitStatus

/-- Where a call of `LogRateLimitCheck` is, with what it has read so far. -/
inductive CheckPhase
  | entered (status : RateLimitStatus)
  | counted (status : RateLimitStatus) (count : Int)
  | timed (status : RateLimitStatus) (count now : Int)
  | loaded (status : RateLimitStatus) (count now last : Int)
  | warning (w : Warning)
  | resetting
  | returned

/-- The fields of `ChainLogger`, the clock, and the calls.  The rest is history: the warnings, and
the times that were put into `rlLastLogTime`, the last one first. -/
structure ChainLogger where
  rlBlockedCount : Int := 0
  rlLastLogTime : Int := 0
  clock : Int := 0
  calls : List CheckPhase := []
  warned : List Warning := []
  swapped : List Int := []

namespace ChainLogger

inductive Action
  | check (allowed : Bool) (status : RateLimitStatus)
  | advance (i : Nat)
  | setClock (unix : Int)

/-- The next operation of a call. -/
def advance (s : ChainLogger) : CheckPhase → Option (ChainLogger × CheckPhase)
  | .entered status =>
    let count := wrapInt64 (s.rlBlockedCount + 1)
    some ({ s with rlBlockedCount := count }, .counted status count)
  | .counted status count => some (s, .timed status count s.clock)
  | .timed status count now => some (s, .loaded status count now s.rlLastLogTime)
  | .loaded status count now last =>
    if now - last < 5 then some (s, .returned)
    else if s.rlLastLogTime = last then
      -- `CompareAndSwap` succeeds
      some ({ s with rlLastLogTime := now, swapped := now :: s.swapped },
        .warning ⟨now, count, status⟩)
    else some (s, .returned)
  | .warning w => some ({ s with warned := w :: s.warned }, .resetting)
  | .resetting => some ({ s with rlBlockedCount := 0 }, .returned)
  | .returned => none

def next (s : ChainLogger) : Action → Option ChainLogger
  | .check allowed status =>
    some { s with calls := s.calls ++ [if allowed then .returned else .entered status] }
  | .advance i =>
    s.calls[i]?.bind fun call => (s.advance call).map fun (s', call') =>
      { s' with calls := s.calls.set i call' }
  | .setClock unix => some { s with clock := unix }

def system : System ChainLogger Action := .ofNext (· = {}) next

/-! ### What a step can do -/

inductive Advanced (s : ChainLogger) : CheckPhase → ChainLogger → CheckPhase → Prop
  | count {status : RateLimitStatus} {count : Int} :
      Advanced s (.entered status) { s with rlBlockedCount := count } (.counted status count)
  | time {status : RateLimitStatus} {count : Int} :
      Advanced s (.counted status count) s (.timed status count s.clock)
  | load {status : RateLimitStatus} {count now : Int} :
      Advanced s (.timed status count now) s (.loaded status count now s.rlLastLogTime)
  | swap {status : RateLimitStatus} {count now : Int} (hlater : s.rlLastLogTime + 5 ≤ now) :
      Advanced s (.loaded status count now s.rlLastLogTime)
        { s with rlLastLogTime := now, swapped := now :: s.swapped } (.warning ⟨now, count, status⟩)
  | leave {status : RateLimitStatus} {count now last : Int} :
      Advanced s (.loaded status count now last) s .returned
  | warn {w : Warning} : Advanced s (.warning w) { s with warned := w :: s.warned } .resetting
  | reset : Advanced s .resetting { s with rlBlockedCount := 0 } .returned

variable {s s' : ChainLogger} {call call' : CheckPhase}

theorem advance_cases (h : s.advance call = some (s', call')) : Advanced s call s' call' := by
  cases call with
  | entered status =>
    obtain ⟨rfl, rfl⟩ := Prod.mk.inj (Option.some.inj h)
    exact .count
  | counted status count =>
    obtain ⟨rfl, rfl⟩ := Prod.mk.inj (Option.some.inj h)
    exact .time
  | timed status count now =>
    obtain ⟨rfl, rfl⟩ := Prod.mk.inj (Option.some.inj h)
    exact .load
  | loaded status count now last =>
    simp only [advance] at h
    split at h
    · obtain ⟨rfl, rfl⟩ := Prod.mk.inj (Option.some.inj h)
      exact .leave
    · next hlater =>
      split at h
      · next hlast =>
        obtain ⟨rfl, rfl⟩ := Prod.mk.inj (Option.some.inj h)
        subst hlast
        exact .swap (by omega)
      · obtain ⟨rfl, rfl⟩ := Prod.mk.inj (Option.some.inj h)
        exact .leave
  | warning w =>
    obtain ⟨rfl, rfl⟩ := Prod.mk.inj (Option.some.inj h)
    exact .warn
  | resetting =>
    obtain ⟨rfl, rfl⟩ := Prod.mk.inj (Option.some.inj h)
    exact .reset
  | returned => cases h

/-! ### Every interleaving -/

/-- The time of the warning that a call is about to write. -/
def due : CheckPhase → Option Int
  | .warning w => some w.now
  | _ => none

/-- The times that were put into `rlLastLogTime` are five seconds apart, and each of them is that of
one warning, written or about to be. -/
structure Spaced (s : ChainLogger) : Prop where
  apart : s.swapped.Pairwise fun later earlier => earlier + 5 ≤ later
  last : ∀ t ∈ s.swapped, t ≤ s.rlLastLogTime
  warned : (↑(s.warned.map (·.now)) : Multiset Int) + holdings due s.calls = ↑s.swapped

theorem Advanced.spaced (hstep : Advanced s call s' call') (h : Spaced s) {i : Nat}
    (hcall : s.calls[i]? = some call) : Spaced { s' with calls := s.calls.set i call' } := by
  -- the step of a call that is not about to write a warning, before or after it
  have hsilent (hdue : due call' = due call) :
      holdings due (s.calls.set i call') = holdings due s.calls :=
    holdings_same due hcall call' hdue
  cases hstep with
  | count => exact ⟨h.apart, h.last, by simpa only [hsilent rfl] using h.warned⟩
  | time => exact ⟨h.apart, h.last, by simpa only [hsilent rfl] using h.warned⟩
  | load => exact ⟨h.apart, h.last, by simpa only [hsilent rfl] using h.warned⟩
  | leave => exact ⟨h.apart, h.last, by simpa only [hsilent rfl] using h.warned⟩
  | reset => exact ⟨h.apart, h.last, by simpa only [hsilent rfl] using h.warned⟩
  | @swap status count now hlater =>
    have hbefore : ∀ t ∈ s.swapped, t + 5 ≤ now := by
      intro t ht
      have := h.last t ht
      omega
    refine ⟨List.pairwise_cons.mpr ⟨hbefore, h.apart⟩, List.forall_mem_cons.mpr ⟨le_refl _, ?_⟩, ?_⟩
    · intro t ht
      have := hbefore t ht
      show t ≤ now
      omega
    · have hgain := holdings_gain due hcall (.warning ⟨now, count, status⟩) rfl rfl
      rw [hgain, ← add_assoc, h.warned, coe_cons]
  | @warn w =>
    have hloss := holdings_loss due hcall .resetting rfl rfl
    refine ⟨h.apart, h.last, ?_⟩
    rw [← h.warned, hloss, List.map_cons, coe_cons]
    abel

theorem next_spaced {a : Action} (h : Spaced s) (hnext : next s a = some s') : Spaced s' := by
  cases a with
  | check allowed status =>
    obtain rfl := Option.some.inj hnext
    have hcalls := @holdings_concat _ _ due s.calls (if allowed then .returned else .entered status)
      (by cases allowed <;> rfl)
    exact ⟨h.apart, h.last, by simpa only [hcalls] using h.warned⟩
  | advance i =>
    obtain ⟨call, hcall, hmap⟩ := Option.bind_eq_some_iff.mp hnext
    obtain ⟨⟨mid, call'⟩, hadvance, rfl⟩ := Option.map_eq_some_iff.mp hmap
    exact (advance_cases hadvance).spaced h hcall
  | setClock unix =>
    obtain rfl := Option.some.inj hnext
    exact ⟨h.apart, h.last, h.warned⟩

theorem reachable_spaced {ok : ChainLogger → Action → Prop} (hs : system.Reachable ok s) :
    Spaced s := by
  refine hs.invariant Spaced ?_ fun s a s' _ h _ hstep => next_spaced h hstep
  rintro _ rfl
  exact ⟨.nil, by simp, rfl⟩

/-- However the calls interleave and whatever the clock does, the warnings decided from one second
to another are at most one for every five seconds, and one more. -/
theorem warnings_bounded {ok : ChainLogger → Action → Prop} (hs : system.Reachable ok s)
    {first last : Int} (hle : first ≤ last) :
    5 * (s.warned.countP fun w => first ≤ w.now ∧ w.now ≤ last : Int) ≤ last - first + 5 := by
  have h := reachable_spaced hs
  have hwarned : (s.warned.map (·.now)).countP (fun t => first ≤ t ∧ t ≤ last) ≤
      s.swapped.countP fun t => first ≤ t ∧ t ≤ last := by
    have hsub : (↑(s.warned.map (·.now)) : Multiset Int) ≤ ↑s.swapped :=
      h.warned ▸ Multiset.le_add_right _ _
    exact (Multiset.coe_le.mp hsub).countP_le _
  have hbound := mul_length_le_of_pairwise (d := 5) (by decide) (h.apart.filter fun t => first ≤ t ∧
    t ≤ last) hle
    fun t ht => of_decide_eq_true (List.mem_filter.mp ht).2
  rw [← List.countP_eq_length_filter] at hbound
  rw [List.countP_map] at hwarned
  simp only [Function.comp_def] at hwarned
  omega

/-- Of three calls, at 100, at 102 and at 105, the first and the last one warn. -/
theorem warnings_bounded_tight :
    ∃ s : ChainLogger, system.Reachable System.always s ∧ s.warned.map (·.now) = [105, 100] ∧
      5 * (s.warned.countP fun w => 100 ≤ w.now ∧ w.now ≤ 105 : Int) ≤ 10 := by
  have hinit : system.Reachable System.always {} := .init rfl
  obtain ⟨s, hs, hwarned⟩ :=
    hinit.exists_of_exec (fun s : ChainLogger => s.warned.map (·.now) = [105, 100])
    (show System.Admits next System.always {} [.setClock 100, .check false {}, .advance 0,
      .advance 0, .advance 0, .advance 0, .advance 0, .advance 0, .setClock 102, .check false {},
      .advance 1, .advance 1, .advance 1, .advance 1, .setClock 105, .check false {}, .advance 2,
      .advance 2, .advance 2, .advance 2, .advance 2, .advance 2]
      from System.admits_always _ _) (by decide)
  exact ⟨s, hs, hwarned, warnings_bounded hs (by decide)⟩

end ChainLogger

end LlmProxy.Logging
