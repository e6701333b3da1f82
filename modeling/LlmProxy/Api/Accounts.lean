import LlmProxy.Api.RequestLogs
import LlmProxy.Metrics.Registry
import LlmProxy.RateLimit.Window
import Mathlib.Algebra.BigOperators.Ring.Finset

/-! Three accounts of the same requests: the metrics, the counters of the rate limiter, and the
request logs.  A handler that has a result books it in one after the other, in the limiter through a
goroutine.  Any number of handlers and of these goroutines do so at the same time, beside the calls
of `AllowRequest`. -/

namespace LlmProxy.Api

open ProofKit Worker Queue Proxy Storage Logging RateLimit

/-- What `forward` does with a result, and its goroutine: the calls that change an account, and the
start of the goroutine. -/
inductive Booking
  | incRequests (model status : String)
  | addTokens (model tokenType : String) (count : Int)
  | startRecording (keyID modelAlias : String) (actualTokens : Int)
  | recordTokens (keyID modelAlias : String) (actualTokens : Int)
  | asyncLog (log : RequestLog)
  deriving DecidableEq

def statusStr (result : ExecutionResult) : String :=
  if result.error ≠ "" then "error" else "success"

/-- The part of `forward` that follows a result. -/
def bookings (u : Unmarshaler) (c : Completed) : List Booking :=
  let tokens := trackedTokens u c.result
  [.incRequests c.modelAlias (statusStr c.result)] ++
    (if 0 < tokens.total then
      [.addTokens c.modelAlias "prompt" tokens.prompt,
        .addTokens c.modelAlias "completion" tokens.completion,
        .startRecording c.apiKeyID c.modelAlias tokens.total]
    else []) ++
    [.asyncLog (c.requestLog u)]

/-- The accounts, and what is left to do for each handler and each goroutine.  The rest is history:
the requests that got a result, and what has been done. -/
structure Accounts where
  registry : Metrics.Registry := {}
  limiter : Ledger
  logged : List RequestLog := []
  threads : List (List Booking) := []
  completed : List Completed := []
  booked : List Booking := []

namespace Accounts

inductive Action
  | complete (c : Completed)
  | advance (i : Nat)
  /-- A step of the limiter that is none of `RecordTokens`. -/
  | allow (keyID modelAlias : String)
  | wait (duration : Nat)
  | sweep

def perform (l : Limiter) (s : Accounts) : Booking → Accounts
  | .incRequests model status => { s with registry := s.registry.incRequests model status }
  | .addTokens model tokenType count =>
    { s with registry := s.registry.addTokens model tokenType count }
  | .startRecording keyID modelAlias tokens =>
    { s with threads := s.threads ++ [[.recordTokens keyID modelAlias tokens]] }
  | .recordTokens keyID modelAlias tokens =>
    { s with limiter := s.limiter.next l (.record keyID modelAlias tokens) }
  | .asyncLog log => { s with logged := s.logged ++ [log] }

def next (u : Unmarshaler) (l : Limiter) (s : Accounts) : Action → Option Accounts
  | .complete c =>
    some { s with threads := s.threads ++ [bookings u c], completed := s.completed ++ [c] }
  | .advance i =>
    match s.threads[i]? with
    | some (b :: rest) =>
      some (perform l { s with threads := s.threads.set i rest, booked := s.booked ++ [b] } b)
    | _ => none
  | .allow keyID modelAlias => some { s with limiter := s.limiter.next l (.allow keyID modelAlias) }
  | .wait duration => some { s with limiter := s.limiter.next l (.wait duration) }
  | .sweep => some { s with limiter := s.limiter.next l .sweep }

def system (u : Unmarshaler) (l : Limiter) : System Accounts Action :=
  .ofNext (fun s => ∃ clock, s = { limiter := Ledger.start clock }) (next u l)

/-- The value of `proxyllm_requests_total`, and of `proxyllm_tokens_total`. -/
def requestCount (s : Accounts) (model status : String) : Nat :=
  (s.registry.requestsTotal.get? (Metrics.requestLabel (model, status))).elim 0 (·.2)

def tokenCount (s : Accounts) (model tokenType : String) : Nat :=
  (s.registry.tokensTotal.get? (Metrics.tokenLabel (model, tokenType))).elim 0 (·.2)

/-- The counter of the limiter for the tokens of a layer in a minute. -/
def tokensShown (s : Accounts) (scope : Scope) (id : String) (minute : Int) : Int :=
  s.limiter.cache.count s.limiter.clock (tpmKey scope id minute)

/-- The counter has not expired. -/
def Shows (s : Accounts) (scope : Scope) (id : String) (minute : Int) : Prop :=
  minuteOf s.limiter.clock ≤ minute ∨
    (s.limiter.cache.live s.limiter.clock (tpmKey scope id minute)).isSome

/-- The minutes in which tokens of a layer were recorded. -/
def recordingMinutes (s : Accounts) (scope : Scope) (id : String) : List Int :=
  ((s.limiter.recorded.filter fun r => scope.idOf r.keyID r.modelAlias = id).map (·.minute)).dedup

/-- The tokens in the counters of a layer. -/
def tokensCounted (s : Accounts) (scope : Scope) (id : String) : Int :=
  ((s.recordingMinutes scope id).map (s.tokensShown scope id)).sum

/-- The step of the limiter that an action takes. -/
def limiterStep? (s : Accounts) : Action → Option Ledger.Action
  | .advance i =>
    match s.threads[i]? with
    | some (.recordTokens keyID modelAlias tokens :: _) => some (.record keyID modelAlias tokens)
    | _ => none
  | .allow keyID modelAlias => some (.allow keyID modelAlias)
  | .wait duration => some (.wait duration)
  | .sweep => some .sweep
  | .complete _ => none

/-- No counter of the limiter leaves the range of its type. -/
def NoOverflow (l : Limiter) (s : Accounts) (a : Action) : Prop :=
  ∀ step ∈ s.limiterStep? a, s.limiter.NoOverflow l step

instance (s : Accounts) (scope : Scope) (id : String) (minute : Int) :
    Decidable (s.Shows scope id minute) :=
  inferInstanceAs (Decidable (_ ∨ _))

instance (l : Limiter) (s : Accounts) (a : Action) : Decidable (NoOverflow l s a) :=
  inferInstanceAs (Decidable (∀ step ∈ s.limiterStep? a, _))

end Accounts

/-! ### What has been booked, and what is left to book -/

namespace Booking

/-- The bookings of the goroutine that is started. -/
def started : Booking → List Booking
  | .startRecording keyID modelAlias tokens => [.recordTokens keyID modelAlias tokens]
  | _ => []

/-- A booking with those that follow from it. -/
def outstanding (b : Booking) : List Booking := b :: b.started

def metricsCall : Booking → Option Metrics.Call
  | .incRequests model status => some (.incRequests model status)
  | .addTokens model tokenType count => some (.addTokens model tokenType count)
  | _ => none

def recording : Booking → Option (String × String × Int)
  | .recordTokens keyID modelAlias tokens =>
    if 0 < tokens then some (keyID, modelAlias, tokens) else none
  | _ => none

def log : Booking → Option RequestLog
  | .asyncLog log => some log
  | _ => none

end Booking

variable {u : Unmarshaler} {l : Limiter} {s s' : Accounts}

namespace Accounts

/-- The accounts are those of what has been booked, and this and what is left to book come from the
requests that got a result. -/
structure Balanced (u : Unmarshaler) (s : Accounts) : Prop where
  registry : s.registry = .after (s.booked.filterMap Booking.metricsCall)
  recorded : s.limiter.recorded.map (fun r => (r.keyID, r.modelAlias, r.tokens)) =
    (s.booked.filterMap Booking.recording).reverse
  logged : s.logged = s.booked.filterMap Booking.log
  complete : (s.booked ++ s.threads.flatMap (·.flatMap Booking.outstanding)).Perm
    (s.completed.flatMap fun c => (bookings u c).flatMap Booking.outstanding)

/-- A step of the limiter that records nothing. -/
theorem Balanced.limiter (h : Balanced u s) {ledger : Ledger}
    (hrecorded : ledger.recorded = s.limiter.recorded) :
    Balanced u { s with limiter := ledger } :=
  ⟨h.registry, (congrArg (List.map _) hrecorded).trans h.recorded, h.logged, h.complete⟩

theorem Balanced.finish (h : Balanced u s) (c : Completed) :
    Balanced u
      { s with threads := s.threads ++ [bookings u c], completed := s.completed ++ [c] } := by
  refine ⟨h.registry, h.recorded, h.logged, ?_⟩
  have hcomplete := h.complete.append_right ((bookings u c).flatMap Booking.outstanding)
  simpa [List.append_assoc] using hcomplete

section Perform

variable (l : Limiter) (s : Accounts) (b : Booking)

theorem perform_registry : (perform l s b).registry =
    b.metricsCall.elim s.registry s.registry.call := by
  cases b <;> rfl

theorem perform_recorded :
    (perform l s b).limiter.recorded.map (fun r => (r.keyID, r.modelAlias, r.tokens)) =
      b.recording.toList ++ s.limiter.recorded.map fun r => (r.keyID, r.modelAlias, r.tokens) := by
  cases b with
  | recordTokens keyID modelAlias tokens =>
    by_cases hpos : 0 < tokens <;> simp [perform, Ledger.next, Booking.recording, hpos]
  | _ => rfl

theorem perform_logged : (perform l s b).logged = s.logged ++ b.log.toList := by
  cases b <;> simp [perform, Booking.log]

theorem perform_history : (perform l s b).booked = s.booked ∧
    (perform l s b).completed = s.completed := by
  cases b <;> exact ⟨rfl, rfl⟩

/-- The goroutine is a new thread. -/
theorem perform_threads :
    (perform l s b).threads.flatMap (·.flatMap Booking.outstanding) =
      s.threads.flatMap (·.flatMap Booking.outstanding) ++ b.started := by
  cases b <;> simp [perform, Booking.started, Booking.outstanding]

end Perform

/-- The next booking of a thread is done, and what follows from it is left. -/
theorem Balanced.advance (h : Balanced u s) {i : Nat} {b : Booking} {rest : List Booking}
    (hi : s.threads[i]? = some (b :: rest)) :
    Balanced u
      (perform l { s with threads := s.threads.set i rest, booked := s.booked ++ [b] } b) := by
  obtain ⟨hbooked, hcompleted⟩ :=
    perform_history l { s with threads := s.threads.set i rest, booked := s.booked ++ [b] } b
  refine ⟨?_, ?_, ?_, ?_⟩
  · rw [perform_registry, hbooked, List.filterMap_append, Metrics.Registry.after, List.foldl_append]
    show b.metricsCall.elim s.registry s.registry.call = _
    rw [h.registry, Metrics.Registry.after]
    cases hcall : b.metricsCall <;> simp [hcall]
  · rw [perform_recorded, hbooked, List.filterMap_append, List.reverse_append]
    show b.recording.toList ++ s.limiter.recorded.map _ = _
    rw [h.recorded]
    cases hrecording : b.recording <;> simp [hrecording]
  · rw [perform_logged, hbooked, List.filterMap_append]
    show s.logged ++ b.log.toList = _
    rw [h.logged]
    cases hlog : b.log <;> simp [hlog]
  · rw [perform_threads, hbooked, hcompleted]
    refine List.Perm.trans ?_ h.complete
    rw [List.append_assoc]
    refine List.Perm.append_left s.booked ?_
    obtain ⟨hlt, -⟩ := List.getElem?_eq_some_iff.mp hi
    have hbefore := flatMap_perm_eraseIdx (·.flatMap Booking.outstanding) hi
    have hafter := flatMap_set_perm (·.flatMap Booking.outstanding) hlt rest
    rw [List.flatMap_cons, Booking.outstanding, List.append_assoc] at hbefore
    have hdone := List.Perm.cons b (List.perm_append_comm.trans (hafter.append_left b.started))
    exact hdone.trans hbefore.symm

theorem reachable_balanced {ok : Accounts → Action → Prop} (hs : (system u l).Reachable ok s) :
    Balanced u s := by
  refine hs.invariant (Balanced u) ?_ fun s a s' _ h _ hstep => ?_
  · rintro _ ⟨clock, rfl⟩
    exact ⟨rfl, rfl, rfl, .refl _⟩
  · cases a with
    | complete c =>
      obtain rfl := Option.some.inj hstep
      exact h.finish c
    | advance i =>
      have hnext : next u l s (.advance i) = some s' := hstep
      rw [next] at hnext
      split at hnext
      · next b rest hi =>
        obtain rfl := Option.some.inj hnext
        exact h.advance hi
      · cases hnext
    | allow keyID modelAlias | wait duration | sweep =>
      obtain rfl := Option.some.inj hstep
      exact h.limiter rfl

/-- When nothing is left to book, the requests that got a result have been booked. -/
theorem Balanced.booked_perm (h : Balanced u s) (hquiet : ∀ thread ∈ s.threads, thread = []) :
    s.booked.Perm (s.completed.flatMap fun c => (bookings u c).flatMap Booking.outstanding) := by
  have hnone : s.threads.flatMap (·.flatMap Booking.outstanding) = [] :=
    List.flatMap_eq_nil_iff.mpr fun thread hthread => by rw [hquiet thread hthread]; rfl
  have hcomplete := h.complete
  rwa [hnone, List.append_nil] at hcomplete

end Accounts

/-! ### The sums -/

namespace Booking

/-- What a booking adds to the counter of these requests, and to the counter of these tokens. -/
def requests (model status : String) : Booking → Nat
  | .incRequests model' status' =>
    if Metrics.requestLabel (model', status') = Metrics.requestLabel (model, status) then 1 else 0
  | _ => 0

def tokens (model tokenType : String) : Booking → Nat
  | .addTokens model' tokenType' count =>
    if Metrics.tokenLabel (model', tokenType') = Metrics.tokenLabel (model, tokenType)
    then count.toNat else 0
  | _ => 0

end Booking

/-- The value of a counter, where labels with one text share it. -/
theorem elim_recordAll (label : String × String → String) (key : String × String)
    (events : List ((String × String) × Nat)) :
    ((Keyed.recordAll Metrics.addUint64 0 (events.map (Prod.map label id))).get?
        (label key)).elim 0 (·.2) =
      (events.map fun e => if label e.1 = label key then e.2 else 0).sum % 2 ^ 64 := by
  have hvalues : valuesOf (label key) (events.map (Prod.map label id)) =
      (events.filter fun e => label e.1 = label key).map (·.2) := by
    rw [valuesOf, List.filter_map, List.map_map]
    rfl
  have hfold := Metrics.foldl_addUint64 (valuesOf (label key) (events.map (Prod.map label id))) 0
  rw [Nat.zero_mod, Nat.zero_add] at hfold
  rw [Keyed.value_recordAll, hfold, hvalues, sum_map_filter]

namespace Accounts

theorem Balanced.requestCount_eq (h : Balanced u s) (model status : String) :
    s.requestCount model status = (s.booked.map (Booking.requests model status)).sum % 2 ^ 64 := by
  rw [requestCount, h.registry, Metrics.Registry.requestsTotal_after, elim_recordAll,
    sum_map_filterMap, sum_map_filterMap]
  refine congrArg (fun xs : List Nat => xs.sum % 2 ^ 64) (List.map_congr_left fun b _ => ?_)
  cases b <;> rfl

theorem Balanced.tokenCount_eq (h : Balanced u s) (model tokenType : String) :
    s.tokenCount model tokenType =
      (s.booked.map (Booking.tokens model tokenType)).sum % 2 ^ 64 := by
  rw [tokenCount, h.registry, Metrics.Registry.tokensTotal_after, elim_recordAll, sum_map_filterMap,
    sum_map_filterMap]
  refine congrArg (fun xs : List Nat => xs.sum % 2 ^ 64) (List.map_congr_left fun b _ => ?_)
  cases b with
  | addTokens model' tokenType' count =>
    by_cases hcount : count ≤ 0
    · simp [Booking.metricsCall, Metrics.Call.tokens, Booking.tokens, hcount, Int.toNat_of_nonpos]
    · simp [Booking.metricsCall, Metrics.Call.tokens, Booking.tokens, hcount]
  | _ => rfl

end Accounts

/-! ### The counters of the limiter -/

namespace Accounts

/-- What an action does to the limiter. -/
theorem next_limiter {a : Action} (hnext : next u l s a = some s') :
    s'.limiter = (s.limiterStep? a).elim s.limiter (s.limiter.next l) := by
  cases a with
  | advance i =>
    rw [next] at hnext
    split at hnext
    · next b rest hi =>
      obtain rfl := Option.some.inj hnext
      cases b <;> simp [limiterStep?, hi, perform]
    · cases hnext
  | complete c | allow keyID modelAlias | wait duration | sweep =>
    obtain rfl := Option.some.inj hnext
    rfl

/-- The limiter takes a run of its own. -/
theorem reachable_limiter (hs : (system u l).Reachable (NoOverflow l) s) :
    (Ledger.system l).Reachable (Ledger.NoOverflow l) s.limiter := by
  refine hs.invariant (fun s => (Ledger.system l).Reachable (Ledger.NoOverflow l) s.limiter) ?_
    fun s a s' _ h hok hstep => ?_
  · rintro _ ⟨clock, rfl⟩
    exact .init ⟨clock, rfl⟩
  · rw [next_limiter hstep]
    cases hlimiter : s.limiterStep? a with
    | none => exact h
    | some step => exact h.step (hok step hlimiter) rfl

theorem tokensShown_eq (h : s.limiter.Inv l) {scope : Scope} {id : String} {minute : Int}
    (hshows : s.Shows scope id minute) :
    s.tokensShown scope id minute = s.limiter.tokensIn scope id minute := by
  let w : Counter := ⟨.tpm, scope, id, minute⟩
  have hcount : s.limiter.cache.count s.limiter.clock w.key = s.limiter.usage l w :=
    Tracks.count_eq h.tallies hshows.symm
  exact hcount.trans (Ledger.usage_tpm rfl)

/-- The counters of a layer add up what was recorded for it. -/
theorem tokensCounted_eq (h : s.limiter.Inv l) {scope : Scope} {id : String}
    (hshows : ∀ minute ∈ s.recordingMinutes scope id, s.Shows scope id minute) :
    s.tokensCounted scope id =
      ((s.limiter.recorded.filter fun r => scope.idOf r.keyID r.modelAlias = id).map
        (·.tokens)).sum := by
  have hgroup (minute : Int) : s.limiter.tokensIn scope id minute =
      (((s.limiter.recorded.filter fun r => scope.idOf r.keyID r.modelAlias = id).filter
        (·.minute = minute)).map (·.tokens)).sum := by
    rw [Ledger.tokensIn, List.filter_filter]
    simp only [Bool.decide_and, Bool.and_comm]
  rw [tokensCounted, List.map_congr_left fun minute hminute =>
    tokensShown_eq h (hshows minute hminute)]
  simp only [hgroup]
  exact sum_groups _ _ (List.nodup_dedup _) fun r hr => List.mem_dedup.mpr (List.mem_map_of_mem hr)

end Accounts

/-! ### Agreement -/

/-- The labels of one metric differ in their ends. -/
theorem requestLabel_eq_iff {model model' status status' : String}
    (h : status = "error" ∨ status = "success") (h' : status' = "error" ∨ status' = "success") :
    Metrics.requestLabel (model', status') = Metrics.requestLabel (model, status) ↔
      model' = model ∧ status' = status := by
  refine ⟨fun heq => ?_, by rintro ⟨rfl, rfl⟩; rfl⟩
  have hchars := congrArg (fun text => text.toList.reverse) heq
  rcases h with rfl | rfl <;> rcases h' with rfl | rfl
  · simpa [Metrics.requestLabel, String.toList_inj] using hchars
  · simp [Metrics.requestLabel] at hchars
  · simp [Metrics.requestLabel] at hchars
  · simpa [Metrics.requestLabel, String.toList_inj] using hchars

theorem tokenLabel_eq_iff {model model' tokenType tokenType' : String}
    (h : tokenType = "prompt" ∨ tokenType = "completion")
    (h' : tokenType' = "prompt" ∨ tokenType' = "completion") :
    Metrics.tokenLabel (model', tokenType') = Metrics.tokenLabel (model, tokenType) ↔
      model' = model ∧ tokenType' = tokenType := by
  refine ⟨fun heq => ?_, by rintro ⟨rfl, rfl⟩; rfl⟩
  have hchars := congrArg (fun text => text.toList.reverse) heq
  rcases h with rfl | rfl <;> rcases h' with rfl | rfl
  · simpa [Metrics.tokenLabel, String.toList_inj] using hchars
  · simp [Metrics.tokenLabel] at hchars
  · simp [Metrics.tokenLabel] at hchars
  · simpa [Metrics.tokenLabel, String.toList_inj] using hchars

/-- The counts of a result are not negative, and it has none without a total. -/
def Reported (u : Unmarshaler) (c : Completed) : Prop :=
  0 ≤ (trackedTokens u c.result).prompt ∧ 0 ≤ (trackedTokens u c.result).completion ∧
    ((trackedTokens u c.result).total ≤ 0 → trackedTokens u c.result = {})

/-- All that follows from a result. -/
theorem outstanding_bookings (u : Unmarshaler) (c : Completed) :
    (bookings u c).flatMap Booking.outstanding =
      [.incRequests c.modelAlias (statusStr c.result)] ++
        (if 0 < (trackedTokens u c.result).total then
          [.addTokens c.modelAlias "prompt" (trackedTokens u c.result).prompt,
            .addTokens c.modelAlias "completion" (trackedTokens u c.result).completion,
            .startRecording c.apiKeyID c.modelAlias (trackedTokens u c.result).total,
            .recordTokens c.apiKeyID c.modelAlias (trackedTokens u c.result).total]
        else []) ++
        [.asyncLog (c.requestLog u)] := by
  by_cases htotal : 0 < (trackedTokens u c.result).total <;>
    simp [bookings, htotal, Booking.outstanding, Booking.started]

theorem statusStr_cases (result : ExecutionResult) :
    statusStr result = "error" ∨ statusStr result = "success" := by
  unfold statusStr
  split
  · exact .inl rfl
  · exact .inr rfl

section OneRequest

variable (c : Completed)

theorem requests_of_request {status : String} (h : status = "error" ∨ status = "success")
    (model : String) :
    (((bookings u c).flatMap Booking.outstanding).map (Booking.requests model status)).sum =
      if c.modelAlias = model ∧ statusStr c.result = status then 1 else 0 := by
  have hlabel := @requestLabel_eq_iff model c.modelAlias status (statusStr c.result) h
    (statusStr_cases c.result)
  rw [outstanding_bookings]
  by_cases htotal : 0 < (trackedTokens u c.result).total <;> simp [htotal, Booking.requests, hlabel]

theorem prompt_of_request (h : Reported u c) (model : String) :
    ((((bookings u c).flatMap Booking.outstanding).map (Booking.tokens model "prompt")).sum : Int) =
      if c.modelAlias = model then (trackedTokens u c.result).prompt else 0 := by
  obtain ⟨hprompt, -, hnone⟩ := h
  have hlabel := @tokenLabel_eq_iff model c.modelAlias "prompt" "prompt" (.inl rfl) (.inl rfl)
  have hother := @tokenLabel_eq_iff model c.modelAlias "prompt" "completion" (.inl rfl) (.inr rfl)
  rw [outstanding_bookings]
  by_cases htotal : 0 < (trackedTokens u c.result).total
  · simp [htotal, Booking.tokens, hlabel, hother, hprompt]
  · simp [Booking.tokens, hnone (not_lt.mp htotal)]

theorem completion_of_request (h : Reported u c) (model : String) :
    ((((bookings u c).flatMap Booking.outstanding).map (Booking.tokens model "completion")).sum :
      Int) =
      if c.modelAlias = model then (trackedTokens u c.result).completion else 0 := by
  obtain ⟨-, hcompletion, hnone⟩ := h
  have hlabel :=
    @tokenLabel_eq_iff model c.modelAlias "completion" "completion" (.inr rfl) (.inr rfl)
  have hother := @tokenLabel_eq_iff model c.modelAlias "completion" "prompt" (.inr rfl) (.inl rfl)
  rw [outstanding_bookings]
  by_cases htotal : 0 < (trackedTokens u c.result).total
  · simp [htotal, Booking.tokens, hlabel, hother, hcompletion]
  · simp [Booking.tokens, hnone (not_lt.mp htotal)]

/-- `RecordTokens` is called for a request with tokens. -/
theorem recording_of_request :
    ((bookings u c).flatMap Booking.outstanding).filterMap Booking.recording =
      if 0 < (trackedTokens u c.result).total then
        [(c.apiKeyID, c.modelAlias, (trackedTokens u c.result).total)]
      else [] := by
  rw [outstanding_bookings]
  by_cases htotal : 0 < (trackedTokens u c.result).total
  · rw [if_pos htotal, if_pos htotal]
    have hrecording : Booking.recording (.recordTokens c.apiKeyID c.modelAlias
        (trackedTokens u c.result).total) = some (c.apiKeyID, c.modelAlias, _) := if_pos htotal
    simp only [List.cons_append, List.nil_append, List.filterMap_cons, hrecording]
    rfl
  · rw [if_neg htotal, if_neg htotal]
    rfl

end OneRequest

namespace Accounts

/-- Nothing is left to book. -/
def Settled (s : Accounts) : Prop := ∀ thread ∈ s.threads, thread = []

/-- What all requests have added to a sum over the bookings. -/
theorem Balanced.sum_booked {M : Type} [AddCommMonoid M] (h : Balanced u s) (hsettled : s.Settled)
    (weight : Booking → M) :
    (s.booked.map weight).sum =
      (s.completed.map fun c =>
        (((bookings u c).flatMap Booking.outstanding).map weight).sum).sum := by
  rw [((h.booked_perm hsettled).map weight).sum_eq, sum_map_flatMap]

theorem Balanced.logged_perm (h : Balanced u s) (hsettled : s.Settled) :
    s.logged.Perm (s.completed.map (Completed.requestLog u)) := by
  have hone (c : Completed) :
      ((bookings u c).flatMap Booking.outstanding).filterMap Booking.log = [c.requestLog u] := by
    rw [outstanding_bookings]
    by_cases htotal : 0 < (trackedTokens u c.result).total
    · rw [if_pos htotal]
      rfl
    · rw [if_neg htotal]
      rfl
  rw [h.logged]
  refine ((h.booked_perm hsettled).filterMap Booking.log).trans (List.Perm.of_eq ?_)
  rw [List.filterMap_flatMap]
  simp only [hone]
  exact List.map_eq_flatMap.symm

/-- A sum over the logs of some requests, as a sum over the requests. -/
theorem Balanced.sum_logged (h : Balanced u s) (hsettled : s.Settled) (p : RequestLog → Prop)
    [DecidablePred p] (f : RequestLog → Int) :
    ((s.logged.filter p).map f).sum =
      (s.completed.map fun c => if p (c.requestLog u) then f (c.requestLog u) else 0).sum := by
  rw [sum_map_filter, ((h.logged_perm hsettled).map _).sum_eq, List.map_map]
  rfl

/-- A counter of tokens adds up what the logs of its model have. -/
theorem Balanced.tokens_agree (h : Balanced u s) (hsettled : s.Settled) {model tokenType : String}
    {count : RequestLog → Int}
    (hone : ∀ c ∈ s.completed,
      ((((bookings u c).flatMap Booking.outstanding).map (Booking.tokens model tokenType)).sum :
        Int) =
        if c.modelAlias = model then count (c.requestLog u) else 0) :
    (s.tokenCount model tokenType : Int) =
      ((s.logged.filter (·.modelAlias = model)).map count).sum % 2 ^ 64 := by
  rw [h.tokenCount_eq, h.sum_booked hsettled, h.sum_logged hsettled, Int.natCast_mod,
    Nat.cast_list_sum, List.map_map]
  exact congrArg (fun xs : List Int => xs.sum % 2 ^ 64) (List.map_congr_left hone)

/-- The tokens of a log, as `RecordTokens` gets them. -/
def recordingOf (log : RequestLog) : String × String × Int :=
  (log.apiKeyID, log.modelAlias, log.totalTokens)

/-- `RecordTokens` was called once for each log with tokens. -/
theorem Balanced.recorded_perm (h : Balanced u s) (hsettled : s.Settled) :
    (s.limiter.recorded.map fun r => (r.keyID, r.modelAlias, r.tokens)).Perm
      ((s.logged.filter (0 < ·.totalTokens)).map recordingOf) := by
  have hrecorded : (s.booked.filterMap Booking.recording).Perm (s.completed.flatMap fun c =>
      if 0 < (trackedTokens u c.result).total
      then [(c.apiKeyID, c.modelAlias, (trackedTokens u c.result).total)] else []) := by
    refine ((h.booked_perm hsettled).filterMap Booking.recording).trans (List.Perm.of_eq ?_)
    rw [List.filterMap_flatMap]
    simp only [recording_of_request]
  have hlogged := ((h.logged_perm hsettled).filter (0 < ·.totalTokens)).map recordingOf
  rw [h.recorded]
  refine (List.reverse_perm _).trans (hrecorded.trans (hlogged.trans (List.Perm.of_eq ?_)).symm)
  induction s.completed with
  | nil => rfl
  | cons c rest ih =>
    have hone : (if 0 < (c.requestLog u).totalTokens then [recordingOf (c.requestLog u)] else []) =
        if 0 < (trackedTokens u c.result).total
        then [(c.apiKeyID, c.modelAlias, (trackedTokens u c.result).total)] else [] := rfl
    rw [List.flatMap_cons, ← ih, ← hone, List.map_cons, List.filter_cons]
    by_cases htotal : 0 < (c.requestLog u).totalTokens <;> simp [htotal]

/-- The logs have no tokens that `RecordTokens` was not called with. -/
theorem Balanced.recorded_sum (h : Balanced u s) (hsettled : s.Settled)
    (hreported : ∀ c ∈ s.completed, Reported u c) (scope : Scope) (id : String) :
    ((s.limiter.recorded.filter fun r => scope.idOf r.keyID r.modelAlias = id).map (·.tokens)).sum =
      ((s.logged.filter fun log => scope.idOf log.apiKeyID log.modelAlias = id).map
        (·.totalTokens)).sum := by
  let share (r : String × String × Int) : Int := if scope.idOf r.1 r.2.1 = id then r.2.2 else 0
  have hnone : ∀ log ∈ s.logged, ¬0 < log.totalTokens →
      log.totalTokens = 0 := fun log hlog hnot => by
    obtain ⟨c, hc, rfl⟩ := List.mem_map.mp ((h.logged_perm hsettled).mem_iff.mp hlog)
    exact congrArg Tokens.total ((hreported c hc).2.2 (not_lt.mp hnot))
  calc
    _ = ((s.limiter.recorded.map fun r => (r.keyID, r.modelAlias, r.tokens)).map share).sum := by
      rw [sum_map_filter, List.map_map]
      rfl
    _ = (((s.logged.filter (0 < ·.totalTokens)).map recordingOf).map share).sum :=
      ((h.recorded_perm hsettled).map share).sum_eq
    _ = (s.logged.map fun log =>
          if 0 < log.totalTokens then share (recordingOf log) else 0).sum := by
      rw [List.map_map, sum_map_filter]
      rfl
    _ = _ := by
      rw [sum_map_filter]
      refine congrArg List.sum (List.map_congr_left fun log hlog => ?_)
      by_cases hpos : 0 < log.totalTokens
      · rw [if_pos hpos]
        rfl
      · simp [hnone log hlog hpos]

/-- The tokens of the logs in the counters of the limiter.  `RecordTokens` was called once for each
log with tokens; a counter that has not expired shows what was recorded in its minute; and the
counters of a layer add up to its logs if none of them has expired. -/
structure TokensRecorded (s : Accounts) : Prop where
  calls : (s.limiter.recorded.map fun r => (r.keyID, r.modelAlias, r.tokens)).Perm
    ((s.logged.filter (0 < ·.totalTokens)).map recordingOf)
  shown : ∀ scope id minute, s.Shows scope id minute →
    s.tokensShown scope id minute = s.limiter.tokensIn scope id minute
  total : ∀ scope id, (∀ minute ∈ s.recordingMinutes scope id, s.Shows scope id minute) →
    s.tokensCounted scope id =
      (statsOf (s.logged.filter fun log => scope.idOf log.apiKeyID log.modelAlias = id)).totalTokens

/-- A request of twelve tokens. -/
def twelve (rid : String) : Completed := { named rid "" with apiKeyID := "k", modelAlias := "m" }

end Accounts

end LlmProxy.Api
