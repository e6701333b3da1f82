import LlmProxy.Worker.Course
import LlmProxy.Worker.SingleAnswer

/-! The nodes that a call of `forwardWithRetry` tries, and what makes it try another one. -/

namespace LlmProxy.Worker

open ProofKit Logging Proxy Queue

/-- The attempt that an event starts. -/
def Event.start? : Event → Option (Nat × ModelNode)
  | started attempt node => some (attempt, node)
  | client _ => none

/-- The attempts of a run in order, with their nodes. -/
def starts (events : List Event) : List (Nat × ModelNode) := events.filterMap Event.start?

section Starts

variable {attempt : Nat} {node : ModelNode} {calls : List ClientCall} {events : List Event}

@[simp] theorem starts_started :
    starts (.started attempt node :: events) = (attempt, node) :: starts events := rfl

@[simp] theorem starts_calls : starts (calls.map .client) = [] := by
  rw [starts, List.filterMap_map]
  exact List.filterMap_eq_nil_iff.mpr fun _ _ => rfl

@[simp] theorem starts_append (events events' : List Event) :
    starts (events ++ events') = starts events ++ starts events' :=
  List.filterMap_append

theorem mem_starts : (attempt, node) ∈ starts events ↔ .started attempt node ∈ events := by
  rw [starts, List.mem_filterMap]
  constructor
  · rintro ⟨e, he, hstart⟩
    cases e with
    | started a n =>
      cases hstart
      exact he
    | client call => cases hstart
  · intro h
    exact ⟨_, h, rfl⟩

end Starts

/-! ### Along a course -/

theorem mem_available {candidates : List ModelNode} {excluded : List String} {n : ModelNode} :
    n ∈ available candidates excluded ↔ n ∈ candidates ∧ n.id ∉ excluded ∧ n.enabled = true := by
  simp [available]

/-- No node is left to try. -/
theorem available_eq_nil {candidates : List ModelNode} {excluded : List String} :
    available candidates excluded = [] ↔ ∀ n ∈ candidates, n.enabled = true → n.id ∈ excluded := by
  rw [List.eq_nil_iff_forall_not_mem]
  constructor
  · intro h n hn hen
    by_contra hid
    exact h n (mem_available.mpr ⟨hn, hid, hen⟩)
  · intro h n hn
    obtain ⟨hcand, hid, hen⟩ := mem_available.mp hn
    exact hid (h n hcand hen)

namespace Course

variable {inp : Inputs} {ends : Nat → Option ContextEnd} {left attempt : Nat}
  {excluded : List String}
  {logs : List AttemptLog} {h : Header} {result : ExecutionResult} {events : List Event}

/-- The attempts are numbered from the first one on, and there are no more than are left. -/
theorem numbered (hc : Course inp ends left attempt excluded logs h result events) :
    (starts events).map (·.1) = List.range' attempt (starts events).length ∧
      (starts events).length ≤ left := by
  induction hc with
  | spent | cancelled _ | noNode _ _ => exact ⟨rfl, Nat.zero_le _⟩
  | success | gaveUp => simp
  | retried _ _ _ _ _ _ _ _ ih =>
    obtain ⟨hnumbers, hle⟩ := ih
    simp only [starts_started, starts_append, starts_calls, List.nil_append, List.map_cons,
      List.length_cons, List.range'_succ, hnumbers, true_and]
    omega

/-- The nodes are available, and no two of them have the same ID. -/
theorem distinct (hc : Course inp ends left attempt excluded logs h result events) :
    (∀ t ∈ starts events, t.2 ∈ available inp.candidates excluded) ∧
      ((starts events).map (·.2.id)).Nodup := by
  induction hc with
  | spent | cancelled _ | noNode _ _ => simp [starts]
  | success _ picked | gaveUp _ picked => simpa using picked
  | @retried left attempt excluded logs h h' node log result events _ picked _ _ _ _ _ _ ih =>
    obtain ⟨hnodes, hnodup⟩ := ih
    simp only [starts_started, starts_append, starts_calls, List.nil_append, List.map_cons,
      List.forall_mem_cons, List.nodup_cons]
    refine ⟨⟨picked, fun t ht => ?_⟩, fun hmem => ?_, hnodup⟩
    · obtain ⟨hcand, hid, hen⟩ := mem_available.mp (hnodes t ht)
      exact mem_available.mpr ⟨hcand, fun h => hid (List.mem_cons_of_mem _ h), hen⟩
    · obtain ⟨t, ht, hid⟩ := List.mem_map.mp hmem
      have := (mem_available.mp (hnodes t ht)).2.1
      simp [hid] at this

/-- Every attempt has its record. -/
theorem logged (hc : Course inp ends left attempt excluded logs h result events) :
    ∃ new, result.attempts = logs ++ new ∧
      (new.map fun log => (log.attempt, log.nodeID)) =
        (starts events).map (fun t => (t.1, t.2.id)) ∧
      ∀ log ∈ new, log.errorType = (inp.outcome log.attempt).errorType := by
  have hone {attempt : Nat} {node : ModelNode} {log : AttemptLog}
      (hof : LogOf attempt node (inp.outcome attempt) log) :
      (log.attempt, log.nodeID) = (attempt, node.id) ∧
        log.errorType = (inp.outcome log.attempt).errorType := by
    rw [hof.attempt, hof.nodeID, hof.errorType]
    exact ⟨rfl, rfl⟩
  induction hc with
  | spent | cancelled _ | noNode _ _ => exact ⟨[], by simp, rfl, by simp⟩
  | success _ _ log_of _ _ _ attempts => exact ⟨_, attempts, by simpa using hone log_of⟩
  | gaveUp _ _ log_of => exact ⟨_, rfl, by simpa using hone log_of⟩
  | @retried left attempt excluded logs h h' node log result events _ _ log_of _ _ _ _ _ ih =>
    obtain ⟨new, hattempts, hnumbers, htypes⟩ := ih
    refine ⟨log :: new, by rw [hattempts, List.append_assoc]; rfl, ?_, ?_⟩
    · simp only [starts_started, starts_append, starts_calls, List.nil_append, List.map_cons,
        hnumbers, (hone log_of).1]
    · exact List.forall_mem_cons.mpr ⟨(hone log_of).2, htypes⟩

/-- A call that gives up has made all its attempts, or has tried every node. -/
theorem exhausted (hc : Course inp ends left attempt excluded logs h result events)
    (hfailed : result.error ≠ "") (hlive : result.error ≠ "cancelled") :
    (starts events).length = left ∨ ∀ n ∈ inp.candidates, n.enabled = true →
      n.id ∈ excluded ∨ n.id ∈ (starts events).map (·.2.id) := by
  induction hc with
  | spent => exact .inl rfl
  | cancelled => exact absurd rfl hlive
  | noNode _ nodes => exact .inr fun n hn hen => .inl (available_eq_nil.mp nodes n hn hen)
  | success _ _ _ _ error => exact absurd error hfailed
  | gaveUp _ _ _ _ last =>
    rcases last with rfl | hnone
    · exact .inl (by simp)
    · refine .inr fun n hn hen => ?_
      rcases List.mem_cons.mp (available_eq_nil.mp hnone n hn hen) with hid | hid
      · simp [hid]
      · exact .inl hid
  | retried _ _ _ _ _ _ _ _ ih =>
    rcases ih hfailed hlive with hlen | hall
    · exact .inl (by simp [hlen])
    · refine .inr fun n hn hen => ?_
      rcases hall n hn hen with hid | hid
      · rcases List.mem_cons.mp hid with hid | hid
        · simp [hid]
        · exact .inl hid
      · simp only [starts_started, starts_append, starts_calls, List.nil_append, List.map_cons,
          List.mem_cons]
        exact .inr (.inr hid)

end Course

/-! ### The nodes of a call -/

/-- What a call says about the nodes that it has tried, in order, with the numbers of the
attempts. -/
structure TriedOnce (candidates : List ModelNode) (maxRetryAttempts : Int)
    (result : ExecutionResult) (tried : List (Nat × ModelNode)) : Prop where
  distinct : (tried.map (·.2.id)).Nodup
  candidate : ∀ t ∈ tried, t.2 ∈ candidates ∧ t.2.enabled = true
  numbered : ∃ k : Int, k ≤ maxRetryAttempts ∧ tried.map (·.1) = List.range' 1 k.toNat
  logged : result.attempts.map (fun log => (log.attempt, log.nodeID)) = tried.map fun t =>
    (t.1, t.2.id)
  exhausted : result.error ≠ "" → result.error ≠ "cancelled" → tried ≠ [] →
    (tried.length : Int) = maxRetryAttempts ∨
      ∀ n ∈ candidates, n.enabled = true → n.id ∈ tried.map (·.2.id)

/-- A call without candidates. -/
theorem forwardWithRetry_none {dec : Decoder} {cfg : WorkerConfig} {inp : Inputs}
    {ends : Nat → Option ContextEnd} {req : PendingRequest} (hne : inp.candidates = []) :
    runUntil inp ends (forwardWithRetry dec cfg req) {} =
      ({ statusCode := 502, error := "no nodes" }, {}) := by
  have htry : runUntil inp ends (forwardWithRetry dec cfg req) {} =
    runUntil inp ends (tryCandidates dec cfg inp.candidates) {} := rfl
  rw [htry, tryCandidates, if_pos hne, runUntil_pure]

/-- A call of `forwardWithRetry` tries no node twice, and it does not give up before it has made all
its attempts or has tried all its nodes. -/
theorem tried_once (dec : Decoder) (cfg : WorkerConfig) (inp : Inputs)
    (ends : Nat → Option ContextEnd) (req : PendingRequest) :
    TriedOnce inp.candidates cfg.maxRetryAttempts
      (runUntil inp ends (forwardWithRetry dec cfg req) {}).1
      (starts (runUntil inp ends (forwardWithRetry dec cfg req) {}).2.events) := by
  by_cases hne : inp.candidates = []
  · rw [forwardWithRetry_none hne]
    refine ⟨by simp [starts], by simp [starts], ⟨min 0 cfg.maxRetryAttempts, by omega, ?_⟩, rfl,
      by simp [starts]⟩
    have : (min 0 cfg.maxRetryAttempts).toNat = 0 := by omega
    rw [this]
    rfl
  · have hc := forwardWithRetry_course inp ends dec cfg req [] hne
    obtain ⟨hnumbers, hle⟩ := hc.numbered
    obtain ⟨hnodes, hnodup⟩ := hc.distinct
    obtain ⟨new, hattempts, hlogs, -⟩ := hc.logged
    have hexhausted := hc.exhausted
    generalize starts (runUntil inp ends (forwardWithRetry dec cfg req) {}).2.events = tried at *
    refine ⟨hnodup, fun t ht => ?_, ?_, ?_, fun hfailed hlive htried => ?_⟩
    · obtain ⟨hcand, -, hen⟩ := mem_available.mp (hnodes t ht)
      exact ⟨hcand, hen⟩
    · by_cases hmax : 0 ≤ cfg.maxRetryAttempts
      · exact ⟨tried.length, by omega, by simpa using hnumbers⟩
      · have hnone : tried.length = 0 := by omega
        refine ⟨cfg.maxRetryAttempts, Int.le_refl _, ?_⟩
        rw [hnumbers, hnone, Int.toNat_of_nonpos (by omega)]
    · rw [hattempts, List.nil_append, hlogs]
    · rcases hexhausted hfailed hlive with hlen | hall
      · refine .inl ?_
        have := List.length_pos_iff.mpr htried
        omega
      · exact .inr fun n hn hen => (hall n hn hen).resolve_left (by simp)

/-! ### What makes a call try another node -/

/-- An attempt that another one follows has ended with an error that is worth another attempt. -/
def RetriesRetryable (result : ExecutionResult) (events : List Event) : Prop :=
  ∀ log ∈ result.attempts, ∀ node, .started (log.attempt + 1) node ∈ events →
    isRetryable log.errorType = true

/-- Of at most `n` attempts, no one that fails while all before it have failed, and that finds
another attempt allowed, ends with an error that is not worth it. -/
def FailsRetryably (inp : Inputs) (ends : Nat → Option ContextEnd) (n : Nat) : Prop :=
  ∀ k, 1 ≤ k → k < n → (∀ j, 1 ≤ j → j ≤ k → (inp.outcome j).Fails) →
    (∀ j, 1 ≤ j → j ≤ k + 1 → ends j = none) → isRetryable (inp.outcome k).errorType = true

/-- An attempt that is due starts if its context is live. -/
theorem starts_due {inp : Inputs} {ends : Nat → Option ContextEnd} {attempt n : Nat} (hn : 0 < n)
    (context : ends attempt = none) :
    attempt < attempt + n ∧ (∀ j, attempt ≤ j → j < attempt → (inp.outcome j).Fails) ∧
      ∀ j, attempt ≤ j → j ≤ attempt → ends j = none :=
  ⟨by omega, fun j hj hlt => by omega, fun j hj hle => by rwa [Nat.le_antisymm hle hj]⟩

/-- A condition on all attempts up to some one, once the first of them is known to meet it. -/
theorem forall_attempts_succ {P : Nat → Prop} {attempt m : Nat} (hP : P attempt) :
    (∀ j, attempt ≤ j → j < m → P j) ↔ ∀ j, attempt + 1 ≤ j → j < m → P j := by
  refine ⟨fun h j hj => h j (by omega), fun h j hj hjm => ?_⟩
  rcases Nat.eq_or_lt_of_le hj with rfl | hj
  · exact hP
  · exact h j hj hjm

/-- Which attempts start: the ones before have failed, and there are attempts, nodes and a live
context for them. -/
theorem Course.started_iff {inp : Inputs} {ends : Nat → Option ContextEnd} {left attempt k : Nat}
    {excluded : List String} {logs : List AttemptLog} {h : Header} {result : ExecutionResult}
    {events : List Event} (hc : Course inp ends left attempt excluded logs h result events)
    (hk : attempt ≤ k) :
    (∃ node, .started k node ∈ events) ↔
      k < attempt + min left (remaining inp.candidates excluded) ∧
        (∀ j, attempt ≤ j → j < k → (inp.outcome j).Fails) ∧
        ∀ j, attempt ≤ j → j ≤ k → ends j = none := by
  simp only [← mem_starts]
  induction hc with
  | spent =>
    refine iff_of_false (by simp [starts]) fun h => ?_
    omega
  | cancelled context =>
    exact iff_of_false (by simp [starts]) fun h => context (h.2.2 _ (Nat.le_refl _) hk)
  | noNode _ nodes =>
    refine iff_of_false (by simp [starts]) fun h => ?_
    have := remaining_eq_zero.mpr nodes
    omega
  | @success left attempt excluded logs h node log result context picked _ ok =>
    have := remaining_exclude picked
    simp only [starts_started, starts_calls, List.mem_singleton, Prod.mk.injEq]
    constructor
    · rintro ⟨_, rfl, rfl⟩
      exact starts_due (by omega) context
    · rintro ⟨-, hfails, -⟩
      refine ⟨node, ?_, rfl⟩
      by_contra hne
      exact ok (hfails attempt (Nat.le_refl _) (by omega))
  | @gaveUp left attempt excluded logs h node log context picked _ _ last =>
    have := remaining_exclude picked
    have hone : min (left + 1) (remaining inp.candidates excluded) = 1 := by
      rcases last with rfl | hnone
      · omega
      · have := remaining_eq_zero.mpr hnone
        omega
    simp only [starts_started, starts_calls, List.mem_singleton, Prod.mk.injEq]
    constructor
    · rintro ⟨_, rfl, rfl⟩
      exact starts_due (by omega) context
    · rintro ⟨hlt, -⟩
      exact ⟨node, by omega, rfl⟩
  | @retried left attempt excluded logs h h' node log result events context picked _ fails _ _
      _ _ ih =>
    have hrem := remaining_exclude picked
    simp only [starts_started, starts_append, starts_calls, List.nil_append, List.mem_cons,
      Prod.mk.injEq]
    rcases Nat.eq_or_lt_of_le hk with rfl | hlt
    · exact iff_of_true ⟨node, .inl ⟨rfl, rfl⟩⟩ (starts_due (by omega) context)
    · have hfails := forall_attempts_succ (P := fun j => (inp.outcome j).Fails) (m := k) fails
      have hends := forall_attempts_succ (P := fun j => ends j = none) (m := k + 1) context
      simp only [Nat.lt_succ_iff] at hends
      have hne (n : ModelNode) : ¬(k = attempt ∧ n = node) := fun h => by omega
      simp only [hne, false_or]
      refine (ih hlt).trans ?_
      rw [hfails, hends]
      refine and_congr_left fun _ => ?_
      omega

/-- Only errors that are worth it lead to another attempt exactly when no attempt ends with another
error while attempts, nodes and a live context are left. -/
theorem retries_retryable_iff (dec : Decoder) (cfg : WorkerConfig) (inp : Inputs)
    (ends : Nat → Option ContextEnd) (req : PendingRequest) :
    RetriesRetryable (runUntil inp ends (forwardWithRetry dec cfg req) {}).1
        (runUntil inp ends (forwardWithRetry dec cfg req) {}).2.events ↔
      FailsRetryably inp ends (attemptLimit cfg inp) := by
  by_cases hne : inp.candidates = []
  · rw [forwardWithRetry_none hne]
    have hlimit : attemptLimit cfg inp = 0 := by simp [attemptLimit, remaining, hne, available]
    refine iff_of_true (by simp [RetriesRetryable]) fun k hk hlt => ?_
    omega
  · have hc := forwardWithRetry_course inp ends dec cfg req [] hne
    obtain ⟨new, hattempts, hlogs, htypes⟩ := hc.logged
    have hstarted (k : Nat) (hk : 1 ≤ k) := hc.started_iff hk
    have hnumbers := (hc.numbered).1
    generalize runUntil inp ends (forwardWithRetry dec cfg req) {} = out at *
    rw [List.nil_append] at hattempts
    constructor
    · intro h k hk hlt hfails hends
      rw [attemptLimit] at hlt
      -- The attempt after `k` starts, and the record of `k` tells its error.
      obtain ⟨next, hnext⟩ := (hstarted (k + 1) (by omega)).mpr
        ⟨by omega, fun j hj hjk => hfails j hj (by omega), hends⟩
      obtain ⟨node, hnode⟩ := (hstarted k hk).mpr
        ⟨by omega, fun j hj hjk => hfails j hj (by omega), fun j hj hjk => hends j hj (by omega)⟩
      have hmem : (k, node.id) ∈ new.map fun log => (log.attempt, log.nodeID) := by
        rw [hlogs]
        exact List.mem_map.mpr ⟨_, mem_starts.mpr hnode, rfl⟩
      obtain ⟨log, hlog, hid⟩ := List.mem_map.mp hmem
      obtain ⟨rfl, -⟩ := Prod.mk.inj hid
      rw [← htypes log hlog]
      exact h log (hattempts ▸ hlog) next hnext
    · intro h log hlog next hnext
      rw [hattempts] at hlog
      have hmem : (log.attempt, log.nodeID) ∈ (starts out.2.events).map fun t => (t.1, t.2.id) := by
        rw [← hlogs]
        exact List.mem_map.mpr ⟨log, hlog, rfl⟩
      obtain ⟨t, ht, hid⟩ := List.mem_map.mp hmem
      obtain ⟨hk, -⟩ := Prod.mk.inj hid
      have hpos : 1 ≤ log.attempt := by
        have : t.1 ∈ List.range' 1 (starts out.2.events).length := by
          rw [← hnumbers]
          exact List.mem_map_of_mem ht
        rw [List.mem_range'_1] at this
        omega
      obtain ⟨hlt, hfails, hends⟩ := (hstarted (log.attempt + 1) (by omega)).mp ⟨next, hnext⟩
      rw [htypes log hlog]
      refine h log.attempt hpos ?_ (fun j hj hjk => hfails j hj (by omega)) hends
      rw [attemptLimit]
      omega

/-- Two nodes and two attempts: the connection to the first node ends without an answer, which is no
error that is worth another attempt, and the second node is tried all the same. -/
theorem retried_after_unknown_error :
    let inp : Inputs :=
      { candidates := [{ id := "a" }, { id := "b" }]
        choice := fun _ => 0
        outcome := fun _ => ⟨.ok ⟨false⟩, .error { text := "EOF" }, fun _ => none⟩ }
    let dec : Decoder := ⟨fun _ => none, fun _ => none⟩
    let out := runUntil inp (fun _ => none) (forwardWithRetry dec ⟨2, 0⟩ { addr := 0 }) {}
    (starts out.2.events).map (·.1) = [1, 2] ∧
      out.1.attempts.map (·.errorType) = [.unknownError, .unknownError] ∧
      ¬RetriesRetryable out.1 out.2.events := by
  intro inp dec out
  have hstarted : .started 2 { id := "b" } ∈ out.2.events := by decide
  refine ⟨by decide, by decide, fun h => ?_⟩
  have hfirst : isRetryable .unknownError = true :=
    h (attemptLogOf 1 { id := "a" } none
      (some { text := "proxy: upstream request: EOF" }) 0) (by decide) _ hstarted
  cases hfirst

end LlmProxy.Worker
