import LlmProxy.Worker.Course

/-! When the client gets the answer of one attempt only.  `Trace` is what can be seen of the loop
over the attempts, attempt by attempt; `Course.trace` says that every course of the code is one. -/

namespace LlmProxy.Worker

open ProofKit Logging Proxy Queue

/-- The events of the loop from an attempt on, where `n` attempts can still be made. -/
inductive Trace (inp : Inputs) : (attempt n : Nat) → List Event → Prop
  | none (attempt : Nat) : Trace inp attempt 0 []
  | whole {attempt n : Nat} (node : ModelNode) {calls : List ClientCall}
      (outcome : ¬(inp.outcome attempt).FailsEarly ∧ ¬(inp.outcome attempt).BreaksOff)
      (answer : AnswerOf (.attempt attempt) calls) :
      Trace inp attempt (n + 1) (.started attempt node :: calls.map .client)
  | last {attempt : Nat} (node : ModelNode) {src : Source} {calls : List ClientCall}
      (answer : AnswerOf src calls) :
      Trace inp attempt 1 (.started attempt node :: calls.map .client)
  | early {attempt n : Nat} (node : ModelNode) {rest : List Event}
      (outcome : (inp.outcome attempt).FailsEarly) (next : Trace inp (attempt + 1) (n + 1) rest) :
      Trace inp attempt (n + 2) (.started attempt node :: rest)
  | brokeOff {attempt n : Nat} (node : ModelNode) {calls : List ClientCall} {rest : List Event}
      (outcome : (inp.outcome attempt).BreaksOff) (answer : AnswerOf (.attempt attempt) calls)
      (next : Trace inp (attempt + 1) (n + 1) rest) :
      Trace inp attempt (n + 2) (.started attempt node :: (calls.map .client ++ rest))

/-! ### The code runs along a trace -/

theorem answerOf_chunks (src : Source) (status : Int) (header : Header) (chunks : List Bytes) :
    AnswerOf src (.writeHeader src status header :: chunks.map (.write src)) := by
  refine ⟨status, header, _, rfl, fun c hc => ?_⟩
  obtain ⟨bytes, -, rfl⟩ := List.mem_map.mp hc
  exact ⟨bytes, rfl⟩

section Calls

variable {o : Outcome} (k : Nat) (h : Header)

theorem finalCalls_answer (o : Outcome) : ∃ src, AnswerOf src (finalCalls o k h) := by
  obtain ⟨src, header, chunks, heq⟩ := finalCalls_eq o k h
  rw [heq]
  exact ⟨src, answerOf_chunks ..⟩

/-- An attempt that does not fail early has passed a status on, whether another one follows or
not. -/
theorem calls_of_not_failsEarly (hlate : ¬o.FailsEarly) :
    AnswerOf (.attempt k) (interimCalls o k h) ∧ finalCalls o k h = interimCalls o k h := by
  rw [Outcome.failsEarly_iff_reached] at hlate
  simp only [not_forall, not_not] at hlate
  obtain ⟨request, resp, hreached, hpass⟩ := hlate
  simp only [interimCalls, finalCalls, hreached, if_pos hpass, and_true]
  exact answerOf_chunks ..

theorem interimCalls_of_failsEarly (hearly : o.FailsEarly) : interimCalls o k h = [] := by
  cases hreached : o.reached with
  | error e => simp only [interimCalls, hreached]
  | ok reached =>
    have hpass := Outcome.failsEarly_iff_reached.mp hearly _ _ hreached
    simp only [interimCalls, hreached, if_neg hpass]

end Calls

/-- Each course of the loop with a context that is never done is a trace. -/
theorem Course.trace {inp : Inputs} {ends : Nat → Option ContextEnd} {left attempt : Nat}
    {excluded : List String} {logs : List AttemptLog} {h : Header} {result : ExecutionResult}
    {events : List Event} (hends : ∀ k, ends k = none)
    (hcourse : Course inp ends left attempt excluded logs h result events) :
    Trace inp attempt (min left (remaining inp.candidates excluded)) events := by
  induction hcourse with
  | spent =>
    rw [Nat.zero_min]
    exact .none _
  | cancelled context => exact absurd (hends _) context
  | noNode _ nodes =>
    rw [remaining_eq_zero.mpr nodes, Nat.min_zero]
    exact .none _
  | @success left attempt excluded logs h node _ _ _ picked _ ok =>
    have hrem := remaining_exclude picked
    have hmin : min (left + 1) (remaining inp.candidates excluded) =
        min left (remaining inp.candidates (node.id :: excluded)) + 1 := by omega
    have hlate : ¬(inp.outcome attempt).FailsEarly := fun h => ok (Outcome.fails_of_failsEarly h)
    obtain ⟨hanswer, hfinal⟩ := calls_of_not_failsEarly attempt h hlate
    rw [hmin]
    refine .whole node ⟨hlate, fun h => ok (Outcome.breaksOff_iff_fails.mp h).1⟩ ?_
    rw [hfinal]
    exact hanswer
  | @gaveUp left attempt excluded logs h node _ _ picked _ _ last =>
    have hrem := remaining_exclude picked
    rw [← remaining_eq_zero] at last
    have hmin : min (left + 1) (remaining inp.candidates excluded) = 1 := by omega
    obtain ⟨src, hanswer⟩ := finalCalls_answer attempt h (inp.outcome attempt)
    rw [hmin]
    exact .last node hanswer
  | @retried left attempt excluded logs h h' node _ _ events _ picked _ fails attempts_left
      nodes_left _ next ih =>
    have hrem := remaining_exclude picked
    rw [ne_eq, ← remaining_eq_zero] at nodes_left
    obtain ⟨n, hn⟩ : ∃ n, min left (remaining inp.candidates (node.id :: excluded)) = n + 1 :=
      ⟨min left (remaining inp.candidates (node.id :: excluded)) - 1, by omega⟩
    have hmin : min (left + 1) (remaining inp.candidates excluded) = n + 2 := by omega
    rw [hn] at ih
    rw [hmin]
    by_cases hearly : (inp.outcome attempt).FailsEarly
    · rw [interimCalls_of_failsEarly attempt h hearly]
      exact .early node hearly ih
    · exact .brokeOff node (Outcome.breaksOff_iff_fails.mpr ⟨fails, hearly⟩)
        (calls_of_not_failsEarly attempt h hearly).1 ih

/-! ### What the client gets along a trace -/

/-- At most one header is written to the client, and all bodies come from one source: one attempt,
or the worker's error text. -/
structure SingleAnswer (events : List Event) : Prop where
  one_header : events.countP Event.isHeader ≤ 1
  one_source : ∃ src, ∀ by_ bytes, Event.client (.write by_ bytes) ∈ events → by_ = src

/-- No attempt starts after a header has been written to the client. -/
def NoStartAfterHeader (events : List Event) : Prop :=
  events.Pairwise fun e e' => e.isHeader = true → e'.isStart = false

/-- Of the attempts from `attempt` on, at most `n`, none that another one follows breaks off: it is
neither the last one nor preceded by one that does not fail early. -/
def NoBreakBeforeLast (inp : Inputs) (attempt n : Nat) : Prop :=
  ∀ k, attempt ≤ k → k + 1 < attempt + n →
    (∀ j, attempt ≤ j → j < k → (inp.outcome j).FailsEarly) → ¬(inp.outcome k).BreaksOff

section Attempts

variable {inp : Inputs} {attempt n k : Nat}

theorem failsEarly_from (hfirst : (inp.outcome attempt).FailsEarly)
    (hrest : ∀ j, attempt + 1 ≤ j → j < k → (inp.outcome j).FailsEarly) (j : Nat) (hj : attempt ≤ j)
    (hjk : j < k) : (inp.outcome j).FailsEarly := by
  rcases Nat.eq_or_lt_of_le hj with rfl | hj
  · exact hfirst
  · exact hrest j hj hjk

theorem NoBreakBeforeLast.tail (h : NoBreakBeforeLast inp attempt (n + 1))
    (hfirst : (inp.outcome attempt).FailsEarly) : NoBreakBeforeLast inp (attempt + 1) n :=
  fun k hk hlt hearly => h k (by omega) (by omega) (failsEarly_from hfirst hearly)

end Attempts

section Answer

variable {src : Source} {calls : List ClientCall}

theorem AnswerOf.countP_isHeader (h : AnswerOf src calls) :
    (calls.map Event.client).countP Event.isHeader = 1 := by
  obtain ⟨status, header, writes, rfl, hw⟩ := h
  have hnone : (writes.map Event.client).countP Event.isHeader = 0 := by
    apply List.countP_eq_zero.mpr
    intro e he
    obtain ⟨c, hc, rfl⟩ := List.mem_map.mp he
    obtain ⟨bytes, rfl⟩ := hw c hc
    simp [Event.isHeader, ClientCall.isHeader]
  rw [List.map_cons, List.countP_cons, hnone]
  rfl

theorem AnswerOf.source (h : AnswerOf src calls) {by_ : Source} {bytes : Bytes}
    (hmem : Event.client (.write by_ bytes) ∈ calls.map Event.client) : by_ = src := by
  obtain ⟨status, header, writes, rfl, hw⟩ := h
  obtain ⟨c, hc, hcall⟩ := List.mem_map.mp hmem
  obtain rfl := Event.client.inj hcall
  rcases List.mem_cons.mp hc with h | h
  · cases h
  · obtain ⟨bytes', h'⟩ := hw _ h
    exact (ClientCall.write.inj h').1

theorem noStart_calls (calls : List ClientCall) : ∀ e ∈ calls.map Event.client,
    e.isStart = false := by
  intro e he
  obtain ⟨c, -, rfl⟩ := List.mem_map.mp he
  rfl

/-- An attempt whose answer is the only one. -/
theorem AnswerOf.single (h : AnswerOf src calls) (attempt : Nat) (node : ModelNode) :
    SingleAnswer (.started attempt node :: calls.map .client) ∧
      NoStartAfterHeader (.started attempt node :: calls.map .client) := by
  refine ⟨⟨?_, src, ?_⟩, ?_⟩
  · rw [List.countP_cons, h.countP_isHeader]
    simp [Event.isHeader]
  · intro by_ bytes hmem
    rcases List.mem_cons.mp hmem with hmem | hmem
    · cases hmem
    · exact h.source hmem
  · refine List.pairwise_cons.mpr ⟨fun _ _ hh => by simp [Event.isHeader] at hh, ?_⟩
    apply List.pairwise_of_forall_mem_list
    intro _ _ e he _
    exact noStart_calls calls e he

end Answer

namespace Trace

variable {inp : Inputs} {attempt n : Nat} {events : List Event}

/-- A trace with attempts left starts with one and writes a header. -/
theorem header_pos (h : Trace inp attempt (n + 1) events) :
    1 ≤ events.countP Event.isHeader ∧ ∃ e ∈ events, e.isStart = true := by
  generalize hm : n + 1 = m at h
  induction h generalizing n with
  | none => cases hm
  | whole node _ answer | last node answer =>
    rw [List.countP_cons, answer.countP_isHeader]
    exact ⟨Nat.le_add_right _ _, _, List.mem_cons_self, rfl⟩
  | early node _ _ ih =>
    rw [List.countP_cons]
    exact ⟨Nat.le_add_right_of_le (ih rfl).1, _, List.mem_cons_self, rfl⟩
  | brokeOff node _ answer _ ih =>
    rw [List.countP_cons, List.countP_append, answer.countP_isHeader]
    exact ⟨by omega, _, List.mem_cons_self, rfl⟩

/-- The client gets a single answer along a trace in which no attempt breaks off before the last. -/
theorem single (h : Trace inp attempt n events) (hno : NoBreakBeforeLast inp attempt n) :
    SingleAnswer events ∧ NoStartAfterHeader events := by
  induction h with
  | none => exact ⟨⟨by simp, .handler, by simp⟩, List.Pairwise.nil⟩
  | whole node _ answer => exact answer.single _ node
  | last node answer => exact answer.single _ node
  | @early attempt n node rest outcome next ih =>
    obtain ⟨⟨hone, src, hsrc⟩, hstart⟩ := ih (hno.tail outcome)
    refine ⟨⟨?_, src, ?_⟩, ?_⟩
    · rwa [List.countP_cons_of_neg (by simp [Event.isHeader])]
    · intro by_ bytes hmem
      rcases List.mem_cons.mp hmem with hmem | hmem
      · cases hmem
      · exact hsrc by_ bytes hmem
    · exact List.pairwise_cons.mpr ⟨fun _ _ hh => by simp [Event.isHeader] at hh, hstart⟩
  | @brokeOff attempt n node calls rest outcome _ _ _ =>
    have := hno attempt (Nat.le_refl _) (by omega) (fun j hj hjk => by omega)
    exact absurd outcome this

/-- When an attempt breaks off before the last, a second header is written, by an attempt that
starts after the first one. -/
theorem not_single (h : Trace inp attempt n events) (hno : ¬NoBreakBeforeLast inp attempt n) :
    2 ≤ events.countP Event.isHeader ∧ ¬NoStartAfterHeader events := by
  induction h with
  | none => exact absurd (fun k hk hlt => by omega) hno
  | @whole attempt n node calls outcome _ =>
    refine absurd (fun k hk _ hearly => ?_) hno
    rcases Nat.eq_or_lt_of_le hk with rfl | hk
    · exact outcome.2
    · exact absurd (hearly attempt (Nat.le_refl _) hk) outcome.1
  | last => exact absurd (fun k hk hlt => by omega) hno
  | @early attempt n node rest outcome next ih =>
    have hrest : ¬NoBreakBeforeLast inp (attempt + 1) (n + 1) := by
      intro hrest
      apply hno
      intro k hk hlt hearly
      rcases Nat.eq_or_lt_of_le hk with rfl | hk
      · exact Outcome.not_breaksOff_of_failsEarly outcome
      · exact hrest k hk (by omega) fun j hj => hearly j (by omega)
    obtain ⟨htwo, hstart⟩ := ih hrest
    refine ⟨?_, fun h => hstart (List.pairwise_cons.mp h).2⟩
    rw [List.countP_cons]
    omega
  | @brokeOff attempt n node calls rest _ answer next _ =>
    obtain ⟨hrest, e, he, hestart⟩ := next.header_pos
    refine ⟨?_, fun h => ?_⟩
    · rw [List.countP_cons, List.countP_append, answer.countP_isHeader]
      omega
    · obtain ⟨status, header, writes, rfl, -⟩ := answer
      have hcross := (List.pairwise_append.mp (List.pairwise_cons.mp h).2).2.2
      have := hcross _ List.mem_cons_self e he rfl
      simp [hestart] at this

end Trace

/-- The most attempts that a call can make: the configured number, and the number of enabled
candidates with different ids. -/
def attemptLimit (cfg : WorkerConfig) (inp : Inputs) : Nat :=
  min cfg.maxRetryAttempts.toNat (remaining inp.candidates [])

theorem forwardWithRetry_trace (dec : Decoder) (cfg : WorkerConfig) (inp : Inputs)
    (req : PendingRequest) :
    Trace inp 1 (attemptLimit cfg inp) (runIn inp (forwardWithRetry dec cfg req) {}).2.events := by
  by_cases hnone : inp.candidates = []
  · have hrun : runIn inp (forwardWithRetry dec cfg req) {} =
        runIn inp (tryCandidates dec cfg inp.candidates) {} := rfl
    have hrem : remaining inp.candidates [] = 0 := by
      rw [remaining_eq_zero, hnone]
      rfl
    rw [hrun, tryCandidates, if_pos hnone, attemptLimit, hrem, Nat.min_zero]
    exact .none 1
  · have hcourse := forwardWithRetry_course inp (fun _ => none) dec cfg req [] hnone
    rw [runUntil_never] at hcourse
    exact hcourse.trace fun _ => rfl

/-- A call of `forwardWithRetry` gives the client a single answer, and starts no attempt after a
recorder has committed, exactly when no attempt that another one can follow breaks off after its
status was passed on. -/
theorem single_answer_iff (dec : Decoder) (cfg : WorkerConfig) (inp : Inputs)
    (req : PendingRequest) :
    (SingleAnswer (runIn inp (forwardWithRetry dec cfg req) {}).2.events ↔
        NoBreakBeforeLast inp 1 (attemptLimit cfg inp)) ∧
      (NoStartAfterHeader (runIn inp (forwardWithRetry dec cfg req) {}).2.events ↔
        NoBreakBeforeLast inp 1 (attemptLimit cfg inp)) := by
  have htrace := forwardWithRetry_trace dec cfg inp req
  constructor
  · refine ⟨fun h => ?_, fun h => (htrace.single h).1⟩
    by_contra hno
    have htwo := (htrace.not_single hno).1
    have hone := h.one_header
    omega
  · refine ⟨fun h => ?_, fun h => (htrace.single h).2⟩
    by_contra hno
    exact (htrace.not_single hno).2 h

/-- Two nodes and two attempts: the first node answers a streaming request with 200 and one line,
and then its connection breaks; the second one answers with 200 as well. -/
theorem two_headers_after_broken_stream :
    ∃ (dec : Decoder) (cfg : WorkerConfig) (inp : Inputs) (req : PendingRequest),
      inp.candidates ≠ [] ∧ 1 ≤ cfg.maxRetryAttempts ∧
      ¬SingleAnswer (runIn inp (forwardWithRetry dec cfg req) {}).2.events ∧
      ¬NoStartAfterHeader (runIn inp (forwardWithRetry dec cfg req) {}).2.events := by
  let broken : Response := { statusCode := 200, body := asciiBytes "data: x\n",
                             bodyErr := some { text := "unexpected EOF" } }
  let whole : Response := { statusCode := 200, body := asciiBytes "data: y\n" }
  let dec : Decoder := ⟨fun _ => none, fun _ => none⟩
  let inp : Inputs :=
    { candidates := [{ id := "a" }, { id := "b" }]
      choice := fun _ => 0
      outcome := fun k => ⟨.ok ⟨true⟩, .ok (if k = 1 then broken else whole), fun _ => none⟩ }
  have htwo : 2 ≤ (runIn inp (forwardWithRetry dec ⟨2, 0⟩ { addr := 0 }) {}).2.events.countP
      Event.isHeader := by decide
  have hsingle :
      ¬SingleAnswer (runIn inp (forwardWithRetry dec ⟨2, 0⟩ { addr := 0 }) {}).2.events :=
    fun h => absurd h.one_header (by omega)
  refine ⟨dec, ⟨2, 0⟩, inp, { addr := 0 }, by simp [inp], by decide, hsingle, ?_⟩
  rw [NoStartAfterHeader]
  decide

end LlmProxy.Worker
