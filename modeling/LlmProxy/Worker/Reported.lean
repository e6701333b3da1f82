import LlmProxy.Proxy.Usage
import LlmProxy.Worker.RetryRun

/-! The way of a usage report through the worker: from the upstream's answer, in a body or in a
stream, to the result that the handler gets. -/

namespace LlmProxy.Worker

open ProofKit Logging Proxy Queue Program

/-- The request of every attempt is streaming or not, as given, and every answer of an upstream that
is passed on satisfies `P`; one that is worth another attempt may be anything. -/
def UpstreamAnswers (streaming : Bool) (P : Response → Prop) : (op : Op) → op.Ans → Prop
  | .prepare _, answer => ∀ request, answer = .ok request → request.isStream = streaming
  | .roundTrip .., answer => ∀ resp, answer = .ok resp → Outcome.PassesStatus resp → P resp
  | _, _ => True

section

variable {A : (op : Op) → op.Ans → Prop}

/-- A relay that ends without an error has the counts of its lines, if there was a report. -/
theorem relay_ensures (dec : Decoder) (scanErr : Option GoError) (lines : List Bytes) (w : Recorder)
    (acc : StreamResult × Bool) :
    (relay dec scanErr lines w acc).Ensures A fun out => out.2.1 = none →
      ∀ tokens, lines.foldl (countLine dec) (counted acc) = (tokens, true) →
        (out.1.promptTokens, out.1.completionTokens) = tokens := by
  refine (relay_settled dec scanErr lines w acc).mono fun out hout herr tokens hlines => ?_
  rw [← counted_foldl] at hlines
  obtain ⟨hcounts, hfound⟩ := Prod.mk.inj hlines
  rw [(hout herr).2, settled, if_pos hfound]
  exact hcounts

end

/-! ### One attempt -/

section

variable {u : Unmarshaler} {r : UsageReport}

/-- The result of an attempt on a stream with the report. -/
def StreamOf (r : UsageReport) (f : ForwardResult) : Prop :=
  ∃ s, f.stream = some s ∧ (s.promptTokens, s.completionTokens) = r.tokens

/-- The result of an attempt on a body with the report. -/
def BodyOf (u : Unmarshaler) (r : UsageReport) (f : ForwardResult) : Prop :=
  f.stream = none ∧ r.InBody u f.body

/-- An attempt that went well has a result, which is as `Good` says unless its status is worth
another attempt. -/
def GivesGood (Good : ForwardResult → Prop)
    (out : Option ForwardResult × Option GoError × Recorder) : Prop :=
  out.2.1 = none → ∃ f, out.1 = some f ∧
    (isRetryable (classifyError none f.statusCode) = false → Good f)

/-- So does every attempt, if the surroundings answer as `A` says. -/
def EachGivesGood (A : (op : Op) → op.Ans → Prop) (dec : Decoder) (Good : ForwardResult → Prop) :
    Prop :=
  ∀ node w, (forward dec node w).Ensures A (GivesGood Good)

theorem answerStream_ensures {A : (op : Op) → op.Ans → Prop} (w : Recorder) {resp : Response}
    (h : Outcome.PassesStatus resp → r.InStream u (scan resp).1) :
    (answerStream (decoder u) w resp).Ensures A (GivesGood (StreamOf r)) := by
  rw [answerStream]
  refine ensures_bind fun w' => ?_
  refine (relay_ensures (decoder u) (scan resp).2 (scan resp).1 w' ({}, false)).bind
    fun out hout => ensures_done fun herr => ?_
  have hnone : out.2.1 = none := by simpa using herr
  refine ⟨_, rfl, fun hpass => ⟨out.1, rfl, ?_⟩⟩
  exact hout hnone r.tokens (foldl_countLine_report (h hpass))

theorem answerBody_ensures {A : (op : Op) → op.Ans → Prop} (w : Recorder) {resp : Response}
    (h : Outcome.PassesStatus resp → r.InBody u resp.body) :
    (answerBody w resp).Ensures A (GivesGood (BodyOf u r)) := by
  rw [answerBody]
  cases resp.bodyErr with
  | some e => exact ensures_done fun h => (by cases h)
  | none =>
    refine ensures_bind fun w' => ensures_bind fun written => ensures_done fun _ => ?_
    exact ⟨_, rfl, fun hpass => ⟨rfl, h hpass⟩⟩

/-- An attempt whose upstream answers as assumed, where `Good` is what becomes of such an answer. -/
theorem forward_ensures {dec : Decoder} {streaming : Bool} {P : Response → Prop}
    {Good : ForwardResult → Prop}
    (hanswer : ∀ w resp, (Outcome.PassesStatus resp → P resp) →
      (if streaming then answerStream dec w resp else answerBody w resp).Ensures
        (UpstreamAnswers streaming P) (GivesGood Good)) :
    EachGivesGood (UpstreamAnswers streaming P) dec Good := by
  intro node w
  rw [forward]
  apply ensures_run
  intro prepared hprepared
  cases prepared with
  | error e => exact ensures_done fun h => (by cases h)
  | ok request =>
    apply ensures_run
    intro answer hresp
    cases answer with
    | error e => exact ensures_done fun h => (by cases h)
    | ok resp =>
      have hstreaming : request.isStream = streaming := hprepared request rfl
      simp only [hstreaming]
      exact hanswer w resp (hresp resp rfl)

end

/-! ### All attempts -/

section

variable {A : (op : Op) → op.Ans → Prop} {dec : Decoder} {cfg : WorkerConfig}
  {Good : ForwardResult → Prop}

/-- A result without an error comes from an attempt that went well. -/
def FromGood (Good : ForwardResult → Prop) (result : ExecutionResult) : Prop :=
  result.error = "" → ∃ node attempts f statusCode, Good f ∧
    result = successResult node attempts (some f) statusCode

theorem fromGood_of_error {result : ExecutionResult} (h : result.error ≠ "") :
    FromGood Good result :=
  fun herr => absurd herr h

theorem afterFailure_ensures {left : Nat} {candidates : List ModelNode} {excluded : List String}
    {attempts : List AttemptLog} {w : Recorder} {statusCode : Int} {errorType : ErrorType}
    {rest : Prog ExecutionResult} (hrest : rest.Ensures A (FromGood Good)) :
    (afterFailure cfg left candidates excluded attempts w statusCode errorType rest).Ensures A
      (FromGood Good) := by
  rw [afterFailure]
  refine ensures_bind fun retry => ?_
  split
  · split
    · exact ensures_bind fun _ => hrest
    · exact hrest
  · exact ensures_bind fun _ => ensures_done (fromGood_of_error errorType.text_ne_empty)

theorem attemptLoop_ensures (hforward : EachGivesGood A dec Good) (candidates : List ModelNode)
    (left attempt : Nat) (excluded : List String) (attempts : List AttemptLog) :
    (attemptLoop dec cfg candidates left attempt excluded attempts).Ensures A (FromGood Good) := by
  induction left generalizing attempt excluded attempts with
  | zero => exact ensures_done (fromGood_of_error (show "all failed" ≠ "" by decide))
  | succ left ih =>
    rw [attemptLoop]
    apply ensures_run
    intro ended _
    cases ended with
    | some how => exact ensures_done (fromGood_of_error (show "cancelled" ≠ "" by decide))
    | none =>
      refine ensures_bind fun picked => ?_
      cases picked with
      | none => exact ensures_done (fromGood_of_error (show "all failed" ≠ "" by decide))
      | some node =>
        apply ensures_run
        intro _ _
        refine (hforward node _).bind fun out hout => ?_
        obtain ⟨res, err, w⟩ := out
        dsimp only
        split
        · next hok =>
          obtain ⟨rfl, hstatus⟩ := hok
          obtain ⟨f, rfl, hgood⟩ := hout rfl
          exact ensures_done fun _ => ⟨node, _, f, _, hgood hstatus, rfl⟩
        · exact afterFailure_ensures (ih _ _ _)

theorem tryCandidates_ensures (hforward : EachGivesGood A dec Good) (candidates : List ModelNode) :
    (tryCandidates dec cfg candidates).Ensures A (FromGood Good) := by
  rw [tryCandidates]
  split
  · exact ensures_done (fromGood_of_error (show "no nodes" ≠ "" by decide))
  · exact attemptLoop_ensures hforward _ _ _ _ _

theorem forwardWithRetry_ensures (hforward : EachGivesGood A dec Good) (req : PendingRequest) :
    (forwardWithRetry dec cfg req).Ensures A (FromGood Good) :=
  ensures_bind fun candidates => tryCandidates_ensures hforward candidates

end

/-- The result of a streaming request whose upstreams report in the stream. -/
theorem streamed_result {u : Unmarshaler} {r : UsageReport} {cfg : WorkerConfig}
    (req : PendingRequest) :
    (forwardWithRetry (decoder u) cfg req).Ensures
      (UpstreamAnswers true fun resp => r.InStream u (scan resp).1) fun result =>
        result.error = "" →
        (result.promptTokens, result.completionTokens) = r.tokens ∧
          result.totalTokens = r.tokens.1 + r.tokens.2 ∧ result.body = [] := by
  have hforward : EachGivesGood (UpstreamAnswers true fun resp => r.InStream u (scan resp).1)
      (decoder u) (StreamOf r) :=
    forward_ensures fun w resp h => answerStream_ensures w h
  refine (forwardWithRetry_ensures hforward req).mono fun result hresult herr => ?_
  obtain ⟨node, attempts, f, statusCode, ⟨s, hs, htokens⟩, rfl⟩ := hresult herr
  obtain ⟨hp, hc⟩ := Prod.mk.inj htokens
  simp only [successResult, hs]
  exact ⟨htokens, by rw [hp, hc]; rfl, trivial⟩

/-- The result of another request whose upstreams report in the body. -/
theorem plain_result {u : Unmarshaler} {r : UsageReport} {dec : Decoder} {cfg : WorkerConfig}
    (req : PendingRequest) :
    (forwardWithRetry dec cfg req).Ensures
      (UpstreamAnswers false fun resp => r.InBody u resp.body) fun result => result.error = "" →
        result.totalTokens = 0 ∧ r.InBody u result.body := by
  have hforward : EachGivesGood (UpstreamAnswers false fun resp => r.InBody u resp.body) dec
      (BodyOf u r) :=
    forward_ensures fun w resp h => answerBody_ensures w h
  refine (forwardWithRetry_ensures hforward req).mono fun result hresult herr => ?_
  obtain ⟨node, attempts, f, statusCode, ⟨hstream, hbody⟩, rfl⟩ := hresult herr
  simp only [successResult, hstream]
  exact ⟨trivial, hbody⟩

end LlmProxy.Worker
