import LlmProxy.Worker.Attempt
import LlmProxy.Worker.Cancellation

/-! All that a run of `forwardWithRetry` can do, attempt by attempt.  `Course` relates the state in
which the loop stands to its result and to what can be seen of the rest of the run;
`attemptLoop_course` says that the code runs so. -/

namespace LlmProxy.Worker

open ProofKit Logging Proxy Queue Program

/-- The surroundings of a run whose context is found done before the attempts that `ends` says. -/
def World.answerUntil (inp : Inputs) (ends : Nat → Option ContextEnd) :
    (op : Op) → World → op.Ans × World
  | .contextErr, s => (ends (s.attempt + 1), s)
  | op, s => World.answer inp op s

def runUntil (inp : Inputs) (ends : Nat → Option ContextEnd) {α : Type} (p : Prog α) (s : World) :
    α × World :=
  p.eval (World.answerUntil inp ends) s

section Run

variable {inp : Inputs} {ends : Nat → Option ContextEnd} {α β : Type}

@[simp] theorem runUntil_pure (a : α) (s : World) : runUntil inp ends (pure a) s = (a, s) := rfl

@[simp] theorem runUntil_bind (p : Prog α) (f : α → Prog β) (s : World) :
    runUntil inp ends (p >>= f) s =
      runUntil inp ends (f (runUntil inp ends p s).1) (runUntil inp ends p s).2 :=
  Program.eval_bind p f s

@[simp] theorem runUntil_run (op : Op) (s : World) :
    runUntil inp ends op.run s = World.answerUntil inp ends op s := rfl

/-- Within an attempt nobody looks whether there may be another one. -/
theorem runUntil_within {p : Prog α} (hp : WithinAttempt p) (s : World) :
    runUntil inp ends p s = runIn inp p s := by
  refine Calls.eval_congr hp (fun op hop s => ?_) s
  cases op with
  | contextErr => cases hop
  | _ => rfl

/-- A context that is never done. -/
theorem runUntil_never (p : Prog α) (s : World) :
    runUntil inp (fun _ => none) p s = runIn inp p s := by
  have hsame : World.answerUntil inp (fun _ => none) = World.answer inp := by
    funext op s
    cases op <;> rfl
  rw [runUntil, hsame, runIn]

end Run

/-! ### What the client gets of an attempt -/

section

variable (o : Outcome) (k : Nat) (h : Header)

/-- The calls of an attempt whose status is passed on, where `h` is the header of the client's
writer. -/
def passedCalls (request : Prepared) (resp : Response) : List ClientCall :=
  .writeHeader (.attempt k) (sentStatus resp.statusCode) (h.overlay (headerOf request resp)) ::
    (push o.writeErr 0 (chunksOf request resp)).1.map (.write (.attempt k))

/-- The calls of an attempt that another one follows. -/
def interimCalls : List ClientCall :=
  match o.reached with
  | .error _ => []
  | .ok (request, resp) => if Outcome.PassesStatus resp then passedCalls o k h request resp else []

/-- The calls of the last attempt, with those that `flushFailure` makes for it. -/
def finalCalls : List ClientCall :=
  match o.reached with
  | .error _ =>
    [.writeHeader .workerError 502 (h.assign "Content-Type" ["application/json"]),
      .write .workerError (workerErrorBody 502 o.errorType)]
  | .ok (request, resp) =>
    if Outcome.PassesStatus resp then passedCalls o k h request resp
    else
      [.writeHeader (.attempt k) (sentStatus resp.statusCode) (h.overlay (headerOf request resp)),
        .write (.attempt k) (chunksOf request resp).flatten]

end

/-- The status that the client gets of a last attempt. -/
def finalStatus (o : Outcome) : Int :=
  match o.reached with
  | .error _ => 502
  | .ok (_, resp) => sentStatus resp.statusCode

/-- The calls of a last attempt are one answer. -/
theorem finalCalls_eq (o : Outcome) (k : Nat) (h : Header) :
    ∃ (src : Source) (header : Header) (chunks : List Bytes),
      finalCalls o k h = .writeHeader src (finalStatus o) header :: chunks.map (.write src) := by
  unfold finalCalls finalStatus
  cases o.reached with
  | error e => exact ⟨.workerError, _, [workerErrorBody 502 o.errorType], rfl⟩
  | ok reached =>
    obtain ⟨request, resp⟩ := reached
    by_cases hpass : Outcome.PassesStatus resp
    · simp only [if_pos hpass]
      exact ⟨.attempt k, _, _, rfl⟩
    · simp only [if_neg hpass]
      exact ⟨.attempt k, _, [(chunksOf request resp).flatten], rfl⟩

namespace Delivered

variable {o : Outcome} {k : Nat} {s s' : World} {w : Recorder}

/-- What has been sent when the attempt is over. -/
theorem interim (hd : Delivered o (.attempt k) s w s') :
    Sent s s' (interimCalls o k s.header) ∧
      (interimCalls o k s.header = [] → s'.header = s.header) := by
  cases hd with
  | nothing hreached =>
    rw [interimCalls, hreached]
    exact ⟨.refl s, fun _ => rfl⟩
  | held hreached hpass =>
    simp only [interimCalls, hreached, if_neg hpass]
    exact ⟨.refl s, fun _ => trivial⟩
  | passed hreached hpass _ hsent =>
    simp only [interimCalls, hreached, if_pos hpass]
    exact ⟨hsent, fun h => by cases h⟩

/-- A success has been sent. -/
theorem success (hd : Delivered o (.attempt k) s w s') (hok : ¬o.Fails) :
    Sent s s' (finalCalls o k s.header) := by
  cases hd with
  | nothing hreached => exact absurd (Outcome.fails_of_error hreached) hok
  | held hreached hpass => exact absurd (Outcome.fails_of_held hreached hpass) hok
  | passed hreached hpass _ hsent =>
    simp only [finalCalls, hreached, if_pos hpass]
    exact hsent

/-- A failure is sent at the end, if it has not been sent yet. -/
theorem flushed (hd : Delivered o (.attempt k) s w s') (inp : Inputs) {s₁ : World}
    (hs₁ : SameButChoices s' s₁) :
    ∃ s₂, runIn inp (flushFailure w o.verdict.2 o.errorType) s₁ = ((), s₂) ∧
      Sent s s₂ (finalCalls o k s.header) := by
  cases hd with
  | @nothing e hreached =>
    have hstatus : o.verdict.2 = 0 := by simp only [Outcome.verdict, hreached]
    refine ⟨_, rfl, ?_⟩
    simp only [finalCalls, hreached]
    rw [hs₁, hstatus]
    exact ⟨by simp [World.answer], rfl⟩
  | @held request resp hreached hpass =>
    simp only [finalCalls, hreached, if_neg hpass]
    rw [flushFailure, if_neg Bool.false_ne_true, if_pos rfl, runIn_bind,
      Recorder.commitNow_headed inp rfl]
    refine ⟨_, rfl, ?_⟩
    rw [hs₁]
    exact ⟨by simp [World.answer, World.headed], rfl⟩
  | passed hreached hpass hcommit hsent =>
    simp only [finalCalls, hreached, if_pos hpass]
    refine ⟨s₁, ?_, ?_⟩
    · rw [flushFailure, if_pos hcommit]
      rfl
    · rw [hs₁]
      exact ⟨hsent.events, hsent.attempt⟩

end Delivered

/-! ### The loop -/

/-- The record of an attempt. -/
structure LogOf (attempt : Nat) (node : ModelNode) (o : Outcome) (log : AttemptLog) : Prop where
  attempt : log.attempt = attempt
  nodeID : log.nodeID = node.id
  errorType : log.errorType = o.errorType

theorem logOf_attemptLogOf (attempt : Nat) (node : ModelNode) (res : Option ForwardResult)
    {o : Outcome} {statusCode : Int} (hstatus : statusCode = o.verdict.2) :
    LogOf attempt node o (attemptLogOf attempt node res o.verdict.1 statusCode) := by
  subst hstatus
  unfold attemptLogOf
  split <;> exact ⟨rfl, rfl, rfl⟩

/-- How the loop goes on before an attempt, where `left` attempts are left, this one included, and
`h` is the header of the client's writer: the result, and the events. -/
inductive Course (inp : Inputs) (ends : Nat → Option ContextEnd) :
    (left attempt : Nat) → (excluded : List String) → (logs : List AttemptLog) → (h : Header) →
    ExecutionResult → List Event → Prop
  | spent {attempt : Nat} {excluded : List String} {logs : List AttemptLog} {h : Header} :
      Course inp ends 0 attempt excluded logs h
        { statusCode := 502, error := "all failed", attempts := logs } []
  | cancelled {left attempt : Nat} {excluded : List String} {logs : List AttemptLog} {h : Header}
      (context : ends attempt ≠ none) :
      Course inp ends (left + 1) attempt excluded logs h
        { statusCode := 499, error := "cancelled", attempts := logs } []
  | noNode {left attempt : Nat} {excluded : List String} {logs : List AttemptLog} {h : Header}
      (context : ends attempt = none) (nodes : available inp.candidates excluded = []) :
      Course inp ends (left + 1) attempt excluded logs h
        { statusCode := 502, error := "all failed", attempts := logs } []
  | success {left attempt : Nat} {excluded : List String} {logs : List AttemptLog} {h : Header}
      {node : ModelNode} {log : AttemptLog} {result : ExecutionResult}
      (context : ends attempt = none) (picked : node ∈ available inp.candidates excluded)
      (log_of : LogOf attempt node (inp.outcome attempt) log) (ok : ¬(inp.outcome attempt).Fails)
      (error : result.error = "") (status : result.statusCode = (inp.outcome attempt).verdict.2)
      (attempts : result.attempts = logs ++ [log]) :
      Course inp ends (left + 1) attempt excluded logs h result
        (.started attempt node :: (finalCalls (inp.outcome attempt) attempt h).map .client)
  | gaveUp {left attempt : Nat} {excluded : List String} {logs : List AttemptLog} {h : Header}
      {node : ModelNode} {log : AttemptLog}
      (context : ends attempt = none) (picked : node ∈ available inp.candidates excluded)
      (log_of : LogOf attempt node (inp.outcome attempt) log) (fails : (inp.outcome attempt).Fails)
      (last : left = 0 ∨ available inp.candidates (node.id :: excluded) = []) :
      Course inp ends (left + 1) attempt excluded logs h
        { statusCode := (inp.outcome attempt).verdict.2,
          error := (inp.outcome attempt).errorType.text
          errorType := some (inp.outcome attempt).errorType, attempts := logs ++ [log] }
        (.started attempt node :: (finalCalls (inp.outcome attempt) attempt h).map .client)
  | retried {left attempt : Nat} {excluded : List String} {logs : List AttemptLog} {h h' : Header}
      {node : ModelNode} {log : AttemptLog} {result : ExecutionResult} {events : List Event}
      (context : ends attempt = none) (picked : node ∈ available inp.candidates excluded)
      (log_of : LogOf attempt node (inp.outcome attempt) log) (fails : (inp.outcome attempt).Fails)
      (attempts_left : left ≠ 0) (nodes_left : available inp.candidates (node.id :: excluded) ≠ [])
      (header : interimCalls (inp.outcome attempt) attempt h = [] → h' = h)
      (next : Course inp ends left (attempt + 1) (node.id :: excluded) (logs ++ [log]) h'
        result events) :
      Course inp ends (left + 1) attempt excluded logs h result
        (.started attempt node ::
          ((interimCalls (inp.outcome attempt) attempt h).map .client ++ events))

section Loop

variable (inp : Inputs) (ends : Nat → Option ContextEnd) (dec : Decoder) (cfg : WorkerConfig)

theorem willRetry_same (left : Nat) (excluded : List String) (s : World) :
    ∃ retry s', runIn inp (willRetry left inp.candidates excluded) s = (retry, s') ∧
      SameButChoices s s' ∧ (retry = true ↔ left ≠ 0 ∧ available inp.candidates excluded ≠ []) := by
  by_cases hleft : 0 < left
  · obtain ⟨other, s', hrun, hsame, hnone, -⟩ := pick_run inp (available inp.candidates excluded) s
    refine ⟨other.isSome, s', ?_, hsame, ?_⟩
    · simp only [willRetry, hleft, ↓reduceIte, runIn_bind, pickNode, hrun, runIn_pure]
    · rw [Option.isSome_iff_ne_none, ne_eq, hnone]
      exact ⟨fun h => ⟨by omega, h⟩, fun h => h.2⟩
  · refine ⟨false, s, by rw [willRetry, if_neg hleft]; rfl, rfl, ?_⟩
    simp only [Bool.false_eq_true, false_iff]
    omega

/-- A failed attempt.  Either the next iteration goes on from it, or what the client has not got yet
is sent. -/
theorem afterFailure_run {k : Nat} {s s' : World} {w : Recorder}
    (hd : Delivered (inp.outcome k) (.attempt k) s w s') (left : Nat) (excluded : List String)
    (logs : List AttemptLog) (rest : Prog ExecutionResult) :
    (left ≠ 0 ∧ available inp.candidates excluded ≠ [] ∧
      ∃ s₁, SameButChoices s' s₁ ∧
        runUntil inp ends
          (afterFailure cfg left inp.candidates excluded logs w (inp.outcome k).verdict.2
          (inp.outcome k).errorType rest) s' = runUntil inp ends rest s₁) ∨
    (left = 0 ∨ available inp.candidates excluded = []) ∧
      ∃ s₁, Sent s s₁ (finalCalls (inp.outcome k) k s.header) ∧
        runUntil inp ends
          (afterFailure cfg left inp.candidates excluded logs w (inp.outcome k).verdict.2
          (inp.outcome k).errorType rest) s' =
          ({ statusCode := (inp.outcome k).verdict.2, error := (inp.outcome k).errorType.text
             errorType := some (inp.outcome k).errorType, attempts := logs }, s₁) := by
  obtain ⟨retry, s₁, hretry, hsame, hiff⟩ := willRetry_same inp left excluded s'
  simp only [afterFailure, runUntil_bind, runUntil_within (willRetry_within _ _ _), hretry]
  cases retry with
  | true =>
    obtain ⟨hleft, hnodes⟩ := hiff.mp rfl
    refine .inl ⟨hleft, hnodes, s₁, hsame, ?_⟩
    simp only [↓reduceIte]
    split
    · simp only [runUntil_bind, runUntil_run]
      rfl
    · rfl
  | false =>
    have hlast : left = 0 ∨ available inp.candidates excluded = [] := by
      by_contra h
      rw [not_or] at h
      exact Bool.false_ne_true (hiff.mpr h)
    obtain ⟨s₂, hflush, hsent⟩ := hd.flushed inp hsame
    refine .inr ⟨hlast, s₂, hsent, ?_⟩
    simp only [Bool.false_eq_true, ↓reduceIte, runUntil_bind, runUntil_pure,
      runUntil_within (flushFailure_within _ _ _), hflush]

/-- An attempt starts: nothing has been written for it. -/
theorem attemptStart_answer {s s₁ : World} (hsame : SameButChoices s s₁) (attempt : Nat)
    (node : ModelNode) :
    ∃ s₂, World.answerUntil inp ends (.attemptStart attempt node) s₁ = ((), s₂) ∧
      s₂.events = s.events ++ [.started attempt node] ∧ s₂.header = s.header ∧
      s₂.attempt = attempt ∧ s₂.writes = 0 := by
  refine ⟨_, rfl, ?_, ?_, rfl, rfl⟩
  · rw [hsame]
  · rw [hsame]

theorem successResult_of (node : ModelNode) (logs : List AttemptLog) (res : Option ForwardResult)
    (statusCode : Int) :
    (successResult node logs res statusCode).error = "" ∧
      (successResult node logs res statusCode).statusCode = statusCode ∧
      (successResult node logs res statusCode).attempts = logs := by
  unfold successResult
  split
  · exact ⟨rfl, rfl, rfl⟩
  · split <;> exact ⟨rfl, rfl, rfl⟩

theorem attemptLoop_course (left attempt : Nat) (excluded : List String) (logs : List AttemptLog)
    {s : World} (hs : s.attempt + 1 = attempt) :
    ∃ result s' events,
      runUntil inp ends (attemptLoop dec cfg inp.candidates left attempt excluded logs) s =
        (result, s') ∧
      s'.events = s.events ++ events ∧
      Course inp ends left attempt excluded logs s.header result events := by
  induction left generalizing attempt excluded logs s with
  | zero => exact ⟨_, s, [], rfl, by simp, .spent⟩
  | succ left ih =>
    simp only [attemptLoop, runUntil_bind, runUntil_run, World.answerUntil, hs]
    cases hends : ends attempt with
    | some how => exact ⟨_, s, [], rfl, by simp, .cancelled (by simp [hends])⟩
    | none =>
      obtain ⟨out, s₁, hpick, hsame, hnone, hmem⟩ :=
        pick_run inp (available inp.candidates excluded) s
      simp only [runUntil_bind, pickNode, runUntil_within (pick_within _), hpick]
      cases out with
      | none => exact ⟨_, s₁, [], rfl, by rw [hsame]; simp, .noNode hends (hnone.mp rfl)⟩
      | some node =>
        have hpicked := hmem node rfl
        obtain ⟨s₂, hanswer, hstart, hheader, hattempt, hwrites⟩ :=
          attemptStart_answer inp ends hsame attempt node
        obtain ⟨res, w, s₃, hforward, hstatus, -, hdelivered⟩ :=
          forward_delivered inp dec node hwrites (.attempt attempt)
        rw [hattempt] at hforward hstatus hdelivered
        have hlog := logOf_attemptLogOf attempt node res hstatus
        have htype : classifyError (inp.outcome attempt).verdict.1 (inp.outcome attempt).verdict.2 =
          (inp.outcome attempt).errorType := rfl
        simp only [runUntil_bind, runUntil_run, hanswer, runUntil_within (forward_within dec _ _),
          hforward, hstatus, htype]
        by_cases hok : (inp.outcome attempt).verdict.1 = none ∧
            isRetryable (inp.outcome attempt).errorType = false
        · rw [if_pos hok]
          have hsent := hdelivered.success (not_not.mpr hok)
          rw [hheader] at hsent
          obtain ⟨herror, hcode, hlogs⟩ := successResult_of node
            (logs ++ [attemptLogOf attempt node res (inp.outcome attempt).verdict.1
              (inp.outcome attempt).verdict.2]) res (inp.outcome attempt).verdict.2
          refine ⟨_, s₃, _, rfl, ?_,
            .success hends hpicked (hstatus ▸ hlog) (not_not.mpr hok) herror hcode hlogs⟩
          rw [hsent.events, hstart, List.append_assoc]
          rfl
        · rw [if_neg hok]
          rcases afterFailure_run inp ends cfg hdelivered left (node.id :: excluded) _ _ with
            ⟨hleft, hnodes, s₄, hsame₄, hrest⟩ | ⟨hlast, s₄, hsent, hrun⟩
          · obtain ⟨hsent, hinterim⟩ := hdelivered.interim
            rw [hheader] at hsent hinterim
            have hs₄ : s₄.attempt + 1 = attempt + 1 := by
              rw [hsame₄, ← hattempt, ← hsent.attempt]
            have hheader₄ : s₄.header = s₃.header := by rw [hsame₄]
            have hevents₄ : s₄.events = s₃.events := by rw [hsame₄]
            obtain ⟨result, s₅, events, hrun, hevents, hnext⟩ :=
              ih (attempt + 1) (node.id :: excluded)
              (logs ++ [attemptLogOf attempt node res (inp.outcome attempt).verdict.1
                (inp.outcome attempt).verdict.2]) hs₄
            refine ⟨result, s₅, _, hrest.trans hrun, ?_,
              .retried hends hpicked (hstatus ▸ hlog) hok hleft hnodes ?_ hnext⟩
            · rw [hevents, hevents₄, hsent.events, hstart]
              simp
            · rw [hheader₄]
              exact hinterim
          · rw [hheader] at hsent
            refine ⟨_, s₄, _, hrun, ?_, .gaveUp hends hpicked (hstatus ▸ hlog) hok hlast⟩
            rw [hsent.events, hstart, List.append_assoc]
            rfl

/-- A call of `forwardWithRetry` with a header `h` of the client's writer. -/
theorem forwardWithRetry_course (req : PendingRequest) (h : Header) (hne : inp.candidates ≠ []) :
    Course inp ends cfg.maxRetryAttempts.toNat 1 [] [] h
      (runUntil inp ends (forwardWithRetry dec cfg req) { header := h }).1
      (runUntil inp ends (forwardWithRetry dec cfg req) { header := h }).2.events := by
  have hrun : runUntil inp ends (forwardWithRetry dec cfg req) { header := h } =
      runUntil inp ends (tryCandidates dec cfg inp.candidates) { header := h } := rfl
  obtain ⟨result, s', events, hloop, hevents, hcourse⟩ := attemptLoop_course inp ends dec cfg
    cfg.maxRetryAttempts.toNat 1 [] [] (s := { header := h }) rfl
  rw [hrun, tryCandidates, if_neg hne, hloop, hevents]
  exact hcourse

end Loop

end LlmProxy.Worker
