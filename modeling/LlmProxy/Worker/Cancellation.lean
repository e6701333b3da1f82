import LlmProxy.Worker.Retry

/-! A worker whose request is cancelled between two attempts writes nothing more to the client: it
looks at the context before each attempt.  Within an attempt it does not, and there its writes may
come at any time after the context has ended. -/

namespace LlmProxy

open ProofKit

namespace Op

/-- The operations of `forwardWithRetry` outside the attempts and their aftermath: before the first
attempt, in the delay, and at the look at the context. -/
def betweenAttempts : Op → Bool
  | resolve .. | contextErr | sleep _ => true
  | streamContextErr | intn _ | attemptStart .. | prepare _ | roundTrip .. | assignHeader ..
  | writeHeader .. | write .. | flush => false

/-- The operations that send something to the client. -/
def onClient : Op → Bool
  | writeHeader .. | write .. => true
  | resolve .. | contextErr | streamContextErr | intn _ | attemptStart .. | prepare _ | roundTrip ..
  | assignHeader .. | flush | sleep _ => false

/-- The answer tells truly whether the context is done. -/
def AnswersContext (ended : Bool) : (op : Op) → op.Ans → Prop
  | contextErr, answer => answer.isSome = ended
  | _, _ => True

end Op

namespace Worker

open Logging Proxy Queue Program

/-- The worker and a context that ends only between attempts; the state is whether it has ended.
The worker sends nothing to the client once it has. -/
def silence : Contract Op Op.Ans Bool where
  interferes ended op ended' := ended' = ended ∨ op.betweenAttempts = true ∧ ended' = true
  allowed ended op := ended = true → op.onClient = false
  answers ended op := op.AnswersContext ended
  next ended _ _ := ended

/-- The program is part of an attempt. -/
def WithinAttempt {α : Type} (p : Prog α) : Prop := p.Calls (·.betweenAttempts = false)

namespace WithinAttempt

variable {α β : Type}

theorem pure (a : α) : WithinAttempt (pure a) := trivial

theorem run {op : Op} (h : op.betweenAttempts = false) : WithinAttempt op.run := calls_perform h

theorem bind {p : Prog α} {f : α → Prog β} (hp : WithinAttempt p)
    (hf : ∀ a, WithinAttempt (f a)) : WithinAttempt (p >>= f) := Calls.bind hp hf

theorem ite {c : Prop} [Decidable c] {p q : Prog α} (hp : WithinAttempt p) (hq : WithinAttempt q) :
    WithinAttempt (if c then p else q) := by
  split
  · exact hp
  · exact hq

/-- While the context is not done, an attempt may do what it wants. -/
theorem obeys {p : Prog α} (hp : WithinAttempt p) :
    p.Obeys silence (fun ended _ => ended = false) false := by
  apply Calls.obeys hp
  intro op hop
  refine ⟨?_, fun h => absurd h Bool.false_ne_true, fun _ => rfl⟩
  rintro g' (h | ⟨h, -⟩)
  · exact h
  · simp [hop] at h

end WithinAttempt

theorem pick_within (nodes : List ModelNode) : WithinAttempt (pick nodes) := by
  match nodes with
  | [] => exact .pure _
  | [_] => exact .pure _
  | _ :: _ :: _ => exact .bind (.run rfl) fun _ => .pure _

theorem willRetry_within (left : Nat) (candidates : List ModelNode) (excluded : List String) :
    WithinAttempt (willRetry left candidates excluded) :=
  .ite (.bind (pick_within _) fun _ => .pure _) (.pure _)

namespace Recorder

theorem assignAll_within (h : Header) : WithinAttempt (assignAll h) := by
  induction h with
  | nil => exact .pure _
  | cons entry rest ih => exact .bind (.run rfl) fun _ => ih

theorem commitNow_within (r : Recorder) : WithinAttempt r.commitNow :=
  .ite (.pure _) (.bind (assignAll_within _) fun _ => .bind (.run rfl) fun _ => .pure _)

theorem writeHeader_within (r : Recorder) (status : Int) : WithinAttempt (r.writeHeader status) :=
  .ite (.pure _) (.ite (.pure _) (commitNow_within _))

theorem write_within (r : Recorder) (bytes : Bytes) : WithinAttempt (r.write bytes) := by
  rw [write]
  split
  · exact .bind (.pure _) fun _ => .ite (.bind (.run rfl) fun _ => .pure _) (.pure _)
  · exact .bind (writeHeader_within r 200) fun _ =>
      .ite (.bind (.run rfl) fun _ => .pure _) (.pure _)

theorem flush_within (r : Recorder) : WithinAttempt r.flush :=
  .ite (.bind (.run rfl) fun _ => .pure _) (.pure _)

end Recorder

theorem flushFailure_within (w : Recorder) (statusCode : Int) (errorType : ErrorType) :
    WithinAttempt (flushFailure w statusCode errorType) := by
  refine .ite (.pure _) (.ite ?_ ?_)
  · exact .bind (Recorder.commitNow_within w) fun _ => .bind (.run rfl) fun _ => .pure _
  · exact .bind (.run rfl) fun _ => .bind (.run rfl) fun _ => .bind (.run rfl) fun _ => .pure _

section Attempt

variable (dec : Decoder)

theorem relay_within (scanErr : Option GoError) (lines : List Bytes) (w : Recorder)
    (acc : StreamResult × Bool) : WithinAttempt (relay dec scanErr lines w acc) := by
  induction lines generalizing w acc with
  | nil => exact .pure _
  | cons line lines ih =>
    refine .bind (.run rfl) fun ended => ?_
    cases ended with
    | some ended => exact .pure _
    | none =>
      refine .bind (Recorder.write_within w _) fun out => ?_
      rcases out with ⟨_ | e, w'⟩
      · exact .bind (Recorder.flush_within w') fun _ => ih _ _
      · exact .pure _

theorem forward_within (node : ModelNode) (w : Recorder) :
    WithinAttempt (forward dec node w) := by
  refine .bind (.run rfl) fun prepared => ?_
  rcases prepared with e | request
  · exact .pure _
  refine .bind (.run rfl) fun reply => ?_
  rcases reply with e | resp
  · exact .pure _
  refine .ite ?_ ?_
  · exact .bind (Recorder.writeHeader_within _ _) fun _ =>
      .bind (relay_within dec _ _ _ _) fun _ => .pure _
  · rw [answerBody]
    split
    · exact .pure _
    · exact .bind (Recorder.writeHeader_within _ _) fun _ =>
        .bind (Recorder.write_within _ _) fun _ => .pure _

theorem attemptLoop_silent (cfg : WorkerConfig) (candidates : List ModelNode) (left attempt : Nat)
    (excluded : List String) (attempts : List AttemptLog) (ended : Bool) :
    (attemptLoop dec cfg candidates left attempt excluded attempts).Obeys silence
      (fun _ _ => True) ended := by
  induction left generalizing attempt excluded attempts ended with
  | zero => trivial
  | succ left ih =>
    intro ended' _
    refine ⟨fun _ => rfl, fun answer hanswer => ?_⟩
    cases answer with
    | some how => trivial
    | none =>
      -- The context was not done before the attempt, and stays so to its end.
      obtain rfl : false = ended' := hanswer
      refine (pick_within _).obeys.bind fun g out hg => ?_
      cases hg
      cases out with
      | none => trivial
      | some node =>
        refine (WithinAttempt.run rfl).obeys.bind fun g _ hg => ?_
        cases hg
        refine (forward_within dec node _).obeys.bind fun g out hg => ?_
        cases hg
        obtain ⟨res, err, w⟩ := out
        dsimp only
        split
        · trivial
        · refine (willRetry_within _ _ _).obeys.bind fun g retry hg => ?_
          cases hg
          cases retry with
          | true =>
            simp only [↓reduceIte]
            split
            · exact fun ended'' _ => ⟨fun _ => rfl, fun _ _ => ih _ _ _ ended''⟩
            · exact ih _ _ _ false
          | false =>
            exact (flushFailure_within _ _ _).obeys.bind fun _ _ _ => trivial

theorem tryCandidates_silent (cfg : WorkerConfig) (candidates : List ModelNode) (ended : Bool) :
    (tryCandidates dec cfg candidates).Obeys silence (fun _ _ => True) ended := by
  rw [tryCandidates]
  split
  · trivial
  · exact attemptLoop_silent dec cfg candidates _ _ _ _ _

end Attempt

/-- A worker sends nothing to the client after its context has ended between attempts. -/
theorem forwardWithRetry_silent (dec : Decoder) (cfg : WorkerConfig) (req : PendingRequest)
    (ended : Bool) :
    (forwardWithRetry dec cfg req).Obeys silence (fun _ _ => True) ended := by
  intro ended' _
  exact ⟨fun _ => rfl, fun candidates _ => tryCandidates_silent dec cfg candidates ended'⟩

end Worker

end LlmProxy
