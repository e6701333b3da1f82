import LlmProxy.Worker.Retry
import LlmProxy.Router

/-! A worker whose request stays live answers the client before it returns, if it has a candidate
and an attempt to make. -/

namespace LlmProxy

open ProofKit

namespace Op

/-- The operation passes a status on to the client. -/
def isHeader : Op → Bool
  | writeHeader .. => true
  | resolve .. | contextErr | streamContextErr | intn _ | attemptStart .. | prepare _ | roundTrip ..
  | assignHeader .. | write .. | flush | sleep _ => false

/-- The answers of a context that is not done, and of the router. -/
def AnswersLive (router : Router) : (op : Op) → op.Ans → Prop
  | resolve alias_ et, answer => answer = router.resolve alias_ et
  | contextErr, answer => answer = none
  | _, _ => True

end Op

namespace Worker

open Logging Proxy Queue Program

/-- The worker of a request that stays live; the state is whether the client has got a status. -/
def answering (router : Router) : Contract Op Op.Ans Bool where
  allowed _ _ := True
  answers _ op := op.AnswersLive router
  next written op _ := written || op.isHeader

/-- A recorder that has committed has written a status. -/
def Tells (written : Bool) (w : Recorder) : Prop := w.commit = true → written = true

section

variable {router : Router} {α β : Type} {written : Bool}

/-- One operation in a proof about `answering`. -/
theorem answers_run {op : Op} {f : op.Ans → Prog β} {Q : Bool → β → Prop}
    (h : ∀ r, op.AnswersLive router r →
      (f r).Obeys (answering router) Q (written || op.isHeader)) :
    (op.run >>= f).Obeys (answering router) Q written := by
  rintro _ rfl
  exact ⟨trivial, h⟩

namespace Recorder

theorem assignAll_answers (h : Header) :
    (assignAll h).Obeys (answering router) (fun written' _ => written' = written) written := by
  induction h with
  | nil => exact rfl
  | cons entry rest ih =>
    apply answers_run
    intro _ _
    rw [Op.isHeader, Bool.or_false]
    exact ih

theorem commitNow_answers {w : Recorder} (hw : Tells written w) :
    w.commitNow.Obeys (answering router)
      (fun written' w' => written' = true ∧ w'.commit = true) written := by
  rw [commitNow]
  split
  · rename_i hc
    exact ⟨hw hc, hc⟩
  · refine (assignAll_answers w.header).bind fun _ _ _ => answers_run fun _ _ => ?_
    exact ⟨Bool.or_true _, rfl⟩

theorem writeHeader_answers {w : Recorder} (hw : Tells written w) (status : Int) :
    (w.writeHeader status).Obeys (answering router) (fun written' w' => Tells written' w' ∧
      (w.commit = true → w'.commit = true) ∧ (w.wroteHeader = false →
        isRetryable (classifyError none status) = false → w'.commit = true)) written := by
  rw [writeHeader]
  split
  · rename_i hh
    exact ⟨hw, id, fun h => by simp [hh] at h⟩
  · split
    · rename_i hr
      exact ⟨hw, id, fun _ h => by simp [hr] at h⟩
    · have hw' : Tells written { w with statusCode := status, wroteHeader := true } := hw
      refine (commitNow_answers hw').mono ?_
      rintro g w' ⟨hg, hc⟩
      exact ⟨fun _ => hg, fun _ => hc, fun _ _ => hc⟩

theorem write_answers {w : Recorder} (hw : Tells written w) (bytes : Bytes) :
    (w.write bytes).Obeys (answering router) (fun written' out => Tells written' out.2 ∧
      (w.commit = true → out.2.commit = true)) written := by
  have hrest {g : Bool} {w' : Recorder} (hw' : Tells g w') (hc : w.commit = true →
    w'.commit = true) :
      (if w'.commit then do
          let err ← (Op.write w'.src bytes).run
          pure (err, w')
        else pure (none, { w' with body := w'.body ++ bytes }) :
          Prog (Option GoError × Recorder)).Obeys
        (answering router) (fun written' out => Tells written' out.2 ∧
          (w.commit = true → out.2.commit = true)) g := by
    split
    · apply answers_run
      intro _ _
      rw [Op.isHeader, Bool.or_false]
      exact ⟨hw', hc⟩
    · exact ⟨hw', hc⟩
  rw [write]
  split
  · exact hrest hw id
  · exact (writeHeader_answers hw 200).bind fun g w' h => hrest h.1 h.2.1

theorem flush_answers (w : Recorder) :
    w.flush.Obeys (answering router) (fun written' _ => written' = written) written := by
  rw [flush]
  split
  · exact answers_run fun _ _ => Bool.or_false _
  · exact rfl

end Recorder

theorem relay_answers (dec : Decoder) (scanErr : Option GoError) (lines : List Bytes)
    {w : Recorder} (hw : Tells written w) (acc : StreamResult × Bool) :
    (relay dec scanErr lines w acc).Obeys (answering router) (fun written' out =>
      Tells written' out.2.2 ∧ (w.commit = true → out.2.2.commit = true)) written := by
  induction lines generalizing w acc written with
  | nil =>
    obtain ⟨result, usageFound⟩ := acc
    cases scanErr <;> exact ⟨hw, id⟩
  | cons line lines ih =>
    apply answers_run
    intro ended _
    rw [Op.isHeader, Bool.or_false]
    cases ended with
    | some how => exact ⟨hw, id⟩
    | none =>
      refine (Recorder.write_answers hw _).bind fun g out hout => ?_
      rcases out with ⟨_ | e, w'⟩
      · refine (Recorder.flush_answers w').bind fun g' _ hg' => ?_
        subst hg'
        refine (ih hout.1 _).mono fun g'' out' h => ⟨h.1, fun hc => h.2 (hout.2 hc)⟩
      · exact hout

/-- After an attempt: a recorder that has committed has written a status, and a successful attempt
has committed. -/
theorem forward_answers (dec : Decoder) (node : ModelNode) {w : Recorder}
    (hopen : w.commit = false) (hfresh : w.wroteHeader = false) :
    (forward dec node w).Obeys (answering router) (fun written' out =>
      Tells written' out.2.2 ∧ (out.2.1 = none →
        isRetryable (classifyError none (statusOf out.1 out.2.2)) = false →
          out.2.2.commit = true)) written := by
  have htells {g : Bool} {w' : Recorder} (h : w'.commit = w.commit) : Tells g w' :=
    fun hc => by simp [h, hopen] at hc
  apply answers_run
  intro prepared _
  rw [Op.isHeader, Bool.or_false]
  rcases prepared with e | request
  · exact ⟨htells rfl, by simp⟩
  apply answers_run
  intro reply _
  rw [Op.isHeader, Bool.or_false]
  rcases reply with e | resp
  · exact ⟨htells rfl, by simp⟩
  dsimp only
  split
  · have hw₀ : Tells written { w with header := streamHeader w.header resp } := htells rfl
    refine (Recorder.writeHeader_answers hw₀ resp.statusCode).bind fun g w' hw' => ?_
    refine (relay_answers dec _ _ hw'.1 _).bind fun g' out hout => ?_
    exact ⟨hout.1, fun _ hstatus => hout.2 (hw'.2.2 hfresh hstatus)⟩
  · rw [answerBody]
    split
    · exact ⟨htells rfl, by simp⟩
    · have hw₀ : Tells written { w with header := w.header.addAll resp.header } := htells rfl
      refine (Recorder.writeHeader_answers hw₀ resp.statusCode).bind fun g w' hw' => ?_
      refine (Recorder.write_answers hw'.1 _).bind fun g' out hout => ?_
      exact ⟨hout.1, fun _ hstatus => hout.2 (hw'.2.2 hfresh hstatus)⟩

theorem flushFailure_answers {w : Recorder} (hw : Tells written w) (statusCode : Int)
    (errorType : ErrorType) :
    (flushFailure w statusCode errorType).Obeys (answering router)
      (fun written' _ => written' = true) written := by
  rw [flushFailure]
  split
  · rename_i hc
    exact hw hc
  · split
    · refine (Recorder.commitNow_answers hw).bind fun g w' h => answers_run fun _ _ => ?_
      rw [Op.isHeader, Bool.or_false]
      exact h.1
    · exact answers_run fun _ _ => answers_run fun _ _ => answers_run fun _ _ =>
        obeys_done (by simp [Op.isHeader])

theorem pick_answers (nodes : List ModelNode) :
    (pick nodes).Obeys (answering router)
      (fun written' out => written' = written ∧ (out = none ↔ nodes = [])) written := by
  match nodes with
  | [] => exact ⟨rfl, by simp⟩
  | [_] => exact ⟨rfl, by simp⟩
  | _ :: _ :: _ => exact answers_run fun _ _ => ⟨Bool.or_false _, by simp⟩

theorem willRetry_answers (left : Nat) (candidates : List ModelNode) (excluded : List String) :
    (willRetry left candidates excluded).Obeys (answering router) (fun written' retry =>
      written' = written ∧ (retry = true → 0 < left ∧ available candidates excluded ≠ []))
      written := by
  rw [willRetry]
  split
  · rename_i hleft
    refine (pick_answers (available candidates excluded)).bind fun g other h => ?_
    refine ⟨h.1, fun hsome => ⟨hleft, fun hnone => ?_⟩⟩
    simp [h.2.mpr hnone] at hsome
  · exact ⟨rfl, fun h => by cases h⟩

/-- One iteration of the loop answers the client, if the ones that can follow it do. -/
theorem attempt_answers (dec : Decoder) (cfg : WorkerConfig) (candidates : List ModelNode)
    (left attempt : Nat) (excluded : List String) (attempts : List AttemptLog)
    (havailable : available candidates excluded ≠ [])
    (hrest : ∀ written excluded attempts, 0 < left → available candidates excluded ≠ [] →
      (attemptLoop dec cfg candidates left (attempt + 1) excluded attempts).Obeys (answering router)
        (fun written' _ => written' = true) written) :
    (attemptLoop dec cfg candidates (left + 1) attempt excluded attempts).Obeys (answering router)
      (fun written' _ => written' = true) written := by
  apply answers_run
  rintro _ rfl
  refine (pick_answers _).bind fun g out hout => ?_
  cases out with
  | none => exact absurd (hout.2.mp rfl) havailable
  | some node =>
    apply answers_run
    intro _ _
    refine (forward_answers dec node rfl rfl).bind fun g' out hout => ?_
    obtain ⟨res, err, w⟩ := out
    dsimp only
    split
    · rename_i hsuccess
      obtain ⟨rfl, hstatus⟩ := hsuccess
      exact hout.1 (hout.2 rfl hstatus)
    · refine (willRetry_answers _ _ _).bind fun g'' retry hretry => ?_
      obtain ⟨rfl, hgo⟩ := hretry
      cases retry with
      | true =>
        obtain ⟨hleft, hmore⟩ := hgo rfl
        simp only [↓reduceIte]
        split
        · exact answers_run fun _ _ => hrest _ _ _ hleft hmore
        · exact hrest _ _ _ hleft hmore
      | false => exact (flushFailure_answers hout.1 _ _).bind fun _ _ h => h

/-- The loop answers the client when it has an attempt left and a node for it. -/
theorem attemptLoop_answers (dec : Decoder) (cfg : WorkerConfig) (candidates : List ModelNode)
    {left : Nat} (hleft : 0 < left) (attempt : Nat) (excluded : List String)
    (attempts : List AttemptLog) (havailable : available candidates excluded ≠ []) :
    (attemptLoop dec cfg candidates left attempt excluded attempts).Obeys (answering router)
      (fun written' _ => written' = true) written := by
  induction left generalizing attempt excluded attempts written with
  | zero => cases hleft
  | succ left ih =>
    apply attempt_answers dec cfg candidates left attempt excluded attempts havailable
    intro written excluded' attempts' hleft' hmore
    exact ih hleft' (attempt + 1) excluded' attempts' hmore

/-- A worker whose request stays live gives the client a status before it returns. -/
theorem forwardWithRetry_answers (dec : Decoder) (cfg : WorkerConfig) (req : PendingRequest)
    (hcandidates : router.resolve req.modelAlias req.endpointType ≠ [])
    (hattempts : 1 ≤ cfg.maxRetryAttempts) :
    (forwardWithRetry dec cfg req).Obeys (answering router) (fun written' _ => written' = true)
      written := by
  apply answers_run
  rintro _ rfl
  rw [tryCandidates, if_neg hcandidates]
  apply attemptLoop_answers
  · omega
  · have hall : available (router.resolve req.modelAlias req.endpointType) [] =
        router.resolve req.modelAlias req.endpointType := by
      apply List.filter_eq_self.mpr
      intro n hn
      simp [Router.enabled_of_mem_resolve hn]
    rwa [hall]

/-- A call without a candidate, or without an attempt to make, returns an error at once. -/
theorem tryCandidates_done (dec : Decoder) (cfg : WorkerConfig) {candidates : List ModelNode}
    (h : candidates = [] ∨ cfg.maxRetryAttempts < 1) :
    ∃ r, tryCandidates dec cfg candidates = .done r ∧ r.error ≠ "" := by
  rw [tryCandidates]
  split
  · exact ⟨_, rfl, by simp⟩
  · rename_i hne
    have hzero : cfg.maxRetryAttempts.toNat = 0 := by
      have := h.resolve_left hne
      omega
    rw [hzero]
    exact ⟨_, rfl, by simp⟩

end

end Worker

end LlmProxy
