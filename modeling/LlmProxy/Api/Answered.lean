import LlmProxy.Api.Exchange
import LlmProxy.Worker.Answering

/-! Whether a finished request has been answered.  The handler writes nothing when it gets a result:
it relies on the worker to have sent a status, also with an error. -/

namespace LlmProxy.Api

open ProofKit Worker Queue Proxy

namespace Exchange

/-- The worker has sent a status. -/
def written (s : Exchange) : Bool := s.log.any fun e => e.byWorker && e.isHeader

/-- Every result that was sent while the request was live came after a status. -/
def Answered (s : Exchange) : Prop :=
  s.deliveredLive = true → s.handler = .returned → ∃ e ∈ s.log, e.isHeader = true

/-- A worker whose request is live has sent a status, or will before it returns. -/
structure WillAnswer (router : Router) (s : Exchange) : Prop where
  running : ∀ rest, s.server = .running rest → s.ctx = none →
    rest.Obeys (answering router) (fun written' _ => written' = true) s.written
  delivering : ∀ result, s.server = .delivering result → s.ctx = none → s.written = true
  delivered : s.deliveredLive = true → s.written = true

theorem start_willAnswer (router : Router) : WillAnswer router start where
  running rest h := by cases h
  delivering result h := by cases h
  delivered h := by cases h

variable {dec : Decoder} {cfg : WorkerConfig} {router : Router} {req : PendingRequest}
  {s s' : Exchange}

theorem written_perform (s : Exchange) (op : Op) :
    (s.perform op).written = (s.written || op.isHeader) := by
  cases op <;> simp [perform, written, Op.isHeader, Entry.byWorker, Entry.isHeader,
    ClientCall.isHeader]

/-- What the handler adds to the log is not the worker's. -/
theorem written_append (s : Exchange) {e : Entry} (he : e.byWorker = false) :
    (s.log ++ [e]).any (fun e => e.byWorker && e.isHeader) = s.written := by
  simp [written, he]

theorem answer_live (s : Exchange) (hctx : s.ctx = none) (oracle : (op : Op) → op.Ans) (op : Op) :
    op.AnswersLive router (s.answer router oracle op) := by
  cases op with
  | resolve alias_ et => rfl
  | contextErr => exact hctx
  | _ => trivial

/-- A step of the handler that leaves the worker and the context alone. -/
theorem WillAnswer.congr (hi : WillAnswer router s) (hserver : s'.server = s.server)
    (hctx : s'.ctx = s.ctx) (hlive : s'.deliveredLive = s.deliveredLive)
    (hwritten : s'.written = s.written) : WillAnswer router s' := by
  constructor
  · rw [hserver, hctx, hwritten]
    exact hi.running
  · rw [hserver, hctx, hwritten]
    exact hi.delivering
  · rw [hlive, hwritten]
    exact hi.delivered

/-- A worker that neither runs nor delivers owes nothing. -/
theorem WillAnswer.idle (hi : WillAnswer router s) {handler : HandlerPhase} {server : ServerPhase}
    (hrun : ∀ rest, server ≠ .running rest) (hdeliver : ∀ result, server ≠ .delivering result) :
    WillAnswer router { s with handler, server } where
  running rest hr := absurd hr (hrun rest)
  delivering result hr := absurd hr (hdeliver result)
  delivered := hi.delivered

theorem next_willAnswer {act : Action}
    (hcandidates : router.resolve req.modelAlias req.endpointType ≠ [])
    (hattempts : 1 ≤ cfg.maxRetryAttempts) (hi : WillAnswer router s)
    (h : next dec cfg router req s act = some s') : WillAnswer router s' := by
  cases next_step h with
  | endContext how hctx =>
    exact ⟨fun _ _ hctx => (by cases hctx), fun _ _ hctx => (by cases hctx), hi.delivered⟩
  | accepted hphase => exact hi.idle nofun nofun
  | refused hphase => exact hi.congr rfl rfl rfl rfl
  | begin hserver =>
    refine ⟨?_, fun _ hr => (by cases hr), hi.delivered⟩
    rintro _ ⟨⟩ _
    exact forwardWithRetry_answers dec cfg req hcandidates hattempts
  | discard hserver => exact hi.idle nofun nofun
  | workDone hserver =>
    exact ⟨fun _ hr => (by cases hr), fun _ _ hctx => hi.running _ hserver hctx, hi.delivered⟩
  | @workCall oracle op rest hserver =>
    have hkeep : (s.perform op).ctx = s.ctx ∧ (s.perform op).deliveredLive = s.deliveredLive := by
      cases op <;> exact ⟨rfl, rfl⟩
    refine ⟨?_, fun _ hr => (by cases hr), fun hlive => ?_⟩
    · rintro _ ⟨⟩ hctx
      have hlive := hkeep.1.symm.trans hctx
      show (rest _).Obeys (answering router) _ (s.perform op).written
      rw [written_perform]
      exact (hi.running _ hserver hlive).answer rfl (answer_live s hlive oracle op)
    · show (s.perform op).written = true
      rw [written_perform, hi.delivered (hkeep.2.symm.trans hlive), Bool.true_or]
  | @send result hserver hchan =>
    refine ⟨fun _ hr => (by cases hr), fun _ hr => (by cases hr), fun hlive => ?_⟩
    exact hi.delivering result hserver (by simpa using hlive)
  | giveUp hserver hctx => exact hi.idle nofun nofun
  | receive hphase hchan => exact hi.congr rfl rfl rfl rfl
  | noticeDeadline hphase hctx => exact hi.congr rfl rfl rfl rfl
  | noticeCanceled hphase hctx => exact hi.congr rfl rfl rfl rfl
  | errorHeader hphase => exact hi.congr rfl rfl rfl (written_append s rfl)
  | errorBody hphase => exact hi.congr rfl rfl rfl (written_append s rfl)
  | leave hphase =>
    refine ⟨fun _ _ hctx => (by cases hctx), fun _ _ hctx => (by cases hctx), fun hlive => ?_⟩
    exact (written_append s (e := .returned) rfl).trans (hi.delivered hlive)

theorem WillAnswer.answered (hi : WillAnswer router s) : s.Answered := by
  intro hlive _
  obtain ⟨e, he, hheader⟩ := List.any_eq_true.mp (hi.delivered hlive)
  exact ⟨e, he, ((Bool.and_eq_true _ _).mp hheader).2⟩

/-- A request without a candidate, or without an attempt to make, is finished without any answer. -/
theorem unanswered (dec : Decoder) (h : router.resolve req.modelAlias req.endpointType = [] ∨
      cfg.maxRetryAttempts < 1) :
    ∃ s, (system dec cfg router req).Reachable System.always s ∧ s.deliveredLive = true ∧
      s.handler = .returned ∧ s.log = [.returned] := by
  obtain ⟨r, hr, -⟩ := tryCandidates_done dec cfg h
  let at_ (handler : HandlerPhase) (server : ServerPhase) (chan : Option ExecutionResult)
      (live : Bool) : Exchange := ⟨none, handler, server, chan, [], [], live⟩
  let step := next dec cfg router req
  have h1 : step start (.enqueue true) = some (at_ .waiting .queued none false) := rfl
  have h2 : step (at_ .waiting .queued none false) .begin =
    some (at_ .waiting (.running (forwardWithRetry dec cfg req)) none false) := rfl
  have h3 : step (at_ .waiting (.running (forwardWithRetry dec cfg req)) none false)
      (.work plainUpstream) = some (at_ .waiting (.running (.done r)) none false) := by
    rw [← hr]
    rfl
  have h4 : step (at_ .waiting (.running (.done r)) none false) (.work plainUpstream) =
    some (at_ .waiting (.delivering r) none false) := rfl
  have h5 : step (at_ .waiting (.delivering r) none false) .send =
    some (at_ .waiting .finished (some r) true) := rfl
  have h6 : step (at_ .waiting .finished (some r) true) .receive =
    some (at_ .leaving .finished none true) := rfl
  have h7 : step (at_ .leaving .finished none true) .leave =
    some ⟨some .canceled, .returned, .finished, none, [], [.returned], true⟩ := rfl
  have h0 : (system dec cfg router req).Reachable System.always start := .init rfl
  exact ⟨_, ((((((h0.step trivial h1).step trivial h2).step trivial h3).step trivial h4).step
    trivial h5).step trivial h6).step trivial h7, rfl, rfl, rfl⟩

/-- Every result that is sent while the request is live comes with a status, exactly when the router
has a candidate for the request and the configuration allows an attempt. -/
theorem answered_iff (dec : Decoder) (cfg : WorkerConfig) (router : Router) (req : PendingRequest) :
    (∀ s, (system dec cfg router req).Reachable System.always s → s.Answered) ↔
      router.resolve req.modelAlias req.endpointType ≠ [] ∧ 1 ≤ cfg.maxRetryAttempts := by
  constructor
  · intro hall
    by_contra hno
    have hcase : router.resolve req.modelAlias req.endpointType = [] ∨
        cfg.maxRetryAttempts < 1 := by
      by_cases hc : router.resolve req.modelAlias req.endpointType = []
      · exact .inl hc
      · exact .inr (by by_contra h; exact hno ⟨hc, by omega⟩)
    obtain ⟨s, hs, hlive, hret, hlog⟩ := unanswered dec hcase
    obtain ⟨e, he, hheader⟩ := hall s hs hlive hret
    rw [hlog] at he
    obtain rfl := List.mem_singleton.mp he
    cases hheader
  · rintro ⟨hcandidates, hattempts⟩ s hs
    suffices hi : WillAnswer router s from hi.answered
    apply hs.invariant (WillAnswer router)
    · rintro _ rfl
      exact start_willAnswer router
    · intro s act s' _ hi _ hstep
      exact next_willAnswer hcandidates hattempts hi hstep

/-- A request for a model that no node serves: its result carries an error, and the handler returns
without a status for the client. -/
theorem unanswered_unknown_model :
    ∃ s, (system noDecoder ⟨3, 0⟩ ⟨fun _ => []⟩ { addr := 1 }).Reachable System.always s ∧
      s.deliveredLive = true ∧ s.handler = .returned ∧ ¬∃ e ∈ s.log, e.isHeader = true := by
  have hinit :
      (system noDecoder ⟨3, 0⟩ ⟨fun _ => []⟩ { addr := 1 }).Reachable System.always start :=
    .init rfl
  exact System.Reachable.exists_of_exec
    (fun s : Exchange => s.deliveredLive = true ∧ s.handler = .returned ∧
      ¬∃ e ∈ s.log, e.isHeader = true) hinit
    (System.admits_always _ [.enqueue true, .begin, .work plainUpstream, .work plainUpstream, .send,
      .receive, .leave]) (by decide)

end Exchange

end LlmProxy.Api
