import LlmProxy.Api.Exchange
import LlmProxy.Worker.Cancellation

/-! Which party writes to the client.  The handler leaves its select as soon as the context is done,
and the worker may then be anywhere in `forwardWithRetry`. -/

namespace LlmProxy.Api

open ProofKit Worker Queue Proxy

namespace ServerPhase

/-- No attempt is under way. -/
def betweenAttempts : ServerPhase → Bool
  | running (.call op _) => op.betweenAttempts
  | absent | queued | running (.done _) | delivering _ | finished => true

def isFinished : ServerPhase → Bool
  | finished => true
  | absent | queued | running _ | delivering _ => false

end ServerPhase

namespace Exchange

/-- The worker has sent nothing to the client. -/
def Untouched (s : Exchange) : Prop := ∀ e ∈ s.log, e.byWorker = false

/-- The context ends between attempts only, and the deadline passes, while the handler waits, only
as long as the worker has sent nothing. -/
def EndsSafely (s : Exchange) : Action → Prop
  | .endContext how => s.server.betweenAttempts = true ∧
      (how = .deadline → s.handler = .waiting → s.Untouched)
  | _ => True

instance (s : Exchange) : Decidable s.Untouched :=
  inferInstanceAs (Decidable (∀ e ∈ s.log, e.byWorker = false))

instance (s : Exchange) : (act : Action) → Decidable (s.EndsSafely act)
  | .endContext how => inferInstanceAs (Decidable (s.server.betweenAttempts = true ∧
      (how = .deadline → s.handler = .waiting → s.Untouched)))
  | .enqueue _ | .begin | .discard | .work _ | .send | .giveUp | .receive | .noticeDone
  | .writeError | .leave => instDecidableTrue

/-- The worker sends nothing after the handler's return, and only one of the two sends anything. -/
structure OneWriter (log : List Entry) : Prop where
  none_late : log.Pairwise fun e e' => e = .returned → e'.byWorker = false
  one_party : (∃ e ∈ log, e.byHandler = true) → ∀ e ∈ log, e.byWorker = false

/-- The handler has left its select. -/
def away : HandlerPhase → Bool
  | .failing _ | .failingBody _ | .leaving | .returned => true
  | .enqueueing | .waiting => false

/-- The handler sends an error, or has sent it. -/
def Fails (s : Exchange) : Prop :=
  (∃ status, s.handler = .failing status ∨ s.handler = .failingBody status) ∨
    ∃ e ∈ s.log, e.byHandler = true

/-- The worker will send nothing, or there is none. -/
def Over (s : Exchange) : Prop := s.ctx ≠ none ∨ s.server = .absent ∨ s.server = .finished

structure Inv (s : Exchange) : Prop where
  silent : ∀ rest, s.server = .running rest →
    rest.Obeys silence (fun _ _ => True) s.ctx.isSome
  chan_finished : s.chan.isSome = true → s.server = .finished
  away_over : away s.handler = true → s.Over
  returned_last : .returned ∈ s.log → s.handler = .returned
  fails_away : (∃ e ∈ s.log, e.byHandler = true) → away s.handler = true
  fails_untouched : s.Fails → s.Untouched
  deadline_untouched : s.ctx = some .deadline → s.handler = .waiting → s.Untouched
  enqueueing_absent : s.handler = .enqueueing → s.server = .absent
  absent_untouched : s.server = .absent → s.Untouched
  none_late : s.log.Pairwise fun e e' => e = .returned → e'.byWorker = false

theorem start_inv : Inv start where
  silent rest h := by cases h
  chan_finished h := by cases h
  away_over h := by cases h
  returned_last h := by cases h
  fails_away := by rintro ⟨e, he, -⟩; cases he
  fails_untouched _ e he := by cases he
  deadline_untouched h := by cases h
  enqueueing_absent _ := rfl
  absent_untouched _ e he := by cases he
  none_late := .nil

theorem Inv.oneWriter {s : Exchange} (h : Inv s) : OneWriter s.log :=
  ⟨h.none_late, fun hfails => h.fails_untouched (.inr hfails)⟩

/-- An end of the context between attempts leaves a program that sends nothing more. -/
theorem silent_after_end {server : ServerPhase} (hsafe : server.betweenAttempts = true)
    {rest : Prog ExecutionResult} (hserver : server = .running rest)
    (h : rest.Obeys silence (fun _ _ => True) false) :
    rest.Obeys silence (fun _ _ => True) true := by
  subst hserver
  cases rest with
  | done r => trivial
  | call op next =>
    apply h.interfere
    rintro ended (rfl | ⟨-, rfl⟩) <;> exact .inr ⟨hsafe, rfl⟩

variable {dec : Decoder} {cfg : WorkerConfig} {router : Router} {req : PendingRequest}
  {s s' : Exchange}

theorem endContext_inv {how : ContextEnd} (hi : Inv s) (hok : s.EndsSafely (.endContext how))
    (hctx : s.ctx = none) : Inv { s with ctx := some how } := by
  refine { hi with silent := ?_, away_over := ?_, deadline_untouched := ?_ }
  · intro rest hrest
    have hrun := hi.silent rest hrest
    rw [hctx] at hrun
    exact silent_after_end hok.1 hrest hrun
  · exact fun _ => .inl (by simp)
  · intro hdead hwait
    obtain rfl := Option.some.inj hdead
    exact hok.2 rfl hwait

/-- Before the request is in the queue, neither party has done anything. -/
theorem Inv.enqueueing (hi : Inv s) (hphase : s.handler = .enqueueing) :
    s.server = .absent ∧ s.Untouched ∧ .returned ∉ s.log := by
  have habsent := hi.enqueueing_absent hphase
  refine ⟨habsent, hi.absent_untouched habsent, fun hr => ?_⟩
  have := hi.returned_last hr
  simp [hphase] at this

theorem accepted_inv (hi : Inv s) (hphase : s.handler = .enqueueing) :
    Inv { s with handler := .waiting, server := .queued } := by
  obtain ⟨habsent, huntouched, hlog⟩ := hi.enqueueing hphase
  exact {
    silent := fun rest hrest => by cases hrest
    chan_finished := fun hc => by cases habsent.symm.trans (hi.chan_finished hc)
    away_over := fun ha => by cases ha
    returned_last := fun hr => (hlog hr).elim
    fails_away := fun hf => by
      have := hi.fails_away hf
      simp [hphase, away] at this
    fails_untouched := fun _ => huntouched
    deadline_untouched := fun _ _ => huntouched
    enqueueing_absent := fun he => by cases he
    absent_untouched := fun ha => by cases ha
    none_late := hi.none_late }

theorem refused_inv (hi : Inv s) (hphase : s.handler = .enqueueing) (status : Int) :
    Inv { s with handler := .failing status } := by
  obtain ⟨habsent, huntouched, hlog⟩ := hi.enqueueing hphase
  exact { hi with
    away_over := fun _ => .inr (.inl habsent)
    returned_last := fun hr => (hlog hr).elim
    fails_away := fun _ => rfl
    fails_untouched := fun _ => huntouched
    deadline_untouched := fun _ hw => by cases hw
    enqueueing_absent := fun he => by cases he }

/-- A change of the server phase that leaves the log alone. -/
theorem server_inv {server : ServerPhase} (hi : Inv s) (hpresent : s.server ≠ .absent)
    (hstay : s.server ≠ .finished) (habsent : server ≠ .absent)
    (hrun : ∀ rest, server = .running rest →
      rest.Obeys silence (fun _ _ => True) s.ctx.isSome) : Inv { s with server } where
  silent := hrun
  chan_finished hc := absurd (hi.chan_finished hc) hstay
  away_over ha := by
    rcases hi.away_over ha with hctx | h | h
    · exact .inl hctx
    · exact absurd h hpresent
    · exact absurd h hstay
  returned_last := hi.returned_last
  fails_away := hi.fails_away
  fails_untouched := hi.fails_untouched
  deadline_untouched := hi.deadline_untouched
  enqueueing_absent he := absurd (hi.enqueueing_absent he) hpresent
  absent_untouched ha := absurd ha habsent
  none_late := hi.none_late

theorem header_inv (hi : Inv s) (header : Header) : Inv { s with header } := { hi with }

/-- The worker sends something while the context is not done: the handler is at its select. -/
theorem workerCall_inv (hi : Inv s) (hctx : s.ctx = none) {rest : Prog ExecutionResult}
    (hserver : s.server = .running rest) (call : ClientCall) :
    Inv { s with log := s.log ++ [.worker call] } := by
  have hstays : away s.handler = false := by
    by_contra haway
    rcases hi.away_over (by simpa using haway) with h | h | h
    · exact h hctx
    · simp [hserver] at h
    · simp [hserver] at h
  have hnone (e : Entry) (he : e ∈ s.log ++ [.worker call]) (hb : e.byHandler = true) : False := by
    rcases List.mem_append.mp he with he | he
    · have := hi.fails_away ⟨e, he, hb⟩
      simp [hstays] at this
    · obtain rfl := List.mem_singleton.mp he
      cases hb
  refine { hi with
    returned_last := ?_, fails_away := ?_, fails_untouched := ?_, deadline_untouched := ?_
    absent_untouched := ?_, none_late := ?_ }
  · intro hr
    rcases List.mem_append.mp hr with hr | hr
    · exact hi.returned_last hr
    · simp at hr
  · rintro ⟨e, he, hb⟩
    exact (hnone e he hb).elim
  · rintro (⟨status, h | h⟩ | ⟨e, he, hb⟩)
    · simp only at h
      simp [h, away] at hstays
    · simp only at h
      simp [h, away] at hstays
    · exact (hnone e he hb).elim
  · intro hdead
    simp only [hctx] at hdead
    cases hdead
  · intro ha
    simp only [hserver] at ha
    cases ha
  · apply List.pairwise_append.mpr
    refine ⟨hi.none_late, List.pairwise_singleton _ _, ?_⟩
    rintro e he _ _ rfl
    simp [hi.returned_last he, away] at hstays

/-- What an operation of the worker does: it sends something, or at most touches the header map. -/
theorem perform_cases (s : Exchange) (op : Op) :
    (op.onClient = true ∧ ∃ call, s.perform op = { s with log := s.log ++ [.worker call] }) ∨
      ∃ header, s.perform op = { s with header } := by
  cases op with
  | writeHeader src status => exact .inl ⟨rfl, _, rfl⟩
  | write src bytes => exact .inl ⟨rfl, _, rfl⟩
  | assignHeader key vals => exact .inr ⟨_, rfl⟩
  | _ => exact .inr ⟨s.header, rfl⟩

theorem answer_context (s : Exchange) (oracle : (op : Op) → op.Ans) (op : Op) :
    op.AnswersContext s.ctx.isSome (s.answer router oracle op) := by
  cases op with
  | contextErr => rfl
  | _ => trivial

theorem workCall_inv {oracle : (op : Op) → op.Ans} {op : Op} {rest : op.Ans → Prog ExecutionResult}
    (hi : Inv s) (hserver : s.server = .running (.call op rest)) :
    Inv { s.perform op with server := .running (rest (s.answer router oracle op)) } := by
  have hsilent := hi.silent _ hserver
  have hrest : (rest (s.answer router oracle op)).Obeys silence (fun _ _ => True)
      s.ctx.isSome := hsilent.answer (.inl rfl) (answer_context s oracle op)
  rcases perform_cases s op with ⟨hclient, call, hp⟩ | ⟨header, hp⟩
  · have hctx : s.ctx = none := by
      by_contra hended
      have := (hsilent _ (.inl rfl)).1 (Option.isSome_iff_ne_none.mpr hended)
      simp [hclient] at this
    rw [hp]
    exact server_inv (workerCall_inv hi hctx hserver call) (by simp [hserver])
      (by simp [hserver]) (by simp) fun r hr => by cases hr; exact hrest
  · rw [hp]
    exact server_inv (header_inv hi header) (by simp [hserver]) (by simp [hserver]) (by simp)
      fun r hr => by cases hr; exact hrest

/-- The handler moves on, and the log stays as it is. -/
theorem handler_inv (hi : Inv s) {phase : HandlerPhase} {chan : Option ExecutionResult}
    (hchan : chan.isSome = true → s.server = .finished) (hleft : s.handler = .waiting)
    (haway : away phase = true) (hover : s.Over)
    (hfails : (∃ status, phase = .failing status ∨ phase = .failingBody status) → s.Untouched) :
    Inv { s with handler := phase, chan } where
  silent := hi.silent
  chan_finished := hchan
  away_over _ := hover
  returned_last hr := by
    have := hi.returned_last hr
    simp [hleft] at this
  fails_away _ := haway
  fails_untouched := by
    rintro (hf | hf)
    · exact hfails hf
    · exact hi.fails_untouched (.inr hf)
  deadline_untouched _ hw := by
    simp only at hw
    simp [hw, away] at haway
  enqueueing_absent he := by
    simp only at he
    simp [he, away] at haway
  absent_untouched := hi.absent_untouched
  none_late := hi.none_late

/-- A step of `writeError`, which the handler takes after it has left the select. -/
theorem handlerCall_inv (hi : Inv s) {phase : HandlerPhase} (haway : away s.handler = true)
    (haway' : away phase = true) (hnot : s.handler ≠ .returned) (huntouched : s.Untouched)
    (call : ClientCall) (header : Header) :
    Inv { s with handler := phase, header, log := s.log ++ [.handler call] } := by
  have huntouched' : ∀ e ∈ s.log ++ [.handler call], e.byWorker = false := by
    intro e he
    rcases List.mem_append.mp he with he | he
    · exact huntouched e he
    · obtain rfl := List.mem_singleton.mp he
      rfl
  exact {
    silent := hi.silent
    chan_finished := hi.chan_finished
    away_over := fun _ => hi.away_over haway
    returned_last := fun hr => by
      rcases List.mem_append.mp hr with hr | hr
      · exact absurd (hi.returned_last hr) hnot
      · simp at hr
    fails_away := fun _ => haway'
    fails_untouched := fun _ => huntouched'
    deadline_untouched := fun _ _ => huntouched'
    enqueueing_absent := fun he => by
      simp only at he
      simp [he, away] at haway'
    absent_untouched := fun _ => huntouched'
    none_late := by
      apply List.pairwise_append.mpr
      refine ⟨hi.none_late, List.pairwise_singleton _ _, ?_⟩
      intro e _ e' he' _
      obtain rfl := List.mem_singleton.mp he'
      rfl }

theorem leave_inv (hi : Inv s) (hphase : s.handler = .leaving) :
    Inv { s with
      handler := .returned
      ctx := some (s.ctx.getD .canceled)
      log := s.log ++ [.returned] } := by
  have hover := hi.away_over (by simp [hphase, away])
  have huntouched : s.Untouched → ∀ e ∈ s.log ++ [.returned], e.byWorker = false := by
    intro hu e he
    rcases List.mem_append.mp he with he | he
    · exact hu e he
    · obtain rfl := List.mem_singleton.mp he
      rfl
  exact {
    silent := fun rest hrest => by
      have hctx : s.ctx ≠ none := by
        rcases hover with h | h | h
        · exact h
        · cases h.symm.trans hrest
        · cases h.symm.trans hrest
      have := hi.silent rest hrest
      rwa [Option.isSome_iff_ne_none.mpr hctx] at this
    chan_finished := hi.chan_finished
    away_over := fun _ => .inl (by simp)
    returned_last := fun _ => rfl
    fails_away := fun _ => rfl
    fails_untouched := by
      rintro (⟨status, h | h⟩ | ⟨e, he, hb⟩)
      · cases h
      · cases h
      · rcases List.mem_append.mp he with he | he
        · exact huntouched (hi.fails_untouched (.inr ⟨e, he, hb⟩))
        · obtain rfl := List.mem_singleton.mp he
          cases hb
    deadline_untouched := fun _ hw => by cases hw
    enqueueing_absent := fun he => by cases he
    absent_untouched := fun ha => huntouched (hi.absent_untouched ha)
    none_late := by
      apply List.pairwise_append.mpr
      refine ⟨hi.none_late, List.pairwise_singleton _ _, ?_⟩
      intro e _ e' he' _
      obtain rfl := List.mem_singleton.mp he'
      rfl }

theorem next_inv {act : Action} (hi : Inv s) (hok : s.EndsSafely act)
    (h : next dec cfg router req s act = some s') : Inv s' := by
  cases next_step h with
  | endContext how hctx => exact endContext_inv hi hok hctx
  | accepted hphase => exact accepted_inv hi hphase
  | refused hphase => exact refused_inv hi hphase 503
  | begin hserver =>
    refine server_inv hi (by simp [hserver]) (by simp [hserver]) (by simp) ?_
    rintro _ ⟨⟩
    exact forwardWithRetry_silent dec cfg req _
  | discard hserver =>
    exact server_inv hi (by simp [hserver]) (by simp [hserver]) (by simp) (by simp)
  | workDone hserver =>
    exact server_inv hi (by simp [hserver]) (by simp [hserver]) (by simp) (by simp)
  | workCall hserver => exact workCall_inv hi hserver
  | send hserver hchan =>
    have hfinished : Inv { s with server := .finished } :=
      server_inv hi (by simp [hserver]) (by simp [hserver]) (by simp) (by simp)
    exact { hfinished with chan_finished := fun _ => rfl }
  | giveUp hserver hctx =>
    exact server_inv hi (by simp [hserver]) (by simp [hserver]) (by simp) (by simp)
  | receive hphase hchan =>
    exact handler_inv hi (by simp) hphase rfl (.inr (.inr (hi.chan_finished hchan))) (by simp)
  | noticeDeadline hphase hctx =>
    exact handler_inv hi hi.chan_finished hphase rfl (.inl (by simp [hctx]))
      fun _ => hi.deadline_untouched hctx hphase
  | noticeCanceled hphase hctx =>
    exact handler_inv hi hi.chan_finished hphase rfl (.inl (by simp [hctx])) (by simp)
  | @errorHeader status hphase =>
    exact handlerCall_inv hi (by simp [hphase, away]) rfl (by simp [hphase])
      (hi.fails_untouched (.inl ⟨status, .inl hphase⟩)) _ _
  | @errorBody status hphase =>
    exact handlerCall_inv hi (by simp [hphase, away]) rfl (by simp [hphase])
      (hi.fails_untouched (.inl ⟨status, .inr hphase⟩)) _ _
  | leave hphase => exact leave_inv hi hphase

/-- In every run in which the context ends between attempts only, and by its deadline only while the
worker has sent nothing or the handler no longer waits, one party at most writes to the client, and
the worker writes nothing after the handler's return. -/
theorem one_writer (dec : Decoder) (cfg : WorkerConfig) (router : Router) (req : PendingRequest)
    {s : Exchange} (h : (system dec cfg router req).Reachable EndsSafely s) : OneWriter s.log := by
  apply Inv.oneWriter
  apply h.invariant Inv
  · rintro _ rfl
    exact start_inv
  · intro s act s' _ hi hok hs
    exact next_inv hi hok hs

/-- The deadline passes in the queue: the handler answers with 504, and the worker that takes the
request afterwards ends without a word to the client. -/
theorem one_writer_queue_timeout :
    ∃ s, (system noDecoder ⟨1, 0⟩ ⟨fun _ => [{ id := "a" }]⟩ { addr := 1 }).Reachable EndsSafely s ∧
      (∃ e ∈ s.log, e.byHandler = true) ∧ s.server.isFinished = true ∧ OneWriter s.log := by
  let router : Router := ⟨fun _ => [{ id := "a" }]⟩
  have hinit : (system noDecoder ⟨1, 0⟩ router { addr := 1 }).Reachable EndsSafely start :=
    .init rfl
  have hsafe : System.Admits (next noDecoder ⟨1, 0⟩ router { addr := 1 }) EndsSafely start
      [.enqueue true, .endContext .deadline, .noticeDone, .writeError, .writeError, .leave, .begin,
        .work plainUpstream, .work plainUpstream, .work plainUpstream, .giveUp] := by decide
  obtain ⟨s, hs, hlog, hserver⟩ := System.Reachable.exists_of_exec
    (fun s : Exchange => (∃ e ∈ s.log, e.byHandler = true) ∧ s.server.isFinished = true)
    hinit hsafe (by decide)
  exact ⟨s, hs, hlog, hserver, one_writer _ _ _ _ hs⟩

/-- The deadline passes when the worker has passed on the status 200: the handler writes its 504
over it and returns, and the worker then writes the body. -/
theorem two_writers_after_deadline :
    ∃ s, (system noDecoder ⟨1, 0⟩ ⟨fun _ => [{ id := "a" }]⟩ { addr := 1 }).Reachable
        System.always s ∧
      (∃ e ∈ s.log, e.byHandler = true) ∧ (∃ e ∈ s.log, e.byWorker = true) ∧
      ¬s.log.Pairwise fun e e' => e = .returned → e'.byWorker = false := by
  let router : Router := ⟨fun _ => [{ id := "a" }]⟩
  have hinit : (system noDecoder ⟨1, 0⟩ router { addr := 1 }).Reachable System.always start :=
    .init rfl
  exact System.Reachable.exists_of_exec
    (fun s : Exchange => (∃ e ∈ s.log, e.byHandler = true) ∧ (∃ e ∈ s.log, e.byWorker = true) ∧
      ¬s.log.Pairwise fun e e' => e = .returned → e'.byWorker = false) hinit
    (System.admits_always _ [.enqueue true, .begin, .work plainUpstream, .work plainUpstream,
      .work plainUpstream, .work plainUpstream, .work plainUpstream, .work plainUpstream,
      .endContext .deadline, .noticeDone, .writeError, .writeError, .leave, .work plainUpstream])
    (by decide)

end Exchange

end LlmProxy.Api
