import LlmProxy.Logging.FailedInserts
import LlmProxy.Service

/-! What the end of the process leaves behind.  When `httpServer.Shutdown` has returned without an
error, no handler is left, and everything after it in `main` finds the contexts of all requests done
and nobody who logs: every request that the queue accepted has been answered or its context had
ended, and the two log entries of every answered request were handed to a bulk insert, or dropped by
a full channel.  What the tables hold of them follows from the bulk inserts. -/

namespace LlmProxy

open ProofKit Queue Worker Logging Storage HandlerPhase

namespace Service

variable {max : Int} {count bufferSize : Nat} {s s' : Service} {a : Action}

/-! ### The parts -/

/-- A step of the service is at most one step of the pool. -/
theorem step_pool (h : Step bufferSize s a s') :
    s'.pool = s.pool ∨ ∃ act, s.pool.next act = some s'.pool := by
  cases h with
  | refused _ hpool | enqueued _ hpool | expire _ hpool | receive _ hpool | leave _ hpool
  | pool _ hpool | stop _ _ hpool => exact .inr ⟨_, hpool⟩
  | _ => exact .inl rfl

/-- The pool of the service behaves as the pool of its package. -/
theorem reachable_pool (h : (system max count bufferSize).Reachable System.always s) :
    (Pool.system max count).Reachable System.always s.pool := by
  induction h with
  | init hinit =>
    obtain rfl := hinit
    exact .init ⟨_, rfl⟩
  | step _ _ hstep ih =>
    rcases step_pool (next_step hstep) with hsame | ⟨act, hact⟩
    · rwa [hsame]
    · exact .step ih trivial hact

/-- `Stop` does not begin again. -/
theorem pool_returned {p p' : Pool} {act : Pool.Action} (h : p.next act = some p')
    (hstop : p.stop = .returned) : p'.stop = .returned := by
  cases Pool.next_step h with
  | closeStopCh hother | closeQueue hother | stopReturns hother => simp [hother] at hstop
  | _ => exact hstop

theorem step_returned (h : Step bufferSize s a s') (hstop : s.pool.stop = .returned) :
    s'.pool.stop = .returned := by
  rcases step_pool h with hsame | ⟨act, hact⟩
  · rwa [hsame]
  · exact pool_returned hact hstop

/-- The steps of the logger that are neither `Flush` nor `Close`. -/
def logs : AsyncLogger.Action Nat Nat → Bool
  | .asyncLog .. | .asyncLogDetail .. | .requestWorker _ | .detailWorker _ => true
  | .flush | .flushStep _ | .close | .closeReturn => false

theorem logger_frame {l l' : AsyncLogger Nat Nat} {act : AsyncLogger.Action Nat Nat}
    (h : l.next bufferSize act = some l') (hact : logs act = true) :
    l'.flushes = l.flushes ∧ l'.stopped = l.stopped ∧ l'.closed = l.closed := by
  cases act with
  | asyncLog | asyncLogDetail =>
    obtain rfl := Option.some.inj h
    exact ⟨rfl, rfl, rfl⟩
  | requestWorker | detailWorker =>
    obtain ⟨_, -, rfl⟩ := Option.map_eq_some_iff.mp h
    exact ⟨rfl, rfl, rfl⟩
  | flush | flushStep | close | closeReturn => cases hact

/-! ### Where `main` is, and where the others are -/

structure Phased (s : Service) : Prop where
  handlers : s.drained = true → s.handlers = []
  drained : s.drained = true → s.phase ≠ .serving ∧ s.phase ≠ .draining
  unflushed : s.phase = .serving ∨ s.phase = .draining → s.logger.flushes = []
  flushed : s.phase ≠ .flushing → ∀ call ∈ s.logger.flushes, call = .returned
  stopped : s.logger.stopped = true ↔ s.phase = .closing ∨ s.phase = .finished
  closed : s.logger.closed = true ↔ s.phase = .finished
  returned : s.phase = .closing ∨ s.phase = .finished → s.pool.stop = .returned

/-- A step of a party other than `main`. -/
theorem Phased.of_same (h : Phased s) (hphase : s'.phase = s.phase)
    (hdrained : s'.drained = s.drained)
    (hlogger : s'.logger.flushes = s.logger.flushes ∧ s'.logger.stopped = s.logger.stopped ∧
      s'.logger.closed = s.logger.closed)
    (hstop : s.pool.stop = .returned → s'.pool.stop = .returned)
    (hhandlers : s.drained = true → s'.handlers = []) : Phased s' := by
  obtain ⟨hflushes, hstopped, hclosed⟩ := hlogger
  refine ⟨?_, ?_, ?_, ?_, ?_, ?_, ?_⟩
  · rwa [hdrained]
  · rw [hdrained, hphase]
    exact h.drained
  · rw [hphase, hflushes]
    exact h.unflushed
  · rw [hphase, hflushes]
    exact h.flushed
  · rw [hphase, hstopped]
    exact h.stopped
  · rw [hphase, hclosed]
    exact h.closed
  · rw [hphase]
    exact fun hp => hstop (h.returned hp)

/-- A handler is there only while the server is not drained. -/
theorem Phased.not_drained (h : Phased s) {i : Nat} {p : HandlerPhase}
    (hh : s.handlers[i]? = some p) :
    s.drained = false := by
  cases hdrained : s.drained with
  | false => rfl
  | true => simp [h.handlers hdrained] at hh

theorem Phased.open_of (h : Phased s) (hphase : s.phase ≠ .closing ∧ s.phase ≠ .finished) :
    s.logger.stopped = false := by
  have := h.stopped
  simpa [hphase.1, hphase.2] using this

theorem step_phased (h : Phased s) (hstep : Step bufferSize s a s') : Phased s' := by
  have hstop := step_returned hstep
  cases hstep with
  | arrive hopen =>
    exact h.of_same rfl rfl ⟨rfl, rfl, rfl⟩ id fun hdrained => by simp [hopen] at hdrained
  | refused hh | enqueued hh | receive hh | giveUp hh | leave hh =>
    exact h.of_same rfl rfl ⟨rfl, rfl, rfl⟩ hstop fun hdrained => by
      simp [h.not_drained hh] at hdrained
  | log hh hlogger | logDetail hh hlogger =>
    exact h.of_same rfl rfl (logger_frame hlogger rfl) id
      fun hdrained => by simp [h.not_drained hh] at hdrained
  | expire | pool | stop => exact h.of_same rfl rfl ⟨rfl, rfl, rfl⟩ hstop h.handlers
  | requestWorker hlogger | detailWorker hlogger =>
    exact h.of_same rfl rfl (logger_frame hlogger rfl) id h.handlers
  | signal hphase =>
    exact ⟨h.handlers, fun hd => absurd hphase (h.drained hd).1, fun _ => h.unflushed (.inl hphase),
      fun _ => h.flushed (by simp [hphase]), by simpa [hphase] using h.stopped,
      by simpa [hphase] using h.closed, by simp⟩
  | drain hphase hhandlers hlogger =>
    obtain rfl := Option.some.inj hlogger
    exact ⟨fun _ => hhandlers, by simp, by simp, by simp, by simpa [hphase] using h.stopped,
      by simpa [hphase] using h.closed, by simp⟩
  | deadline hphase =>
    exact ⟨h.handlers, fun hd => absurd hphase (h.drained hd).2, by simp,
      fun _ => h.flushed (by simp [hphase]), by simpa [hphase] using h.stopped,
      by simpa [hphase] using h.closed, by simp⟩
  | flushStep hphase hlogger =>
    obtain ⟨call, -, hcall⟩ := Option.bind_eq_some_iff.mp hlogger
    obtain ⟨_, -, rfl⟩ := Option.map_eq_some_iff.mp hcall
    exact ⟨h.handlers, h.drained, by
      simp [hphase], fun hnot => absurd hphase hnot, h.stopped, h.closed,
      h.returned⟩
  | flushed hphase hreturned =>
    exact ⟨h.handlers, by simp, by simp, fun _ => hreturned, by simpa [hphase] using h.stopped,
      by simpa [hphase] using h.closed, by simp⟩
  | close hphase hpool hlogger =>
    obtain rfl := Option.some.inj hlogger
    exact ⟨h.handlers, by simp, by simp, fun _ => h.flushed (by simp [hphase]), by simp,
      by simpa [hphase] using h.closed, fun _ => hpool⟩
  | closeReturn hphase hlogger =>
    simp only [AsyncLogger.next] at hlogger
    split at hlogger
    · next hexited =>
      obtain rfl := Option.some.inj hlogger
      exact ⟨h.handlers, by simp, by simp, fun _ => h.flushed (by simp [hphase]),
        by simp [hexited.1], by simp, fun _ => h.returned (.inl hphase)⟩
    · cases hlogger

/-! ### The log pipeline -/

/-- As long as nobody can log after `Close`, the logger is in order. -/
theorem step_sound (hphased : Phased s) (hstep : Step bufferSize s a s')
    (h : s.logger.stopped = false ∨ s.drained = true → AsyncLogger.Sound bufferSize s.logger)
    (hs' : s'.logger.stopped = false ∨ s'.drained = true) :
    AsyncLogger.Sound bufferSize s'.logger := by
  cases hstep with
  | log hh hlogger =>
    rw [(logger_frame hlogger rfl).2.1] at hs'
    have hstopped : s.logger.stopped = false :=
      hs'.resolve_right (by simp [setHandler, hphased.not_drained hh])
    exact AsyncLogger.next_sound (a := .asyncLog ..) (h (.inl hstopped)) hstopped hlogger
  | logDetail hh hlogger =>
    rw [(logger_frame hlogger rfl).2.1] at hs'
    have hstopped : s.logger.stopped = false :=
      hs'.resolve_right (by simp [setHandler, hphased.not_drained hh])
    exact AsyncLogger.next_sound (a := .asyncLogDetail ..) (h (.inl hstopped)) hstopped hlogger
  | requestWorker hlogger =>
    rw [(logger_frame hlogger rfl).2.1] at hs'
    exact AsyncLogger.next_sound (a := .requestWorker _) (h hs') trivial hlogger
  | detailWorker hlogger =>
    rw [(logger_frame hlogger rfl).2.1] at hs'
    exact AsyncLogger.next_sound (a := .detailWorker _) (h hs') trivial hlogger
  | drain hphase _ hlogger =>
    have hclosed : s.logger.closed = false := by simpa [hphase] using hphased.closed
    exact AsyncLogger.next_sound (a := .flush)
      (h (.inl (hphased.open_of (by simp [hphase])))) hclosed hlogger
  | flushStep hphase hlogger =>
    exact AsyncLogger.next_sound (a := .flushStep 0)
      (h (.inl (hphased.open_of (by simp [hphase])))) trivial hlogger
  | close hphase _ hlogger =>
    exact AsyncLogger.next_sound (a := .close)
      (h (.inl (hphased.open_of (by simp [hphase])))) trivial hlogger
  | closeReturn hphase hlogger =>
    have hdrained : s.drained = true := by
      refine hs'.resolve_left fun hopen => ?_
      have := AsyncLogger.next_stopped hlogger (hphased.stopped.mpr (.inl hphase))
      simp [this] at hopen
    exact AsyncLogger.next_sound (a := .closeReturn) (h (.inr hdrained))
      (hphased.flushed (by simp [hphase])) hlogger
  | arrive | refused | enqueued | expire | receive | giveUp | leave | pool | signal | deadline
  | flushed | stop => exact h hs'

/-! ### What the channels take -/

section Taken

variable {α : Type} {p p' : Pipe α} {early : Nat}

/-- The entries that `AsyncLog` was called with: the channel has taken them, or dropped them. -/
def taken (p : Pipe α) : Multiset α := ↑p.accepted + ↑(p.dropped.map Prod.fst)

theorem taken_log (p : Pipe α) (x : α) (parked : Bool) :
    taken (p.log bufferSize early x parked) = taken p + {x} := by
  have hsnoc (xs : List α) : ((xs ++ [x] : List α) : Multiset α) = ↑xs + {x} := rfl
  unfold Pipe.log
  split
  · simp only [taken, hsnoc]
    abel
  split
  · simp only [taken, Pipe.collect, hsnoc]
    abel
  · simp only [taken, List.map_append, List.map_cons, List.map_nil, hsnoc]
    abel

theorem taken_insert (p : Pipe α) (xs : List α) : taken (p.insert xs) = taken p := by
  cases xs <;> rfl

theorem taken_work {stopped : Bool} {a : WorkerAction} (h : p.work early stopped a = some p') :
    taken p' = taken p := by
  cases Pipe.work_step h with
  | collect | drain | drained | tick | stop => rfl
  | flush | lastFlush => exact taken_insert p p.batch

end Taken

/-- Only `AsyncLog` and `AsyncLogDetail` bring entries. -/
theorem next_taken {l l' : AsyncLogger Nat Nat} {act : AsyncLogger.Action Nat Nat}
    (h : l.next bufferSize act = some l')
    (hact : (∀ r parked, act ≠ .asyncLog r parked) ∧ ∀ d parked, act ≠ .asyncLogDetail d parked) :
    taken l'.reqs = taken l.reqs ∧ taken l'.details = taken l.details := by
  cases act with
  | asyncLog r parked => exact absurd rfl (hact.1 r parked)
  | asyncLogDetail d parked => exact absurd rfl (hact.2 d parked)
  | requestWorker a =>
    obtain ⟨reqs, hwork, rfl⟩ := Option.map_eq_some_iff.mp h
    exact ⟨taken_work hwork, rfl⟩
  | detailWorker a =>
    obtain ⟨details, hwork, rfl⟩ := Option.map_eq_some_iff.mp h
    exact ⟨rfl, taken_work hwork⟩
  | flush | close =>
    obtain rfl := Option.some.inj h
    exact ⟨rfl, rfl⟩
  | flushStep i =>
    obtain ⟨call, -, hcall⟩ := Option.bind_eq_some_iff.mp h
    obtain ⟨⟨call', reqs, details⟩, hadvance, rfl⟩ := Option.map_eq_some_iff.mp hcall
    cases AsyncLogger.advance_cases hadvance with
    | takeReq | noReqs | takeDetail | noDetails => exact ⟨rfl, rfl⟩
    | insertReqs => exact ⟨taken_insert _ _, rfl⟩
    | insertDetails => exact ⟨rfl, taken_insert _ _⟩
  | closeReturn =>
    simp only [AsyncLogger.next] at h
    split at h
    · obtain rfl := Option.some.inj h
      exact ⟨rfl, rfl⟩
    · cases h

/-! ### Where the requests are -/

theorem pool_created {p p' : Pool} {act : Pool.Action} (h : p.next act = some p')
    (hact : ∀ r, act ≠ .enqueue r) : p'.created = p.created ∧ p'.accepted = p.accepted := by
  cases Pool.next_step h with
  | enqueue => exact absurd rfl (hact _)
  | _ => exact ⟨rfl, rfl⟩

theorem pool_sent {p p' : Pool} {act : Pool.Action} (h : p.next act = some p') :
    p.sent ⊆ p'.sent := by
  cases Pool.next_step h with
  | send => exact List.subset_cons_self _ _
  | _ => exact List.Subset.refl _

/-- Every request that was created is refused, answered or expired, or its handler waits; and every
answered one has been logged, or its handler is about to. -/
structure Accounted (s : Service) : Prop where
  created : (s.pool.created : Multiset Nat) =
    holdings waitsFor s.handlers + ↑s.refused + ↑s.expired + ↑s.answered
  accepted : (s.pool.accepted : Multiset Nat) =
    holdings waitsFor s.handlers + ↑s.expired + ↑s.answered
  reqs : (s.answered : Multiset Nat) = holdings owesLog s.handlers + taken s.logger.reqs
  details : (s.answered : Multiset Nat) =
    holdings owesDetail s.handlers + taken s.logger.details
  cancelled : ∀ addr ∈ s.pool.created, s.pool.done addr = true ∨
    addr ∈ s.handlers.map HandlerPhase.addr
  sent : s.answered ⊆ s.pool.sent

/-- A step that leaves the handlers and their histories as they are. -/
theorem Accounted.of_same (h : Accounted s) (hhandlers : s'.handlers = s.handlers)
    (hhistory : s'.refused = s.refused ∧ s'.expired = s.expired ∧ s'.answered = s.answered)
    (hpool : s'.pool.created = s.pool.created ∧ s'.pool.accepted = s.pool.accepted)
    (hdone : ∀ addr, s.pool.done addr = true → s'.pool.done addr = true)
    (hsent : s.pool.sent ⊆ s'.pool.sent)
    (htaken : taken s'.logger.reqs = taken s.logger.reqs ∧
      taken s'.logger.details = taken s.logger.details) : Accounted s' := by
  obtain ⟨hrefused, hexpired, hanswered⟩ := hhistory
  refine ⟨?_, ?_, ?_, ?_, ?_, ?_⟩
  · rw [hpool.1, hhandlers, hrefused, hexpired, hanswered]
    exact h.created
  · rw [hpool.2, hhandlers, hexpired, hanswered]
    exact h.accepted
  · rw [hanswered, hhandlers, htaken.1]
    exact h.reqs
  · rw [hanswered, hhandlers, htaken.2]
    exact h.details
  · rw [hpool.1, hhandlers]
    exact fun addr haddr => (h.cancelled addr haddr).imp_left (hdone addr)
  · rw [hanswered]
    exact List.Subset.trans h.sent hsent

theorem map_addr_set {handlers : List HandlerPhase} {i : Nat} {old p : HandlerPhase}
    (hh : handlers[i]? = some old) (haddr : p.addr = old.addr) :
    (handlers.set i p).map HandlerPhase.addr = handlers.map HandlerPhase.addr := by
  obtain ⟨hi, rfl⟩ := List.getElem?_eq_some_iff.mp hh
  have hlen : i < (handlers.map HandlerPhase.addr).length := by rwa [List.length_map]
  rw [List.map_set, haddr, ← List.getElem_map HandlerPhase.addr (h := hlen), List.set_getElem_self]

/-- The context of a request that has just been created, or of an old one. -/
theorem Accounted.cancelled_cons (h : Accounted s) {i : Nat} {r : PendingRequest} {p : HandlerPhase}
    (hh : s.handlers[i]? = some (.arrived r)) (hp : p.addr = r.addr) :
    ∀ addr ∈ r.addr :: s.pool.created,
      s.pool.done addr = true ∨ addr ∈ (s.handlers.set i p).map HandlerPhase.addr := by
  rw [map_addr_set hh hp]
  exact List.forall_mem_cons.mpr
    ⟨.inr (List.mem_map.mpr ⟨_, List.mem_of_getElem? hh, rfl⟩), h.cancelled⟩

/-- The handlers of other requests stay when one returns, which ends the context of its own. -/
theorem Accounted.cancelled_erase (h : Accounted s) {i addr : Nat} {pool : Pool}
    (hh : s.handlers[i]? = some (.leaving addr)) (hpool : s.pool.next (.cancel addr) = some pool) :
    ∀ a ∈ s.pool.created,
      pool.done a = true ∨ a ∈ (s.handlers.eraseIdx i).map HandlerPhase.addr := by
  intro a ha
  obtain rfl := Option.some.inj hpool
  by_cases heq : a = addr
  · exact .inl (by simp [endContext, heq])
  · rcases h.cancelled a ha with hdone | hmem
    · exact .inl (by simp [endContext, hdone])
    · obtain ⟨p, hp, rfl⟩ := List.mem_map.mp hmem
      obtain ⟨hi, hget⟩ := List.getElem?_eq_some_iff.mp hh
      have hmem := (List.getElem_cons_eraseIdx_perm hi).mem_iff.mpr hp
      rcases List.mem_cons.mp hmem with rfl | hmem
      · exact absurd (by rw [hget]; rfl) heq
      · exact .inr (List.mem_map_of_mem hmem)

theorem step_accounted (howned : Pool.Owned s.pool) (h : Accounted s)
    (hstep : Step bufferSize s a s') :
    Accounted s' := by
  cases hstep with
  | @arrive r =>
    refine ⟨?_, ?_, ?_, ?_, fun addr haddr => ?_, h.sent⟩
    · simpa only [holdings_cons waitsFor (.arrived r) rfl] using h.created
    · simpa only [holdings_cons waitsFor (.arrived r) rfl] using h.accepted
    · simpa only [holdings_cons owesLog (.arrived r) rfl] using h.reqs
    · simpa only [holdings_cons owesDetail (.arrived r) rfl] using h.details
    · exact (h.cancelled addr haddr).imp_right (List.mem_cons_of_mem _)
  | @refused i r pool hh hpool hfull =>
    cases Pool.next_step hpool
    refine ⟨?_, ?_, ?_, ?_, h.cancelled_cons hh rfl, h.sent⟩
    · simp only [setHandler, holdings_same waitsFor hh (.leaving r.addr) rfl, coe_cons, h.created]
      abel
    · simpa only [setHandler, holdings_same waitsFor hh (.leaving r.addr) rfl, if_pos hfull]
        using h.accepted
    · simpa only [setHandler, holdings_same owesLog hh (.leaving r.addr) rfl] using h.reqs
    · simpa only [setHandler, holdings_same owesDetail hh (.leaving r.addr) rfl] using h.details
  | @enqueued i r pool hh hpool hroom =>
    cases Pool.next_step hpool
    have hgain := holdings_gain waitsFor hh (.waiting r.addr) rfl rfl
    refine ⟨?_, ?_, ?_, ?_, h.cancelled_cons hh rfl, h.sent⟩
    · simp only [setHandler, hgain, coe_cons, h.created]
      abel
    · simp only [setHandler, hgain, if_neg hroom, coe_cons, h.accepted]
      abel
    · simpa only [setHandler, holdings_same owesLog hh (.waiting r.addr) rfl] using h.reqs
    · simpa only [setHandler, holdings_same owesDetail hh (.waiting r.addr) rfl] using h.details
  | expire _ hpool =>
    exact h.of_same rfl ⟨rfl, rfl, rfl⟩ (pool_created hpool (by simp)) (Pool.next_grows hpool).done
      (pool_sent hpool) ⟨rfl, rfl⟩
  | @receive i addr pool hh hpool =>
    obtain ⟨hcreated, haccepted⟩ := pool_created hpool (by simp)
    have hloss := holdings_loss waitsFor hh (.logging addr) rfl rfl
    cases Pool.next_step hpool with | receive hmem => ?_
    refine ⟨?_, ?_, ?_, ?_, ?_, List.cons_subset.mpr ⟨howned.buffered_sent hmem, h.sent⟩⟩
    · simp only [setHandler, h.created, hloss, coe_cons]
      abel
    · simp only [setHandler, h.accepted, hloss, coe_cons]
      abel
    · simp only [setHandler, holdings_gain owesLog hh (.logging addr) rfl rfl, coe_cons, h.reqs]
      abel
    · simp only [setHandler, holdings_gain owesDetail hh (.logging addr) rfl rfl, coe_cons,
        h.details]
      abel
    · simpa only [setHandler, map_addr_set hh (p := .logging addr) rfl] using h.cancelled
  | @giveUp i addr hh hdone =>
    have hloss := holdings_loss waitsFor hh (.leaving addr) rfl rfl
    refine ⟨?_, ?_, ?_, ?_, ?_, h.sent⟩
    · simp only [setHandler, h.created, hloss, coe_cons]
      abel
    · simp only [setHandler, h.accepted, hloss, coe_cons]
      abel
    · simpa only [setHandler, holdings_same owesLog hh (.leaving addr) rfl] using h.reqs
    · simpa only [setHandler, holdings_same owesDetail hh (.leaving addr) rfl] using h.details
    · simpa only [setHandler, map_addr_set hh (p := .leaving addr) rfl] using h.cancelled
  | @log i addr parked logger hh hlogger =>
    obtain rfl := Option.some.inj hlogger
    have hloss := holdings_loss owesLog hh (.loggingDetail addr) rfl rfl
    refine ⟨?_, ?_, ?_, ?_, ?_, h.sent⟩
    · simpa only [setHandler, holdings_same waitsFor hh (.loggingDetail addr) rfl] using h.created
    · simpa only [setHandler, holdings_same waitsFor hh (.loggingDetail addr) rfl] using h.accepted
    · simp only [setHandler, h.reqs, hloss, taken_log]
      abel
    · simpa only [setHandler, holdings_same owesDetail hh (.loggingDetail addr) rfl] using h.details
    · simpa only [setHandler, map_addr_set hh (p := .loggingDetail addr) rfl] using h.cancelled
  | @logDetail i addr parked logger hh hlogger =>
    obtain rfl := Option.some.inj hlogger
    have hloss := holdings_loss owesDetail hh (.leaving addr) rfl rfl
    refine ⟨?_, ?_, ?_, ?_, ?_, h.sent⟩
    · simpa only [setHandler, holdings_same waitsFor hh (.leaving addr) rfl] using h.created
    · simpa only [setHandler, holdings_same waitsFor hh (.leaving addr) rfl] using h.accepted
    · simpa only [setHandler, holdings_same owesLog hh (.leaving addr) rfl] using h.reqs
    · simp only [setHandler, h.details, hloss, taken_log]
      abel
    · simpa only [setHandler, map_addr_set hh (p := .leaving addr) rfl] using h.cancelled
  | @leave i addr pool hh hpool =>
    obtain ⟨hcreated, haccepted⟩ := pool_created hpool (by simp)
    refine ⟨?_, ?_, ?_, ?_, ?_, List.Subset.trans h.sent (pool_sent hpool)⟩
    · simpa only [hcreated, holdings_erase waitsFor hh rfl] using h.created
    · simpa only [haccepted, holdings_erase waitsFor hh rfl] using h.accepted
    · simpa only [holdings_erase owesLog hh rfl] using h.reqs
    · simpa only [holdings_erase owesDetail hh rfl] using h.details
    · simpa only [hcreated] using h.cancelled_erase hh hpool
  | pool hact hpool | stop _ hact hpool =>
    exact h.of_same rfl ⟨rfl, rfl, rfl⟩ (pool_created hpool (by rintro r rfl; cases hact))
      (Pool.next_grows hpool).done (pool_sent hpool) ⟨rfl, rfl⟩
  | requestWorker hlogger | detailWorker hlogger | drain _ _ hlogger | flushStep _ hlogger
  | close _ _ hlogger | closeReturn _ hlogger =>
    exact h.of_same rfl ⟨rfl, rfl, rfl⟩ ⟨rfl, rfl⟩ (fun _ hdone => hdone) (List.Subset.refl _)
      (next_taken hlogger (by simp))
  | signal | deadline | flushed =>
    exact h.of_same rfl ⟨rfl, rfl, rfl⟩ ⟨rfl, rfl⟩ (fun _ hdone => hdone) (List.Subset.refl _)
      ⟨rfl, rfl⟩

/-! ### The end of the process -/

/-- What holds in every state of the service. -/
structure Inv (bufferSize : Nat) (s : Service) : Prop where
  phased : Phased s
  accounted : Accounted s
  sound : s.logger.stopped = false ∨ s.drained = true → AsyncLogger.Sound bufferSize s.logger

theorem start_inv (max : Int) (count bufferSize : Nat) : Inv bufferSize (start max count) := by
  have hsound : AsyncLogger.Sound bufferSize (start max count).logger :=
    AsyncLogger.start_sound bufferSize
  refine ⟨⟨?_, ?_, ?_, ?_, ?_, ?_, ?_⟩, ⟨?_, ?_, ?_, ?_, ?_, ?_⟩, fun _ => hsound⟩ <;>
    simp [start, Pool.start, taken, holdings]

theorem reachable_inv (h : (system max count bufferSize).Reachable System.always s) :
    Inv bufferSize s := by
  apply h.invariant (Inv bufferSize)
  · rintro _ rfl
    exact start_inv max count bufferSize
  · intro s a s' hreach hi _ hstep
    have hstep := next_step hstep
    exact ⟨step_phased hi.phased hstep,
      step_accounted (Pool.reachable_owned (reachable_pool hreach)) hi.accounted hstep,
      step_sound hi.phased hstep hi.sound⟩

section Logged

variable {α ρ : Type} {key : ρ → String} {row : α → ρ} {scan : ρ → α} {answered : List Nat}
  {p : Pipe Nat} {held : List Nat}

/-- What a clean end has done with the entries of one channel: of those of the answered requests
each was handed to a bulk insert, or dropped by a full channel.  Whatever the entries are and
whichever calls to the database fail, the table has the row of each, but for those that were
dropped, ignored because the table has a row with their key, or lost by a bulk insert that
failed. -/
structure Logged (bufferSize : Nat) (key : ρ → String) (row : α → ρ) (scan : ρ → α)
    (answered : List Nat) (p : Pipe Nat) : Prop where
  handed : answered.Perm (p.inserted.flatten ++ p.dropped.map Prod.fst)
  full : ∀ d ∈ p.dropped, d.2 = bufferSize
  stored : ∀ (entry : Nat → α) (calls : List (BulkInsert α)),
    calls.map (·.logs) = p.inserted.map (List.map entry) →
      StoredOrLost scan (answered.map entry) ((p.dropped.map Prod.fst).map entry) calls
        (BulkRun.of key row calls)

theorem logged_of_conserved (key : ρ → String) (hscan : ∀ x, scan (row x) = x)
    (htaken : (answered : Multiset Nat) = taken p)
    (h : AsyncLogger.Conserved bufferSize p held true) :
    Logged bufferSize key row scan answered p := by
  have hhanded : answered.Perm (p.inserted.flatten ++ p.dropped.map Prod.fst) := by
    apply Multiset.coe_eq_coe.mp
    rw [htaken, taken, Multiset.coe_eq_coe.mpr (h.inserted rfl), Multiset.coe_add]
  refine ⟨hhanded, h.dropped, fun entry calls hcalls => ?_⟩
  have hlogs : calls.flatMap (·.logs) = p.inserted.flatten.map entry := by
    rw [List.flatMap_def, hcalls, List.map_flatten]
  refine (bulkRun_of key row calls).storedOrLost hscan hlogs ?_
  rw [← List.map_append]
  exact hhanded.map entry

end Logged

/-- What the process leaves behind. -/
structure CleanEnd (bufferSize : Nat) (s : Service) : Prop where
  /-- Every request was refused, answered or expired, and only one of these. -/
  outcomes : s.pool.created.Perm (s.refused ++ s.expired ++ s.answered)
  once : s.pool.created.Nodup
  accepted : s.pool.accepted.Perm (s.expired ++ s.answered)
  sent : s.answered ⊆ s.pool.sent
  /-- Nothing waits for an answer any more. -/
  done : ∀ addr ∈ s.pool.created, s.pool.done addr = true
  exited : (∀ p ∈ s.pool.workers, p = .exited) ∧ s.pool.monitor = .exited
  requestLogs : Logged bufferSize RequestRow.id requestRow scanRequestLog s.answered s.logger.reqs
  detailLogs : Logged bufferSize DetailRow.traceID detailRow scanDetail s.answered s.logger.details

theorem reachable_created_nodup {pool : Pool}
    (h : (Pool.system max count).Reachable System.always pool) :
    pool.created.Nodup := by
  apply h.invariant (·.created.Nodup)
  · rintro _ ⟨done, rfl⟩
    exact List.nodup_nil
  · intro p act p' _ hnodup _ hstep
    cases Pool.next_step hstep with
    | enqueue hfresh => exact List.nodup_cons.mpr ⟨hfresh, hnodup⟩
    | _ => exact hnodup

end Service

end LlmProxy
