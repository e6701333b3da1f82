import LlmProxy.Worker.StopReturns
import LlmProxy.Logging.Close

/-! Package `main`: the server, the worker pool and the log pipeline together, from the start to the
end of the process.  Handlers run from their `Enqueue` to their return; the pool and the logger are
those of their packages.  When the signal comes, `main` calls `srv.Shutdown`, which waits until no
handler is left or the deadline of 30 s has passed and, in the first case, calls `Flush`; then
`workerPool.Stop`, `asyncLogger.Close` and `db.Close`.  A log entry is named by the request that it
is about. -/

namespace LlmProxy

open ProofKit Queue Worker Logging

/-- Where a handler is in `forward`. -/
inductive HandlerPhase
  /-- Before its `Enqueue`. -/
  | arrived (r : PendingRequest)
  /-- At the select on the result and the context. -/
  | waiting (addr : Nat)
  /-- It has the result, and comes to `AsyncLog`. -/
  | logging (addr : Nat)
  | loggingDetail (addr : Nat)
  /-- Before its return, which runs the deferred `cancel`. -/
  | leaving (addr : Nat)
  deriving DecidableEq

namespace HandlerPhase

def addr : HandlerPhase → Nat
  | arrived r => r.addr
  | waiting addr | logging addr | loggingDetail addr | leaving addr => addr

def waitsFor : HandlerPhase → Option Nat
  | waiting addr => some addr
  | arrived _ | logging _ | loggingDetail _ | leaving _ => none

/-- The request whose log entry is still to come. -/
def owesLog : HandlerPhase → Option Nat
  | logging addr => some addr
  | arrived _ | waiting _ | loggingDetail _ | leaving _ => none

def owesDetail : HandlerPhase → Option Nat
  | logging addr | loggingDetail addr => some addr
  | arrived _ | waiting _ | leaving _ => none

end HandlerPhase

/-- Where `main` is. -/
inductive MainPhase
  | serving
  /-- In `httpServer.Shutdown`. -/
  | draining
  /-- In the `Flush` after it. -/
  | flushing
  /-- In `workerPool.Stop`. -/
  | stopping
  /-- In `asyncLogger.Close`. -/
  | closing
  /-- `db.Close`. -/
  | finished
  deriving DecidableEq

structure Service where
  pool : Pool
  logger : AsyncLogger Nat Nat := {}
  handlers : List HandlerPhase := []
  phase : MainPhase := .serving
  -- The rest is history.
  /-- `httpServer.Shutdown` has returned without an error. -/
  drained : Bool := false
  refused : List Nat := []
  /-- The requests whose handler left because the context was done. -/
  expired : List Nat := []
  /-- The requests whose handler has received the result. -/
  answered : List Nat := []

namespace Service

inductive Action
  | arrive (r : PendingRequest)
  | enqueue (h : Nat)
  /-- The deadline of a request passes, or its client disconnects. -/
  | expire (h : Nat)
  | receive (h : Nat)
  | giveUp (h : Nat)
  | log (h : Nat) (parked : Bool)
  | logDetail (h : Nat) (parked : Bool)
  | leave (h : Nat)
  /-- A step of a worker, of `monitor` or of a goroutine that puts a request back. -/
  | pool (act : Pool.Action)
  | requestWorker (a : WorkerAction)
  | detailWorker (a : WorkerAction)
  | signal
  /-- `httpServer.Shutdown` returns: no handler is left. -/
  | drain
  /-- `httpServer.Shutdown` returns the error of its context. -/
  | deadline
  | flushStep
  | flushed
  /-- A step of `workerPool.Stop`. -/
  | stop (act : Pool.Action)
  | close
  | closeReturn

/-- The steps of the pool that are not those of a handler, of a context or of `Stop`. -/
def byPool : Pool.Action → Bool
  | .poll _ | .dequeue _ | .limit .. | .finish _ | .send _ | .drop _ | .reenqueue _ | .monitor _ =>
    true
  | .enqueue _ | .cancel _ | .receive _ | .closeStopCh | .closeQueue | .stopReturns => false

def byStop : Pool.Action → Bool
  | .closeStopCh | .closeQueue | .stopReturns => true
  | _ => false

def setHandler (s : Service) (h : Nat) (p : HandlerPhase) : Service :=
  { s with handlers := s.handlers.set h p }

def next (bufferSize : Nat) (s : Service) : Action → Option Service
  | .arrive r =>
    -- Every handler has a request of its own; after a clean shutdown there is no connection left.
    if s.drained = true ∨ r.addr ∈ s.pool.created ∨
      r.addr ∈ s.handlers.map HandlerPhase.addr then none
    else some { s with handlers := .arrived r :: s.handlers }
  | .enqueue h =>
    match s.handlers[h]? with
    | some (.arrived r) => (s.pool.next (.enqueue r)).map fun pool =>
      if (s.pool.queue.enqueue r).1 = -1 then
        { s.setHandler h (.leaving r.addr) with pool, refused := r.addr :: s.refused }
      else { s.setHandler h (.waiting r.addr) with pool }
    | _ => none
  | .expire h =>
    s.handlers[h]?.bind fun p => (s.pool.next (.cancel p.addr)).map fun pool => { s with pool }
  | .receive h =>
    match s.handlers[h]? with
    | some (.waiting addr) => (s.pool.next (.receive addr)).map fun pool =>
      { s.setHandler h (.logging addr) with pool, answered := addr :: s.answered }
    | _ => none
  | .giveUp h =>
    match s.handlers[h]? with
    | some (.waiting addr) =>
      if s.pool.done addr then
        some { s.setHandler h (.leaving addr) with expired := addr :: s.expired }
      else none
    | _ => none
  | .log h parked =>
    match s.handlers[h]? with
    | some (.logging addr) => (s.logger.next bufferSize (.asyncLog addr parked)).map fun logger =>
      { s.setHandler h (.loggingDetail addr) with logger }
    | _ => none
  | .logDetail h parked =>
    match s.handlers[h]? with
    | some (.loggingDetail addr) =>
      (s.logger.next bufferSize (.asyncLogDetail addr parked)).map fun logger =>
        { s.setHandler h (.leaving addr) with logger }
    | _ => none
  | .leave h =>
    match s.handlers[h]? with
    | some (.leaving addr) => (s.pool.next (.cancel addr)).map fun pool =>
      { s with pool, handlers := s.handlers.eraseIdx h }
    | _ => none
  | .pool act => if byPool act then (s.pool.next act).map fun pool => { s with pool } else none
  | .requestWorker a =>
    (s.logger.next bufferSize (.requestWorker a)).map fun logger => { s with logger }
  | .detailWorker a =>
    (s.logger.next bufferSize (.detailWorker a)).map fun logger => { s with logger }
  | .signal => if s.phase = .serving then some { s with phase := .draining } else none
  | .drain =>
    if s.phase = .draining ∧ s.handlers = [] then
      (s.logger.next bufferSize .flush).map fun logger =>
        { s with logger, phase := .flushing, drained := true }
    else none
  | .deadline => if s.phase = .draining then some { s with phase := .stopping } else none
  | .flushStep =>
    if s.phase = .flushing then
      (s.logger.next bufferSize (.flushStep 0)).map fun logger => { s with logger }
    else none
  | .flushed =>
    if s.phase = .flushing ∧ ∀ call ∈ s.logger.flushes, call = .returned then
      some { s with phase := .stopping }
    else none
  | .stop act =>
    if s.phase = .stopping ∧ byStop act then (s.pool.next act).map fun pool => { s with pool }
    else none
  | .close =>
    if s.phase = .stopping ∧ s.pool.stop = .returned then
      (s.logger.next bufferSize .close).map fun logger => { s with logger, phase := .closing }
    else none
  | .closeReturn =>
    if s.phase = .closing then
      (s.logger.next bufferSize .closeReturn).map fun logger =>
        { s with logger, phase := .finished }
    else none

/-- The service that `main` has started. -/
def start (max : Int) (count : Nat) : Service := { pool := Pool.start max count fun _ => false }

def system (max : Int) (count bufferSize : Nat) : System Service Action :=
  .ofNext (· = start max count) (next bufferSize)

/-- What a step does, with one case for each way in which `next` succeeds. -/
inductive Step (bufferSize : Nat) (s : Service) : Action → Service → Prop
  | arrive {r : PendingRequest} (hopen : s.drained = false) (hcreated : r.addr ∉ s.pool.created)
      (hfresh : r.addr ∉ s.handlers.map HandlerPhase.addr) :
      Step bufferSize s (.arrive r) { s with handlers := .arrived r :: s.handlers }
  | refused {h : Nat} {r : PendingRequest} {pool : Pool} (hh : s.handlers[h]? = some (.arrived r))
      (hpool : s.pool.next (.enqueue r) = some pool) (hfull : (s.pool.queue.enqueue r).1 = -1) :
      Step bufferSize s (.enqueue h)
        { s.setHandler h (.leaving r.addr) with pool, refused := r.addr :: s.refused }
  | enqueued {h : Nat} {r : PendingRequest} {pool : Pool} (hh : s.handlers[h]? = some (.arrived r))
      (hpool : s.pool.next (.enqueue r) = some pool) (hroom : (s.pool.queue.enqueue r).1 ≠ -1) :
      Step bufferSize s (.enqueue h) { s.setHandler h (.waiting r.addr) with pool }
  | expire {h : Nat} {p : HandlerPhase} {pool : Pool} (hh : s.handlers[h]? = some p)
      (hpool : s.pool.next (.cancel p.addr) = some pool) :
      Step bufferSize s (.expire h) { s with pool }
  | receive {h addr : Nat} {pool : Pool} (hh : s.handlers[h]? = some (.waiting addr))
      (hpool : s.pool.next (.receive addr) = some pool) :
      Step bufferSize s (.receive h)
        { s.setHandler h (.logging addr) with pool, answered := addr :: s.answered }
  | giveUp {h addr : Nat} (hh : s.handlers[h]? = some (.waiting addr))
      (hdone : s.pool.done addr = true) :
      Step bufferSize s (.giveUp h)
        { s.setHandler h (.leaving addr) with expired := addr :: s.expired }
  | log {h addr : Nat} {parked : Bool} {logger : AsyncLogger Nat Nat}
      (hh : s.handlers[h]? = some (.logging addr))
      (hlogger : s.logger.next bufferSize (.asyncLog addr parked) = some logger) :
      Step bufferSize s (.log h parked) { s.setHandler h (.loggingDetail addr) with logger }
  | logDetail {h addr : Nat} {parked : Bool} {logger : AsyncLogger Nat Nat}
      (hh : s.handlers[h]? = some (.loggingDetail addr))
      (hlogger : s.logger.next bufferSize (.asyncLogDetail addr parked) = some logger) :
      Step bufferSize s (.logDetail h parked) { s.setHandler h (.leaving addr) with logger }
  | leave {h addr : Nat} {pool : Pool} (hh : s.handlers[h]? = some (.leaving addr))
      (hpool : s.pool.next (.cancel addr) = some pool) :
      Step bufferSize s (.leave h) { s with pool, handlers := s.handlers.eraseIdx h }
  | pool {act : Pool.Action} {pool : Pool} (hact : byPool act = true)
      (hpool : s.pool.next act = some pool) : Step bufferSize s (.pool act) { s with pool }
  | requestWorker {a : WorkerAction} {logger : AsyncLogger Nat Nat}
      (hlogger : s.logger.next bufferSize (.requestWorker a) = some logger) :
      Step bufferSize s (.requestWorker a) { s with logger }
  | detailWorker {a : WorkerAction} {logger : AsyncLogger Nat Nat}
      (hlogger : s.logger.next bufferSize (.detailWorker a) = some logger) :
      Step bufferSize s (.detailWorker a) { s with logger }
  | signal (hphase : s.phase = .serving) : Step bufferSize s .signal { s with phase := .draining }
  | drain {logger : AsyncLogger Nat Nat} (hphase : s.phase = .draining)
      (hhandlers : s.handlers = [])
      (hlogger : s.logger.next bufferSize .flush = some logger) :
      Step bufferSize s .drain { s with logger, phase := .flushing, drained := true }
  | deadline (hphase : s.phase = .draining) :
      Step bufferSize s .deadline { s with phase := .stopping }
  | flushStep {logger : AsyncLogger Nat Nat} (hphase : s.phase = .flushing)
      (hlogger : s.logger.next bufferSize (.flushStep 0) = some logger) :
      Step bufferSize s .flushStep { s with logger }
  | flushed (hphase : s.phase = .flushing)
      (hreturned : ∀ call ∈ s.logger.flushes, call = .returned) :
      Step bufferSize s .flushed { s with phase := .stopping }
  | stop {act : Pool.Action} {pool : Pool} (hphase : s.phase = .stopping) (hact : byStop act = true)
      (hpool : s.pool.next act = some pool) : Step bufferSize s (.stop act) { s with pool }
  | close {logger : AsyncLogger Nat Nat} (hphase : s.phase = .stopping)
      (hstop : s.pool.stop = .returned)
      (hlogger : s.logger.next bufferSize .close = some logger) :
      Step bufferSize s .close { s with logger, phase := .closing }
  | closeReturn {logger : AsyncLogger Nat Nat} (hphase : s.phase = .closing)
      (hlogger : s.logger.next bufferSize .closeReturn = some logger) :
      Step bufferSize s .closeReturn { s with logger, phase := .finished }

variable {bufferSize : Nat} {s s' : Service} {a : Action}

theorem next_step (h : next bufferSize s a = some s') : Step bufferSize s a s' := by
  cases a with
  | arrive r =>
    simp only [next] at h
    split at h
    · cases h
    · next hnot =>
      obtain rfl := Option.some.inj h
      simp only [not_or, Bool.not_eq_true] at hnot
      exact .arrive hnot.1 hnot.2.1 hnot.2.2
  | enqueue i =>
    simp only [next] at h
    split at h
    · next r hh =>
      obtain ⟨pool, hpool, rfl⟩ := Option.map_eq_some_iff.mp h
      split
      · next hfull => exact .refused hh hpool hfull
      · next hroom => exact .enqueued hh hpool hroom
    · cases h
  | expire i =>
    obtain ⟨p, hh, hp⟩ := Option.bind_eq_some_iff.mp h
    obtain ⟨pool, hpool, rfl⟩ := Option.map_eq_some_iff.mp hp
    exact .expire hh hpool
  | receive i =>
    simp only [next] at h
    split at h
    · next addr hh =>
      obtain ⟨pool, hpool, rfl⟩ := Option.map_eq_some_iff.mp h
      exact .receive hh hpool
    · cases h
  | giveUp i =>
    simp only [next] at h
    split at h
    · next addr hh =>
      split at h
      · next hdone =>
        obtain rfl := Option.some.inj h
        exact .giveUp hh hdone
      · cases h
    · cases h
  | log i parked =>
    simp only [next] at h
    split at h
    · next addr hh =>
      obtain ⟨logger, hlogger, rfl⟩ := Option.map_eq_some_iff.mp h
      exact .log hh hlogger
    · cases h
  | logDetail i parked =>
    simp only [next] at h
    split at h
    · next addr hh =>
      obtain ⟨logger, hlogger, rfl⟩ := Option.map_eq_some_iff.mp h
      exact .logDetail hh hlogger
    · cases h
  | leave i =>
    simp only [next] at h
    split at h
    · next addr hh =>
      obtain ⟨pool, hpool, rfl⟩ := Option.map_eq_some_iff.mp h
      exact .leave hh hpool
    · cases h
  | pool act =>
    simp only [next] at h
    split at h
    · next hact =>
      obtain ⟨pool, hpool, rfl⟩ := Option.map_eq_some_iff.mp h
      exact .pool hact hpool
    · cases h
  | requestWorker a =>
    obtain ⟨logger, hlogger, rfl⟩ := Option.map_eq_some_iff.mp h
    exact .requestWorker hlogger
  | detailWorker a =>
    obtain ⟨logger, hlogger, rfl⟩ := Option.map_eq_some_iff.mp h
    exact .detailWorker hlogger
  | signal =>
    simp only [next] at h
    split at h
    · next hphase =>
      obtain rfl := Option.some.inj h
      exact .signal hphase
    · cases h
  | drain =>
    simp only [next] at h
    split at h
    · next hphase =>
      obtain ⟨logger, hlogger, rfl⟩ := Option.map_eq_some_iff.mp h
      exact .drain hphase.1 hphase.2 hlogger
    · cases h
  | deadline =>
    simp only [next] at h
    split at h
    · next hphase =>
      obtain rfl := Option.some.inj h
      exact .deadline hphase
    · cases h
  | flushStep =>
    simp only [next] at h
    split at h
    · next hphase =>
      obtain ⟨logger, hlogger, rfl⟩ := Option.map_eq_some_iff.mp h
      exact .flushStep hphase hlogger
    · cases h
  | flushed =>
    simp only [next] at h
    split at h
    · next hphase =>
      obtain rfl := Option.some.inj h
      exact .flushed hphase.1 hphase.2
    · cases h
  | stop act =>
    simp only [next] at h
    split at h
    · next hphase =>
      obtain ⟨pool, hpool, rfl⟩ := Option.map_eq_some_iff.mp h
      exact .stop hphase.1 hphase.2 hpool
    · cases h
  | close =>
    simp only [next] at h
    split at h
    · next hphase =>
      obtain ⟨logger, hlogger, rfl⟩ := Option.map_eq_some_iff.mp h
      exact .close hphase.1 hphase.2 hlogger
    · cases h
  | closeReturn =>
    simp only [next] at h
    split at h
    · next hphase =>
      obtain ⟨logger, hlogger, rfl⟩ := Option.map_eq_some_iff.mp h
      exact .closeReturn hphase hlogger
    · cases h

end Service

end LlmProxy
