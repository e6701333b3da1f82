import LlmProxy.Queue.Refinement
import LlmProxy.ProofKit.Counting

/-! Package `worker`: the pool of workers over the request queue, with the handlers that enqueue,
the goroutines that put rate-limited requests back, `monitor`, and `Stop`.  A step is one section
under the queue's mutex or one channel operation.  What `forwardWithRetry` does with a request is
between the steps `limit` and `finish`; the limiter's verdicts and the ends of contexts are free.

A worker that waits in `DequeueBlocking` may run its section again at any time here.  The section
tests its condition again, so to wake up too often changes nothing. -/

namespace LlmProxy.Worker

open Queue ProofKit

/-- Where a worker is in its loop. -/
inductive WorkerPhase
  /-- At the test of `stopCh`. -/
  | polling
  | dequeuing
  | limiting (r : PendingRequest)
  | forwarding (r : PendingRequest)
  /-- At the select that sends the result. -/
  | sending (r : PendingRequest)
  | exited
  deriving DecidableEq

namespace WorkerPhase

def request : WorkerPhase → Option PendingRequest
  | limiting r | forwarding r | sending r => some r
  | polling | dequeuing | exited => none

/-- The request that the worker has begun to forward. -/
def started : WorkerPhase → Option PendingRequest
  | forwarding r | sending r => some r
  | polling | dequeuing | limiting _ | exited => none

end WorkerPhase

/-- Where `monitor` is: at its select, in the report of a tick, or past its return. -/
inductive MonitorPhase
  | selecting
  | reporting
  | exited
  deriving DecidableEq

inductive MonitorAction
  | tick
  | report
  | stop
  deriving DecidableEq

/-- How far `Stop` is: `close(p.stopCh)`, `p.queue.Close()`, and the return from `p.wg.Wait()`. -/
inductive StopPhase
  | running
  | signalled
  | closed
  | returned
  deriving DecidableEq

/-- A step of `monitor`: a tick of its ticker, the report about it, or the return when `stopCh` is
closed.  If both are ready, the select takes either. -/
def MonitorPhase.next (stop : StopPhase) : MonitorPhase → MonitorAction → Option MonitorPhase
  | .selecting, .tick => some .reporting
  | .reporting, .report => some .selecting
  | .selecting, .stop => if stop = .running then none else some .exited
  | _, _ => none

structure Pool where
  queue : RequestQueue
  done : Nat → Bool
  workers : List WorkerPhase
  monitor : MonitorPhase
  /-- The requests that goroutines put back after their sleep. -/
  delayed : List PendingRequest
  /-- The requests whose result channel holds a value. -/
  buffered : List Nat
  stop : StopPhase
  -- The rest is history: the pool itself does not keep it.
  created : List Nat
  accepted : List Nat
  forwarded : List Nat
  sent : List Nat
  /-- The requests whose result was given up because their context was done. -/
  dropped : List Nat
  acceptedBeforeStop : List Nat

namespace Pool

inductive Action
  | enqueue (r : PendingRequest)
  | cancel (addr : Nat)
  | poll (w : Nat)
  | dequeue (w : Nat)
  /-- The limiter's verdict; an error counts as a refusal. -/
  | limit (w : Nat) (allowed : Bool)
  | finish (w : Nat)
  | send (w : Nat)
  | drop (w : Nat)
  | receive (addr : Nat)
  | reenqueue (i : Nat)
  | monitor (a : MonitorAction)
  | closeStopCh
  | closeQueue
  | stopReturns

def setWorker (s : Pool) (w : Nat) (p : WorkerPhase) : Pool :=
  { s with workers := s.workers.set w p }

/-- The phase after a section of `DequeueBlocking`. -/
def afterDequeue : RequestQueue.Dequeued → WorkerPhase
  | .item r => .limiting r
  | .stopped => .exited
  | .wait => .dequeuing

def next (s : Pool) : Action → Option Pool
  | .enqueue r =>
    -- Each handler creates its own request and enqueues it once.
    if r.addr ∈ s.created then none
    else
      let (position, _, queue) := s.queue.enqueue r
      some { s with
        queue
        created := r.addr :: s.created
        accepted := if position = -1 then s.accepted else r.addr :: s.accepted }
  | .cancel addr => some { s with done := endContext s.done addr }
  | .poll w =>
    match s.workers[w]? with
    | some .polling => some (s.setWorker w (if s.stop = .running then .dequeuing else .exited))
    | _ => none
  | .dequeue w =>
    match s.workers[w]? with
    | some .dequeuing =>
      let (_, out, queue) := s.queue.dequeue s.done
      some { s.setWorker w (afterDequeue out) with queue }
    | _ => none
  | .limit w allowed =>
    match s.workers[w]? with
    | some (.limiting r) =>
      if allowed then
        some { s.setWorker w (.forwarding r) with forwarded := r.addr :: s.forwarded }
      else some { s.setWorker w .polling with delayed := r :: s.delayed }
    | _ => none
  | .finish w =>
    match s.workers[w]? with
    | some (.forwarding r) => some (s.setWorker w (.sending r))
    | _ => none
  | .send w =>
    match s.workers[w]? with
    | some (.sending r) =>
      -- The channel has one slot: a send to a full one waits.
      if r.addr ∈ s.buffered then none
      else some { s.setWorker w .polling with
        buffered := r.addr :: s.buffered
        sent := r.addr :: s.sent }
    | _ => none
  | .drop w =>
    match s.workers[w]? with
    | some (.sending r) =>
      if s.done r.addr then
        some { s.setWorker w .polling with dropped := r.addr :: s.dropped }
      else none
    | _ => none
  | .receive addr =>
    if addr ∈ s.buffered then some { s with buffered := s.buffered.erase addr } else none
  | .reenqueue i =>
    match s.delayed[i]? with
    | some r => some { s with
        delayed := s.delayed.eraseIdx i
        -- What this `Enqueue` returns is ignored.
        queue := if s.done r.addr then s.queue else (s.queue.enqueue r).2.2 }
    | none => none
  | .monitor a => (s.monitor.next s.stop a).map fun monitor => { s with monitor }
  | .closeStopCh =>
    if s.stop = .running then
      some { s with stop := .signalled, acceptedBeforeStop := s.accepted }
    else none
  | .closeQueue =>
    if s.stop = .signalled then some { s with stop := .closed, queue := s.queue.close } else none
  | .stopReturns =>
    -- The wait group counts the workers and `monitor`.
    if s.stop = .closed ∧ (∀ p ∈ s.workers, p = .exited) ∧ s.monitor = .exited then
      some { s with stop := .returned }
    else none

/-- What a step does to the pool, with one case for each way in which `next` succeeds. -/
inductive Step (s : Pool) : Action → Pool → Prop
  | enqueue {r : PendingRequest} (hfresh : r.addr ∉ s.created) :
      Step s (.enqueue r) { s with
        queue := (s.queue.enqueue r).2.2
        created := r.addr :: s.created
        accepted := if (s.queue.enqueue r).1 = -1 then s.accepted else r.addr :: s.accepted }
  | cancel (addr : Nat) : Step s (.cancel addr) { s with done := endContext s.done addr }
  | poll {w : Nat} (hw : s.workers[w]? = some .polling) :
      Step s (.poll w) (s.setWorker w (if s.stop = .running then .dequeuing else .exited))
  | dequeue {w : Nat} (hw : s.workers[w]? = some .dequeuing) :
      Step s (.dequeue w) { s.setWorker w (afterDequeue (s.queue.dequeue s.done).2.1) with
        queue := (s.queue.dequeue s.done).2.2 }
  | allowed {w : Nat} {r : PendingRequest} (hw : s.workers[w]? = some (.limiting r)) :
      Step s (.limit w true) { s.setWorker w (.forwarding r) with
        forwarded := r.addr :: s.forwarded }
  | blocked {w : Nat} {r : PendingRequest} (hw : s.workers[w]? = some (.limiting r)) :
      Step s (.limit w false) { s.setWorker w .polling with delayed := r :: s.delayed }
  | finish {w : Nat} {r : PendingRequest} (hw : s.workers[w]? = some (.forwarding r)) :
      Step s (.finish w) (s.setWorker w (.sending r))
  | send {w : Nat} {r : PendingRequest} (hw : s.workers[w]? = some (.sending r))
      (hfree : r.addr ∉ s.buffered) :
      Step s (.send w) { s.setWorker w .polling with
        buffered := r.addr :: s.buffered
        sent := r.addr :: s.sent }
  | drop {w : Nat} {r : PendingRequest} (hw : s.workers[w]? = some (.sending r))
      (hdone : s.done r.addr = true) :
      Step s (.drop w) { s.setWorker w .polling with dropped := r.addr :: s.dropped }
  | receive {addr : Nat} (hmem : addr ∈ s.buffered) :
      Step s (.receive addr) { s with buffered := s.buffered.erase addr }
  | reenqueue {i : Nat} {r : PendingRequest} (hr : s.delayed[i]? = some r) :
      Step s (.reenqueue i) { s with
        delayed := s.delayed.eraseIdx i
        queue := if s.done r.addr then s.queue else (s.queue.enqueue r).2.2 }
  | monitor {a : MonitorAction} {p : MonitorPhase} (hmonitor : s.monitor.next s.stop a = some p) :
      Step s (.monitor a) { s with monitor := p }
  | closeStopCh (hstop : s.stop = .running) :
      Step s .closeStopCh { s with stop := .signalled, acceptedBeforeStop := s.accepted }
  | closeQueue (hstop : s.stop = .signalled) :
      Step s .closeQueue { s with stop := .closed, queue := s.queue.close }
  | stopReturns (hstop : s.stop = .closed) (hexited : ∀ p ∈ s.workers, p = .exited)
      (hmonitor : s.monitor = .exited) :
      Step s .stopReturns { s with stop := .returned }

theorem next_step {s s' : Pool} {act : Action} (h : s.next act = some s') : Step s act s' := by
  cases act with
  | enqueue r =>
    simp only [next] at h
    split at h
    · cases h
    · next hfresh =>
      obtain rfl := Option.some.inj h
      exact .enqueue hfresh
  | cancel addr =>
    obtain rfl := Option.some.inj h
    exact .cancel addr
  | poll w =>
    simp only [next] at h
    split at h
    case h_1 hw =>
      obtain rfl := Option.some.inj h
      exact .poll hw
    case h_2 => cases h
  | dequeue w =>
    simp only [next] at h
    split at h
    case h_1 hw =>
      obtain rfl := Option.some.inj h
      exact .dequeue hw
    case h_2 => cases h
  | limit w allowed =>
    simp only [next] at h
    split at h
    case h_1 r hw =>
      cases allowed with
      | true =>
        obtain rfl := Option.some.inj h
        exact .allowed hw
      | false =>
        obtain rfl := Option.some.inj h
        exact .blocked hw
    case h_2 => cases h
  | finish w =>
    simp only [next] at h
    split at h
    case h_1 r hw =>
      obtain rfl := Option.some.inj h
      exact .finish hw
    case h_2 => cases h
  | send w =>
    simp only [next] at h
    split at h
    case h_1 r hw =>
      split at h
      · cases h
      · next hfree =>
        obtain rfl := Option.some.inj h
        exact .send hw hfree
    case h_2 => cases h
  | drop w =>
    simp only [next] at h
    split at h
    case h_1 r hw =>
      split at h
      · next hdone =>
        obtain rfl := Option.some.inj h
        exact .drop hw hdone
      · cases h
    case h_2 => cases h
  | receive addr =>
    simp only [next] at h
    split at h
    · next hmem =>
      obtain rfl := Option.some.inj h
      exact .receive hmem
    · cases h
  | reenqueue i =>
    simp only [next] at h
    split at h
    case h_1 r hr =>
      obtain rfl := Option.some.inj h
      exact .reenqueue hr
    case h_2 => cases h
  | monitor a =>
    obtain ⟨p, hmonitor, rfl⟩ := Option.map_eq_some_iff.mp h
    exact .monitor hmonitor
  | closeStopCh =>
    simp only [next] at h
    split at h
    · next hstop =>
      obtain rfl := Option.some.inj h
      exact .closeStopCh hstop
    · cases h
  | closeQueue =>
    simp only [next] at h
    split at h
    · next hstop =>
      obtain rfl := Option.some.inj h
      exact .closeQueue hstop
    · cases h
  | stopReturns =>
    simp only [next] at h
    split at h
    · next hstop =>
      obtain rfl := Option.some.inj h
      exact .stopReturns hstop.1 hstop.2.1 hstop.2.2
    · cases h

/-- A pool of `count` workers and `monitor` that `Start` has just started. -/
def start (max : Int) (count : Nat) (done : Nat → Bool) : Pool where
  queue := newRequestQueue max
  done := done
  workers := List.replicate count .polling
  monitor := .selecting
  delayed := []
  buffered := []
  stop := .running
  created := []
  accepted := []
  forwarded := []
  sent := []
  dropped := []
  acceptedBeforeStop := []

def system (max : Int) (count : Nat) : System Pool Action :=
  .ofNext (fun s => ∃ done, s = start max count done) next

end Pool

end LlmProxy.Worker
