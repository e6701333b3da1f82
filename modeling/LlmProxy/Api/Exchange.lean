import LlmProxy.Worker.Retry
import LlmProxy.Router
import LlmProxy.ProofKit.System

/-! One request between its two parties: the HTTP handler `OpenAIHandler.forward`, from the moment
it enqueues the request, and the worker that serves it.  They share the request's context, the
result channel with its one slot, and the client's `ResponseWriter`.  A step is one operation of a
party, or the end of the context. -/

namespace LlmProxy.Api

open ProofKit Worker Queue Proxy

/-- Where the handler is. -/
inductive HandlerPhase
  | enqueueing
  /-- At the select on the result and the context. -/
  | waiting
  /-- In `writeError`, before its `WriteHeader`. -/
  | failing (status : Int)
  /-- In `writeError`, before its write of the body. -/
  | failingBody (status : Int)
  /-- Before the return, which runs the deferred `cancel`. -/
  | leaving
  | returned
  deriving DecidableEq

/-- What the pool does with the request. -/
inductive ServerPhase
  | absent
  /-- In the queue, with a worker before the limiter, or waiting to be put back. -/
  | queued
  /-- A worker is in `forwardWithRetry`, with this rest of it to run. -/
  | running (rest : Prog ExecutionResult)
  /-- At the select that sends the result. -/
  | delivering (result : ExecutionResult)
  | finished

/-- What happens at the client's writer, and the handler's return. -/
inductive Entry
  | worker (call : ClientCall)
  | handler (call : ClientCall)
  | returned
  deriving DecidableEq

namespace Entry

def byWorker : Entry → Bool
  | worker _ => true
  | handler _ | returned => false

def byHandler : Entry → Bool
  | handler _ => true
  | worker _ | returned => false

def isHeader : Entry → Bool
  | worker call | handler call => call.isHeader
  | returned => false

end Entry

structure Exchange where
  ctx : Option ContextEnd
  handler : HandlerPhase
  server : ServerPhase
  chan : Option ExecutionResult
  /-- The header map of the client's writer. -/
  header : Header
  log : List Entry
  /-- History: the result was sent while the context was not done. -/
  deliveredLive : Bool

namespace Exchange

inductive Action
  | endContext (how : ContextEnd)
  | enqueue (accepted : Bool)
  /-- A worker starts `forwardWithRetry`. -/
  | begin
  /-- The pool drops the request: it is skipped as cancelled, or not taken back. -/
  | discard
  /-- The worker's next operation, with the answer that the surroundings give. -/
  | work (oracle : (op : Op) → op.Ans)
  | send
  | giveUp
  | receive
  | noticeDone
  | writeError
  | leave

/-- The text of an HTTP status in lower case, for the two statuses that the handler sends here. -/
def statusText (status : Int) : String :=
  if status = 503 then "service unavailable" else "gateway timeout"

def errorMessage (status : Int) : String :=
  if status = 503 then "queue is full" else "request timeout after waiting in queue"

def errorBody (status : Int) : Bytes :=
  asciiBytes ("\x7b\"error\":\x7b\"code\":" ++ toString status ++ ",\"message\":\"" ++
    errorMessage status ++ "\",\"type\":\"" ++ statusText status ++ "\"\x7d\x7d\n")

/-- What an operation of the worker does to the client's writer. -/
def perform (s : Exchange) : Op → Exchange
  | .assignHeader key vals => { s with header := s.header.assign key vals }
  | .writeHeader src status =>
    { s with log := s.log ++ [.worker (.writeHeader src status s.header)] }
  | .write src bytes => { s with log := s.log ++ [.worker (.write src bytes)] }
  | .resolve .. | .contextErr | .streamContextErr | .intn _ | .attemptStart .. | .prepare _
  | .roundTrip .. | .flush | .sleep _ => s

/-- The answer to an operation of the worker: the router and the context answer for themselves. -/
def answer (router : Router) (s : Exchange) (oracle : (op : Op) → op.Ans) : (op : Op) → op.Ans
  | .resolve alias_ et => router.resolve alias_ et
  | .contextErr => s.ctx
  | .streamContextErr => s.ctx
  | op => oracle op

section

variable (dec : Decoder) (cfg : WorkerConfig) (router : Router) (req : PendingRequest)

def next (s : Exchange) : Action → Option Exchange
  | .endContext how => if s.ctx = none then some { s with ctx := some how } else none
  | .enqueue accepted =>
    if s.handler = .enqueueing then
      if accepted then some { s with handler := .waiting, server := .queued }
      else some { s with handler := .failing 503 }
    else none
  | .begin =>
    match s.server with
    | .queued => some { s with server := .running (forwardWithRetry dec cfg req) }
    | _ => none
  | .discard =>
    match s.server with
    | .queued => some { s with server := .finished }
    | _ => none
  | .work oracle =>
    match s.server with
    | .running (.done result) => some { s with server := .delivering result }
    | .running (.call op rest) =>
      some { s.perform op with server := .running (rest (s.answer router oracle op)) }
    | _ => none
  | .send =>
    match s.server, s.chan with
    | .delivering result, none =>
      some { s with
        server := .finished
        chan := some result
        deliveredLive := decide (s.ctx = none) }
    | _, _ => none
  | .giveUp =>
    match s.server with
    | .delivering _ => if s.ctx = none then none else some { s with server := .finished }
    | _ => none
  | .receive =>
    -- A result is logged and counted, and nothing is written.
    if s.handler = .waiting ∧ s.chan.isSome then
      some { s with handler := .leaving, chan := none }
    else none
  | .noticeDone =>
    match s.handler, s.ctx with
    | .waiting, some .deadline => some { s with handler := .failing 504 }
    | .waiting, some .canceled => some { s with handler := .leaving }
    | _, _ => none
  | .writeError =>
    match s.handler with
    | .failing status =>
      let header := s.header.assign "Content-Type" ["application/json"]
      some { s with
        handler := .failingBody status
        header
        log := s.log ++ [.handler (.writeHeader .handler status header)] }
    | .failingBody status =>
      some { s with
        handler := .leaving
        log := s.log ++ [.handler (.write .handler (errorBody status))] }
    | _ => none
  | .leave =>
    if s.handler = .leaving then
      some { s with
        handler := .returned
        ctx := some (s.ctx.getD .canceled)
        log := s.log ++ [.returned] }
    else none

/-- What a step does, with one case for each way in which `next` succeeds. -/
inductive Step (s : Exchange) : Action → Exchange → Prop
  | endContext (how : ContextEnd) (hctx : s.ctx = none) :
      Step s (.endContext how) { s with ctx := some how }
  | accepted (hphase : s.handler = .enqueueing) :
      Step s (.enqueue true) { s with handler := .waiting, server := .queued }
  | refused (hphase : s.handler = .enqueueing) :
      Step s (.enqueue false) { s with handler := .failing 503 }
  | begin (hserver : s.server = .queued) :
      Step s .begin { s with server := .running (forwardWithRetry dec cfg req) }
  | discard (hserver : s.server = .queued) : Step s .discard { s with server := .finished }
  | workDone {oracle : (op : Op) → op.Ans} {result : ExecutionResult}
      (hserver : s.server = .running (.done result)) :
      Step s (.work oracle) { s with server := .delivering result }
  | workCall {oracle : (op : Op) → op.Ans} {op : Op} {rest : op.Ans → Prog ExecutionResult}
      (hserver : s.server = .running (.call op rest)) :
      Step s (.work oracle)
        { s.perform op with server := .running (rest (s.answer router oracle op)) }
  | send {result : ExecutionResult} (hserver : s.server = .delivering result)
      (hchan : s.chan = none) :
      Step s .send { s with
        server := .finished
        chan := some result
        deliveredLive := decide (s.ctx = none) }
  | giveUp {result : ExecutionResult} (hserver : s.server = .delivering result)
      (hctx : s.ctx ≠ none) : Step s .giveUp { s with server := .finished }
  | receive (hphase : s.handler = .waiting) (hchan : s.chan.isSome) :
      Step s .receive { s with handler := .leaving, chan := none }
  | noticeDeadline (hphase : s.handler = .waiting) (hctx : s.ctx = some .deadline) :
      Step s .noticeDone { s with handler := .failing 504 }
  | noticeCanceled (hphase : s.handler = .waiting) (hctx : s.ctx = some .canceled) :
      Step s .noticeDone { s with handler := .leaving }
  | errorHeader {status : Int} (hphase : s.handler = .failing status) :
      Step s .writeError { s with
        handler := .failingBody status
        header := s.header.assign "Content-Type" ["application/json"]
        log := s.log ++ [.handler (.writeHeader .handler status
          (s.header.assign "Content-Type" ["application/json"]))] }
  | errorBody {status : Int} (hphase : s.handler = .failingBody status) :
      Step s .writeError { s with
        handler := .leaving
        log := s.log ++ [.handler (.write .handler (errorBody status))] }
  | leave (hphase : s.handler = .leaving) :
      Step s .leave { s with
        handler := .returned
        ctx := some (s.ctx.getD .canceled)
        log := s.log ++ [.returned] }

variable {dec cfg router req} in
theorem next_step {s s' : Exchange} {act : Action} (h : next dec cfg router req s act = some s') :
    Step dec cfg router req s act s' := by
  cases act with
  | endContext how =>
    simp only [next] at h
    split at h
    · next hctx =>
      obtain rfl := Option.some.inj h
      exact .endContext how hctx
    · cases h
  | enqueue accepted =>
    simp only [next] at h
    split at h
    · next hphase =>
      cases accepted with
      | true =>
        obtain rfl := Option.some.inj h
        exact .accepted hphase
      | false =>
        obtain rfl := Option.some.inj h
        exact .refused hphase
    · cases h
  | begin =>
    simp only [next] at h
    split at h
    case h_1 hserver =>
      obtain rfl := Option.some.inj h
      exact .begin hserver
    case h_2 => cases h
  | discard =>
    simp only [next] at h
    split at h
    case h_1 hserver =>
      obtain rfl := Option.some.inj h
      exact .discard hserver
    case h_2 => cases h
  | work oracle =>
    simp only [next] at h
    split at h
    case h_1 hserver =>
      obtain rfl := Option.some.inj h
      exact .workDone hserver
    case h_2 hserver =>
      obtain rfl := Option.some.inj h
      exact .workCall hserver
    case h_3 => cases h
  | send =>
    simp only [next] at h
    split at h
    case h_1 hserver hchan =>
      obtain rfl := Option.some.inj h
      exact .send hserver hchan
    case h_2 => cases h
  | giveUp =>
    simp only [next] at h
    split at h
    case h_1 hserver =>
      split at h
      · cases h
      · next hctx =>
        obtain rfl := Option.some.inj h
        exact .giveUp hserver hctx
    case h_2 => cases h
  | receive =>
    simp only [next] at h
    split at h
    · next hready =>
      obtain rfl := Option.some.inj h
      exact .receive hready.1 hready.2
    · cases h
  | noticeDone =>
    simp only [next] at h
    split at h
    case h_1 hphase hctx =>
      obtain rfl := Option.some.inj h
      exact .noticeDeadline hphase hctx
    case h_2 hphase hctx =>
      obtain rfl := Option.some.inj h
      exact .noticeCanceled hphase hctx
    case h_3 => cases h
  | writeError =>
    simp only [next] at h
    split at h
    case h_1 hphase =>
      obtain rfl := Option.some.inj h
      exact .errorHeader hphase
    case h_2 hphase =>
      obtain rfl := Option.some.inj h
      exact .errorBody hphase
    case h_3 => cases h
  | leave =>
    simp only [next] at h
    split at h
    · next hphase =>
      obtain rfl := Option.some.inj h
      exact .leave hphase
    · cases h

def start : Exchange where
  ctx := none
  handler := .enqueueing
  server := .absent
  chan := none
  header := []
  log := []
  deliveredLive := false

def system : System Exchange Action := .ofNext (· = start) (next dec cfg router req)

end

/-- An upstream that answers every request, which is not a streaming one, with an empty 200. -/
def plainUpstream : (op : Op) → op.Ans
  | .resolve .. => []
  | .contextErr => none
  | .streamContextErr => none
  | .intn n => (⟨0, Nat.succ_pos n⟩ : Fin (n + 1))
  | .prepare _ => .ok ⟨false⟩
  | .roundTrip .. => .ok { statusCode := 200 }
  | .write .. => none
  | .attemptStart .. | .assignHeader .. | .writeHeader .. | .flush | .sleep _ => ()

/-- A decoder that finds nothing. -/
def noDecoder : Decoder := ⟨fun _ => none, fun _ => none⟩

end Exchange

end LlmProxy.Api
