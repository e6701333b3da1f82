import LlmProxy.Proxy.Forward
import LlmProxy.Queue.PriorityQueue

/-! Package `worker`: `forwardWithRetry`, the attempts that a worker makes for a request. -/

namespace LlmProxy.Worker

open ProofKit Logging Proxy Queue

/-- `WorkerConfig`, as far as a worker reads it. -/
structure WorkerConfig where
  maxRetryAttempts : Int
  retryDelayMs : Int := 0

/-- `domain.AttemptLog`. -/
structure AttemptLog where
  attempt : Nat
  nodeID : String
  nodeName : String
  statusCode : Int
  errorType : ErrorType
  error : Option GoError
  promptTokens : Int := 0
  completionTokens : Int := 0
  deriving DecidableEq

/-- `domain.ExecutionResult`. -/
structure ExecutionResult where
  statusCode : Int
  error : String := ""
  errorType : Option ErrorType := none
  finalNodeID : String := ""
  attempts : List AttemptLog := []
  promptTokens : Int := 0
  completionTokens : Int := 0
  totalTokens : Int := 0
  body : Bytes := []
  deriving DecidableEq

/-- `router.Pick`. -/
def pick : List ModelNode → Prog (Option ModelNode)
  | [] => pure none
  | [n] => pure (some n)
  | n :: rest => do
    let i ← (Op.intn rest.length).run
    pure (some ((n :: rest).get i))

/-- The candidates that `pickNode` chooses from. -/
def available (candidates : List ModelNode) (excluded : List String) : List ModelNode :=
  candidates.filter fun n => !excluded.contains n.id && n.enabled

def pickNode (candidates : List ModelNode) (excluded : List String) : Prog (Option ModelNode) :=
  pick (available candidates excluded)

def workerErrorMessage : ErrorType → String
  | .dnsError | .connectionRefused | .connectionReset => "model service unreachable"
  | .upstreamTimeout => "model service timeout"
  | .upstream5xx => "model service internal error"
  | .upstream429 => "model service rate limited, please retry later"
  | .upstream4xx | .unknown | .clientCancelled | .unknownError => "service unavailable"

def workerErrorBody (status : Int) (errorType : ErrorType) : Bytes :=
  asciiBytes ("\x7b\"error\":\x7b\"message\":\"" ++ workerErrorMessage errorType ++
    "\",\"type\":\"proxy_error\",\"code\":" ++ toString status ++ "\x7d\x7d")

def writeWorkerError (status : Int) (errorType : ErrorType) : Prog Unit := do
  let _ ← (Op.assignHeader "Content-Type" ["application/json"]).run
  let _ ← (Op.writeHeader .workerError status).run
  let _ ← (Op.write .workerError (workerErrorBody status errorType)).run
  pure ()

/-- What the client gets after the last attempt has failed, if it has got nothing yet. -/
def flushFailure (w : Recorder) (statusCode : Int) (errorType : ErrorType) : Prog Unit :=
  if w.commit then pure ()
  else if w.wroteHeader then do
    let w ← w.commitNow
    let _ ← (Op.write w.src w.body).run
    pure ()
  else writeWorkerError (if statusCode = 0 then 502 else statusCode) errorType

/-- The status that an attempt is judged by, 0 when there is none. -/
def statusOf (res : Option ForwardResult) (w : Recorder) : Int :=
  match res with
  | some r => r.statusCode
  | none => w.statusCode

def attemptLogOf (attempt : Nat) (node : ModelNode) (res : Option ForwardResult)
    (err : Option GoError) (statusCode : Int) : AttemptLog :=
  let log : AttemptLog :=
    { attempt, nodeID := node.id, nodeName := node.name, statusCode, error := err
      errorType := classifyError err statusCode }
  match res.bind (·.stream) with
  | none => log
  | some s => { log with promptTokens := s.promptTokens, completionTokens := s.completionTokens }

def successResult (node : ModelNode) (attempts : List AttemptLog) (res : Option ForwardResult)
    (statusCode : Int) : ExecutionResult :=
  let out : ExecutionResult := { statusCode, finalNodeID := node.id, attempts }
  match res with
  | none => out
  | some r =>
    match r.stream with
    | none => { out with body := r.body }
    | some s =>
      { out with
        promptTokens := s.promptTokens
        completionTokens := s.completionTokens
        totalTokens := s.promptTokens + s.completionTokens }

/-- `willRetry`: whether the error of the attempt is retryable does not matter. -/
def willRetry (left : Nat) (candidates : List ModelNode) (excluded : List String) : Prog Bool :=
  if 0 < left then do
    let other ← pickNode candidates excluded
    pure other.isSome
  else pure false

/-- The end of an iteration whose attempt has failed, where `left` attempts are left and `rest` is
the next iteration. -/
def afterFailure (cfg : WorkerConfig) (left : Nat) (candidates : List ModelNode)
    (excluded : List String) (attempts : List AttemptLog) (w : Recorder) (statusCode : Int)
    (errorType : ErrorType) (rest : Prog ExecutionResult) : Prog ExecutionResult := do
  let retry ← willRetry left candidates excluded
  if retry then
    if 0 < cfg.retryDelayMs then
      let _ ← (Op.sleep cfg.retryDelayMs).run
      rest
    else rest
  else
    flushFailure w statusCode errorType
    pure { statusCode, error := errorType.text, errorType := some errorType, attempts }

/-- The loop over the attempts.  The first argument counts the attempts that are left, this one
included, so that `attempt < p.config.MaxRetryAttempts` is `0 < left` in the body. -/
def attemptLoop (dec : Decoder) (cfg : WorkerConfig) (candidates : List ModelNode) :
    Nat → Nat → List String → List AttemptLog → Prog ExecutionResult
  | 0, _, _, attempts => pure { statusCode := 502, error := "all failed", attempts }
  | left + 1, attempt, excluded, attempts => do
    match ← Op.contextErr.run with
    | some _ => pure { statusCode := 499, error := "cancelled", attempts }
    | none =>
      match ← pickNode candidates excluded with
      | none => pure { statusCode := 502, error := "all failed", attempts }
      | some node =>
        let _ ← (Op.attemptStart attempt node).run
        let (res, err, w) ← forward dec node { src := .attempt attempt }
        let statusCode := statusOf res w
        let errorType := classifyError err statusCode
        let attempts := attempts ++ [attemptLogOf attempt node res err statusCode]
        if err = none ∧ isRetryable errorType = false then
          pure (successResult node attempts res statusCode)
        else
          afterFailure cfg left candidates (node.id :: excluded) attempts w statusCode errorType
            (attemptLoop dec cfg candidates left (attempt + 1) (node.id :: excluded) attempts)

/-- `forwardWithRetry` once the candidates are known. -/
def tryCandidates (dec : Decoder) (cfg : WorkerConfig) (candidates : List ModelNode) :
    Prog ExecutionResult :=
  if candidates = [] then pure { statusCode := 502, error := "no nodes" }
  else attemptLoop dec cfg candidates cfg.maxRetryAttempts.toNat 1 [] []

def forwardWithRetry (dec : Decoder) (cfg : WorkerConfig) (req : PendingRequest) :
    Prog ExecutionResult := do
  let candidates ← (Op.resolve req.modelAlias req.endpointType).run
  tryCandidates dec cfg candidates

end LlmProxy.Worker
