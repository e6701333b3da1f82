import LlmProxy.Effects

/-! The writer that an attempt writes to: `retryableRecorder` keeps what it is given until it is
sure that there is no further attempt, and then writes through to the client. -/

namespace LlmProxy.Worker

open ProofKit Logging

/-- `retryableRecorder`; `src` is the attempt that it was made for. -/
structure Recorder where
  src : Source
  header : Header := []
  statusCode : Int := 0
  wroteHeader : Bool := false
  body : Bytes := []
  commit : Bool := false

namespace Recorder

def assignAll : Header → Prog Unit
  | [] => pure ()
  | (key, vals) :: rest => do
    let _ ← (Op.assignHeader key vals).run
    assignAll rest

/-- `Commit`. -/
def commitNow (r : Recorder) : Prog Recorder :=
  if r.commit then pure r
  else do
    assignAll r.header
    let status := if r.statusCode = 0 then 200 else r.statusCode
    let _ ← (Op.writeHeader r.src status).run
    pure { r with commit := true, statusCode := status }

def writeHeader (r : Recorder) (statusCode : Int) : Prog Recorder :=
  if r.wroteHeader then pure r
  else
    let r := { r with statusCode, wroteHeader := true }
    if isRetryable (classifyError none statusCode) then pure r else r.commitNow

def write (r : Recorder) (bytes : Bytes) : Prog (Option GoError × Recorder) := do
  let r ← if r.wroteHeader then pure r else r.writeHeader 200
  if r.commit then
    let err ← (Op.write r.src bytes).run
    pure (err, r)
  else pure (none, { r with body := r.body ++ bytes })

def flush (r : Recorder) : Prog Unit :=
  if r.commit then do
    let _ ← Op.flush.run
    pure ()
  else pure ()

end Recorder

end LlmProxy.Worker
