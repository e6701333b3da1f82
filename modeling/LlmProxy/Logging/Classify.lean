import Mathlib.Data.List.Infix

/-! Errors as package `logging` sees them, and how it classifies the outcome of an attempt. -/

namespace LlmProxy

/-- An error: its text, and whether its chain holds one of the two errors of package `context`. -/
structure GoError where
  text : String
  deadlineExceeded : Bool := false
  canceled : Bool := false
  deriving DecidableEq

/-- `fmt.Errorf` with a text before the wrapped error. -/
def GoError.wrap (before : String) (e : GoError) : GoError := { e with text := before ++ e.text }

/-- How a context ended. -/
inductive ContextEnd
  | deadline
  | canceled
  deriving DecidableEq

/-- `ctx.Err()` of a context that has ended. -/
def ContextEnd.err : ContextEnd → GoError
  | deadline => { text := "context deadline exceeded", deadlineExceeded := true }
  | canceled => { text := "context canceled", canceled := true }

namespace Logging

/-- The strings that `ClassifyError` returns. -/
inductive ErrorType
  | upstream5xx
  | upstream429
  | upstream4xx
  | unknown
  | upstreamTimeout
  | clientCancelled
  | connectionRefused
  | connectionReset
  | dnsError
  | unknownError
  deriving DecidableEq

def ErrorType.text : ErrorType → String
  | upstream5xx => "upstream_5xx"
  | upstream429 => "upstream_429"
  | upstream4xx => "upstream_4xx"
  | unknown => "unknown"
  | upstreamTimeout => "upstream_timeout"
  | clientCancelled => "client_cancelled"
  | connectionRefused => "connection_refused"
  | connectionReset => "connection_reset"
  | dnsError => "dns_error"
  | unknownError => "unknown_error"

theorem ErrorType.text_ne_empty (errorType : ErrorType) : errorType.text ≠ "" := by
  cases errorType <;> decide

/-- `strings.Contains`. -/
def contains (s part : String) : Bool := decide (part.toList <:+: s.toList)

def classifyError (err : Option GoError) (statusCode : Int) : ErrorType :=
  match err with
  | none =>
    if 500 ≤ statusCode then .upstream5xx
    else if statusCode = 429 then .upstream429
    else if 400 ≤ statusCode then .upstream4xx
    else .unknown
  | some e =>
    if e.deadlineExceeded then .upstreamTimeout
    else if e.canceled then .clientCancelled
    else if contains e.text "connection refused" then .connectionRefused
    else if contains e.text "connection reset" then .connectionReset
    else if contains e.text "no such host" then .dnsError
    else .unknownError

def isRetryable : ErrorType → Bool
  | .upstreamTimeout | .upstream5xx | .upstream429 | .connectionRefused | .connectionReset
  | .dnsError => true
  | .upstream4xx | .unknown | .clientCancelled | .unknownError => false

end Logging

end LlmProxy
