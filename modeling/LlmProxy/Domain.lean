/-! The data types of package `domain` that the queue, the worker pool, the router and the rate
limiter share. -/

namespace LlmProxy

/-- `domain.EndpointType`, a string with four named values. -/
inductive EndpointType
  | chat
  | embedding
  | responses
  | all
  | other (name : String)
  deriving DecidableEq

/-- `domain.ModelNode`: one upstream backend. -/
structure ModelNode where
  id : String
  name : String := ""
  aliases : List String := []
  endpointType : EndpointType := .all
  enabled : Bool := true
  deriving DecidableEq

/-- `domain.RateLimitConfig`: tokens and requests per minute, where a value that is not positive
means no limit. -/
structure RateLimitConfig where
  tpm : Int := 0
  rpm : Int := 0

/-- `domain.RateLimitStatus`: which limit blocked a request. -/
structure RateLimitStatus where
  rpmCurrent : Int := 0
  rpmLimit : Int := 0
  tpmCurrent : Int := 0
  tpmLimit : Int := 0
  blockReason : String := ""

/-- The bytes of a body. -/
abbrev Bytes := List UInt8

end LlmProxy
