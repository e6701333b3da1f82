import LlmProxy.Http
import LlmProxy.ProofKit.Program

/-! What a worker does to its surroundings while it forwards a request.  `Prog` is a piece of the
worker's code in which only these operations are left open, so that one definition of the code
serves for a run to its end and for a run interleaved with the handler's. -/

namespace LlmProxy

open ProofKit

/-- The request that `Forward` has built for a node: what its own control flow reads of it. -/
structure Prepared where
  isStream : Bool
  deriving DecidableEq

inductive Op
  /-- `Router.Resolve`, on the table of the moment. -/
  | resolve (alias_ : String) (et : EndpointType)
  /-- How the request's context has ended, if it has: `ctx.Done()` and `ctx.Err()`.  The loop over
  the attempts asks this before an attempt, and `ForwardStream` before a line. -/
  | contextErr
  | streamContextErr
  /-- `rand.Intn (n + 1)`. -/
  | intn (n : Nat)
  | attemptStart (attempt : Nat) (node : ModelNode)
  /-- `buildHTTPRequest`, and `Forward` up to `client.Do`. -/
  | prepare (node : ModelNode)
  /-- `client.Do`. -/
  | roundTrip (node : ModelNode) (request : Prepared)
  /-- `w.Header()[key] = vals` on the client's writer. -/
  | assignHeader (key : String) (vals : List String)
  | writeHeader (src : Source) (status : Int)
  | write (src : Source) (bytes : Bytes)
  | flush
  | sleep (ms : Int)
  deriving DecidableEq

def Op.Ans : Op → Type
  | resolve .. => List ModelNode
  | contextErr | streamContextErr => Option ContextEnd
  | intn n => Fin (n + 1)
  | prepare _ => Except GoError Prepared
  | roundTrip .. => Except GoError Response
  | write .. => Option GoError
  | attemptStart .. | assignHeader .. | writeHeader .. | flush | sleep _ => Unit

abbrev Prog := Program Op Op.Ans

/-- The operation, as a program. -/
def Op.run (op : Op) : Prog op.Ans := .perform op

section

variable {A : (op : Op) → op.Ans → Prop} {α β : Type} {Q : β → Prop}

theorem ensures_run {op : Op} {f : op.Ans → Prog β} (h : ∀ r, A op r → (f r).Ensures A Q) :
    (op.run >>= f).Ensures A Q :=
  Program.ensures_call h

/-- A piece of code whose result does not matter. -/
theorem ensures_bind {p : Prog α} {f : α → Prog β} (h : ∀ a, (f a).Ensures A Q) :
    (p >>= f).Ensures A Q :=
  (Program.ensures_trivial p).bind fun a _ => h a

end

end LlmProxy
