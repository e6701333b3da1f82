import LlmProxy.Proxy.Stream

/-! Package `proxy`: one attempt to forward a request to a node. -/

namespace LlmProxy.Proxy

open ProofKit Worker

/-- `ForwardResult`. -/
structure ForwardResult where
  statusCode : Int
  body : Bytes := []
  stream : Option StreamResult := none
  deriving DecidableEq

/-- The header of a relayed stream. -/
def streamHeader (h : Header) (resp : Response) : Header :=
  ((((h.addAll resp.header).set "Transfer-Encoding" "chunked").set "Content-Type"
    "text/event-stream").set "Cache-Control" "no-cache").set "X-Accel-Buffering" "no"

/-- `Forward` after the upstream has answered a streaming request. -/
def answerStream (dec : Decoder) (w : Recorder) (resp : Response) :
    Prog (Option ForwardResult × Option GoError × Recorder) := do
  let w := { w with header := streamHeader w.header resp }
  let w ← w.writeHeader resp.statusCode
  let (stream, err, w) ← forwardStream dec w resp
  pure (some { statusCode := resp.statusCode, stream := some stream },
    err.map (·.wrap "proxy: stream forward: "), w)

/-- `Forward` after the upstream has answered another request: the body is read before anything is
written. -/
def answerBody (w : Recorder) (resp : Response) :
    Prog (Option ForwardResult × Option GoError × Recorder) :=
  match resp.bodyErr with
  | some e => pure (none, some (e.wrap "proxy: read upstream response: "), w)
  | none => do
    let w := { w with header := w.header.addAll resp.header }
    let w ← w.writeHeader resp.statusCode
    let (err, w) ← w.write resp.body
    pure (some { statusCode := resp.statusCode, body := resp.body },
      err.map (·.wrap "proxy: write response to client: "), w)

def forward (dec : Decoder) (node : ModelNode) (w : Recorder) :
    Prog (Option ForwardResult × Option GoError × Recorder) := do
  match ← (Op.prepare node).run with
  | .error e => pure (none, some e, w)
  | .ok request =>
    match ← (Op.roundTrip node request).run with
    | .error e => pure (none, some (e.wrap "proxy: upstream request: "), w)
    | .ok resp => if request.isStream then answerStream dec w resp else answerBody w resp

end LlmProxy.Proxy
