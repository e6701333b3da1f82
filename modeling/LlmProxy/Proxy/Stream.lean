import LlmProxy.Worker.Recorder

/-! Package `proxy`, the relay of an event stream: `bufio.Scanner` with `ScanLines`, the accounting
of tokens, and the loop that writes line by line. -/

namespace LlmProxy.Proxy

open ProofKit Worker

def asciiBytes (s : String) : Bytes := s.toList.map fun c => UInt8.ofNat c.toNat

def newline : UInt8 := 10

/-- The lines of a text without their line feeds; a last line without one counts if it is not
empty. -/
def splitLines : Bytes → List Bytes
  | [] => []
  | b :: rest =>
    if b = newline then [] :: splitLines rest
    else
      match splitLines rest with
      | [] => [[b]]
      | line :: lines => (b :: line) :: lines

/-- `ScanLines` drops one carriage return at the end of a line. -/
def dropCR (line : Bytes) : Bytes := if line.getLast? = some 13 then line.dropLast else line

/-- The limit that `scanner.Buffer` sets. -/
def maxTokenSize : Nat := 10 * 1024 * 1024

def errTooLong : GoError := { text := "bufio.Scanner: token too long" }

/-- The lines that the scanner yields and the error it ends with: a line that does not fit into the
buffer ends the scan, and a read error comes after all that was read. -/
def scan (resp : Response) : List Bytes × Option GoError :=
  let raw := splitLines resp.body
  let fitting := raw.takeWhile (·.length < maxTokenSize)
  (fitting.map dropCR, if fitting.length < raw.length then some errTooLong else resp.bodyErr)

/-- The two readings of a payload by `json.Unmarshal`, where `none` is an error: the chunk of a chat
stream, with the contents of its choices and its usage, and the input and output tokens under
`response.usage`. -/
structure Decoder where
  chunk : Bytes → Option (List String × Option (Int × Int))
  responseUsage : Bytes → Option (Int × Int)

structure StreamResult where
  promptTokens : Int := 0
  completionTokens : Int := 0
  /-- Also what `accumulatedContent` holds. -/
  fullContent : String := ""
  rawLines : List Bytes := []
  deriving DecidableEq

/-- The UTF-8 encodings of the characters that `strings.TrimSpace` cuts off. -/
def spaces : List Bytes :=
  [[9], [10], [11], [12], [13], [32], [0xC2, 0x85], [0xC2, 0xA0], [0xE1, 0x9A, 0x80],
    [0xE2, 0x80, 0x80], [0xE2, 0x80, 0x81], [0xE2, 0x80, 0x82], [0xE2, 0x80, 0x83],
    [0xE2, 0x80, 0x84], [0xE2, 0x80, 0x85], [0xE2, 0x80, 0x86], [0xE2, 0x80, 0x87],
    [0xE2, 0x80, 0x88], [0xE2, 0x80, 0x89], [0xE2, 0x80, 0x8A], [0xE2, 0x80, 0xA8],
    [0xE2, 0x80, 0xA9], [0xE2, 0x80, 0xAF], [0xE2, 0x81, 0x9F], [0xE3, 0x80, 0x80]]

/-- Cut off what starts the text as often as possible. -/
def trimFront (cut : List Bytes) : Nat → Bytes → Bytes
  | 0, text => text
  | fuel + 1, text =>
    match cut.find? (·.isPrefixOf text) with
    | none => text
    | some space => trimFront cut fuel (text.drop space.length)

def trimSpace (text : Bytes) : Bytes :=
  let front := trimFront spaces text.length text
  (trimFront (spaces.map List.reverse) front.length front.reverse).reverse

/-- What one relayed line adds to the accounts; the flag is `usageFound`. -/
def account (dec : Decoder) (line : Bytes) : StreamResult × Bool → StreamResult × Bool
  | (result, usageFound) =>
    if !(asciiBytes "data: ").isPrefixOf line then (result, usageFound)
    else
      let payload := line.drop 6
      if trimSpace payload = asciiBytes "[DONE]" then (result, usageFound)
      else
        let (result, usageFound) :=
          match dec.chunk payload with
          | none => (result, usageFound)
          | some (contents, usage) =>
            let result := { result with fullContent := contents.foldl (· ++ ·) result.fullContent }
            match usage with
            | none => (result, usageFound)
            | some (prompt, completion) =>
              ({ result with promptTokens := prompt, completionTokens := completion }, true)
        if usageFound then (result, usageFound)
        else
          match dec.responseUsage payload with
          | none => (result, usageFound)
          | some (input, output) =>
            if 0 < input then
              ({ result with promptTokens := input, completionTokens := output }, true)
            else (result, usageFound)

/-- The estimate for a stream that carried no usage. -/
def estimate (result : StreamResult) : StreamResult :=
  let runes := result.fullContent.length
  { result with completionTokens := if runes = 0 then 0 else max 1 (runes / 2 : Nat) }

/-- The loop of `ForwardStream` over the lines of the scanner, which ends with `scanErr`. -/
def relay (dec : Decoder) (scanErr : Option GoError) :
    List Bytes → Recorder → StreamResult × Bool → Prog (StreamResult × Option GoError × Recorder)
  | [], w, (result, usageFound) =>
    pure (match scanErr with
      | some e => (result, some e, w)
      | none => (if usageFound then result else estimate result, none, w))
  | line :: lines, w, (result, usageFound) => do
    match ← Op.streamContextErr.run with
    | some ended => pure (result, some ended.err, w)
    | none =>
      let result := { result with rawLines := result.rawLines ++ [line] }
      let (err, w) ← w.write (line ++ [newline])
      match err with
      | some e => pure (result, some e, w)
      | none =>
        w.flush
        relay dec scanErr lines w (account dec line (result, usageFound))

def forwardStream (dec : Decoder) (w : Recorder) (resp : Response) :
    Prog (StreamResult × Option GoError × Recorder) :=
  let (lines, scanErr) := scan resp
  relay dec scanErr lines w ({}, false)

end LlmProxy.Proxy
