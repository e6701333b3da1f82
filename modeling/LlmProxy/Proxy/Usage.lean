import LlmProxy.Proxy.Stream
import LlmProxy.ProofKit.Json

/-! The usage that an upstream reports: the structs that `ForwardStream` reads a chunk into, the
shapes of a report, and what a line of a stream does to the token counts. -/

namespace LlmProxy

open ProofKit Program

/-- `json.Unmarshal` up to the reading into a variable: the value that a text stands for. -/
structure Unmarshaler where
  parse : Bytes → Option Json
  empty : parse [] = none

namespace Proxy

/-! ### Reading -/

/-- A struct with two counts. -/
def readCounts (first second : String) (held : Int × Int) (j : Json) : Option (Int × Int) := do
  let ms ← j.members
  let a ← Json.field [first, second] first Json.readInt held.1 ms
  let b ← Json.field [first, second] second Json.readInt held.2 ms
  some (a, b)

/-- An element of `Choices`. -/
def readChoice : String → Json → Option String :=
  Json.readMember "delta" (Json.readMember "content" Json.readString)

/-- The variable `chunk`. -/
def readChunk (j : Json) : Option (List String × Option (Int × Int)) := do
  let ms ← j.members
  let choices ← Json.field ["choices", "usage"] "choices" (Json.readSlice readChoice "") {} ms
  let usage ← Json.field ["choices", "usage"] "usage"
    (Json.readPointer (readCounts "prompt_tokens" "completion_tokens") (0, 0)) none ms
  some (choices.items, usage)

/-- The variable `sgChunk`. -/
def readSgChunk : Json → Option (Int × Int) :=
  Json.readMember "response" (Json.readMember "usage" (readCounts "input_tokens" "output_tokens"))
    (0, 0)

def decoder (u : Unmarshaler) : Decoder where
  chunk payload := (u.parse payload).bind readChunk
  responseUsage payload := (u.parse payload).bind readSgChunk

/-! ### Reports -/

inductive UsageShape
  | openAI
  | responses
  deriving DecidableEq

/-- A report with positive counts, whose sum is an `int`. -/
structure UsageReport where
  shape : UsageShape
  /-- Prompt or input tokens. -/
  prompt : Nat
  /-- Completion or output tokens. -/
  completion : Nat
  prompt_pos : 0 < prompt
  completion_pos : 0 < completion
  total_fits : prompt + completion < 2 ^ 63

/-- The names of the counts in either shape. -/
def countNames : List String :=
  ["prompt_tokens", "completion_tokens", "input_tokens", "output_tokens", "total_tokens"]

namespace UsageReport

def counts (r : UsageReport) : List (String × Nat) :=
  match r.shape with
  | .openAI => [("prompt_tokens", r.prompt), ("completion_tokens", r.completion),
      ("total_tokens", r.prompt + r.completion)]
  | .responses => [("input_tokens", r.prompt), ("output_tokens", r.completion),
      ("total_tokens", r.prompt + r.completion)]

def tokens (r : UsageReport) : Int × Int := (r.prompt, r.completion)

/-- The object has the counts of the report and no others; it may have other members. -/
def WrittenIn (r : UsageReport) (usage : List (String × Json)) : Prop :=
  ∀ name ∈ countNames,
    Json.called name usage = (r.counts.filter (·.1 = name)).map fun c => .num (formatInt c.2)

/-- What a variable for the count of this name holds after the report has been read. -/
def count (r : UsageReport) (name : String) : Int := ((r.counts.lookup name).getD 0 : Nat)

/-- A body that carries the report. -/
def InBody (u : Unmarshaler) (r : UsageReport) (body : Bytes) : Prop :=
  ∃ top usage, u.parse body = some (.obj top) ∧ Json.called "usage" top = [.obj usage] ∧
    r.WrittenIn usage

/-- A chunk that carries the report, where each shape has its own place for it.  The choices of a
chat chunk are as they should be. -/
def InChunk (u : Unmarshaler) (r : UsageReport) (payload : Bytes) : Prop :=
  ∃ top usage, u.parse payload = some (.obj top) ∧ r.WrittenIn usage ∧
    match r.shape with
    | .openAI => Json.called "usage" top = [.obj usage] ∧
        ((Json.called "choices" top).foldlM (Json.readSlice readChoice "") {}).isSome
    | .responses => Json.called "usage" top = [] ∧
        ∃ response, Json.called "response" top = [.obj response] ∧
          Json.called "usage" response = [.obj usage]

def InLine (u : Unmarshaler) (r : UsageReport) (line : Bytes) : Prop :=
  ∃ payload, line = asciiBytes "data: " ++ payload ∧ trimSpace payload ≠ asciiBytes "[DONE]" ∧
    r.InChunk u payload

end UsageReport

/-- The payload of a data line, if it is not the mark of the end. -/
def payload (line : Bytes) : Option Bytes :=
  if (asciiBytes "data: ").isPrefixOf line ∧ trimSpace (line.drop 6) ≠ asciiBytes "[DONE]" then
    some (line.drop 6)
  else none

/-- The counts that the accounting takes from a line. -/
def takenUsage (dec : Decoder) (usageFound : Bool) (line : Bytes) : Option (Int × Int) := do
  let payload ← payload line
  match (dec.chunk payload).bind (·.2) with
  | some usage => some usage
  | none => if usageFound then none else (dec.responseUsage payload).filter (0 < ·.1)

/-- Whether the accounting takes counts from the line when it has none yet. -/
def carriesUsage (dec : Decoder) (line : Bytes) : Bool := (takenUsage dec false line).isSome

/-- A stream in which one line carries the report and no other line any usage. -/
def UsageReport.InStream (u : Unmarshaler) (r : UsageReport) (lines : List Bytes) : Prop :=
  ∃ before line after, lines = before ++ line :: after ∧ r.InLine u line ∧
    (∀ l ∈ before, carriesUsage (decoder u) l = false) ∧
    ∀ l ∈ after, carriesUsage (decoder u) l = false

/-! ### What is read of a report -/

section Reading

variable {u : Unmarshaler} {r : UsageReport}

/-- Where the counts of a report are found. -/
theorem UsageReport.count_openAI (hshape : r.shape = .openAI) :
    (r.count "prompt_tokens", r.count "completion_tokens") = r.tokens := by
  simp [UsageReport.count, UsageReport.counts, hshape, List.lookup_cons, UsageReport.tokens]

theorem UsageReport.count_responses (hshape : r.shape = .responses) :
    (r.count "input_tokens", r.count "output_tokens") = r.tokens ∧ r.count "prompt_tokens" = 0 := by
  simp [UsageReport.count, UsageReport.counts, hshape, List.lookup_cons, UsageReport.tokens]

theorem readInt_count {n : Nat} (h : n < 2 ^ 63) (held : Int) :
    Json.readInt held (.num (formatInt n)) = some (n : Int) :=
  parseInt?_formatInt h

/-- A variable for a count of the report holds it, and another variable nothing. -/
theorem UsageReport.WrittenIn.read {usage : List (String × Json)} (h : r.WrittenIn usage)
    {name : String} (hname : name ∈ countNames) :
    (Json.called name usage).foldlM Json.readInt 0 = some (r.count name) := by
  have hfits := r.total_fits
  have hp := readInt_count (n := r.prompt) (by omega) 0
  have hc := readInt_count (n := r.completion) (by omega) 0
  have ht := readInt_count hfits 0
  rw [Int.natCast_add] at ht
  rw [h name hname]
  simp only [countNames, List.mem_cons, List.not_mem_nil, or_false] at hname
  unfold UsageReport.count UsageReport.counts
  cases r.shape <;> rcases hname with rfl | rfl | rfl | rfl | rfl <;>
    simp [hp, hc, ht, List.lookup_cons]

theorem UsageReport.WrittenIn.field {usage : List (String × Json)} (h : r.WrittenIn usage)
    {names : List String} (hdistinct : (names.map Json.foldName).Nodup) {name : String}
    (hfield : name ∈ names) (hname : name ∈ countNames) :
    Json.field names name Json.readInt 0 usage = some (r.count name) := by
  rw [Json.field_eq hdistinct hfield]
  exact h.read hname

theorem readCounts_report {usage : List (String × Json)} (h : r.WrittenIn usage)
    (first second : String) (hfirst : first ∈ countNames) (hsecond : second ∈ countNames)
    (hdistinct : ([first, second].map Json.foldName).Nodup) :
    readCounts first second (0, 0) (.obj usage) = some (r.count first, r.count second) := by
  simp only [readCounts, Json.members]
  simp [h.field hdistinct (by simp) hfirst, h.field hdistinct (by simp) hsecond]

theorem readChunk_obj (top : List (String × Json)) :
    readChunk (.obj top) = (do
      let choices ← (Json.called "choices" top).foldlM (Json.readSlice readChoice "") {}
      let usage ← (Json.called "usage" top).foldlM
        (Json.readPointer (readCounts "prompt_tokens" "completion_tokens") (0, 0)) none
      some (choices.items, usage)) := by
  have hdistinct : (["choices", "usage"].map Json.foldName).Nodup := by decide
  have hchoices : "choices" ∈ ["choices", "usage"] := by decide
  have husage : "usage" ∈ ["choices", "usage"] := by decide
  rw [readChunk]
  simp only [Json.members, Json.field_eq hdistinct hchoices, Json.field_eq hdistinct husage]
  rfl

/-- A chat chunk with a report gives its counts. -/
theorem chunk_report (hshape : r.shape = .openAI) {payload : Bytes} (h : r.InChunk u payload) :
    ∃ contents, (decoder u).chunk payload = some (contents, some r.tokens) := by
  obtain ⟨top, usage, hparse, hwritten, hplace⟩ := h
  simp only [hshape] at hplace
  obtain ⟨husage, hchoices⟩ := hplace
  obtain ⟨choices, hread⟩ := Option.isSome_iff_exists.mp hchoices
  have hcounts :=
    readCounts_report hwritten "prompt_tokens" "completion_tokens" (by decide) (by decide)
      (by decide)
  rw [UsageReport.count_openAI hshape] at hcounts
  refine ⟨choices.items, ?_⟩
  simp [decoder, hparse, readChunk_obj, hread, husage, Json.readPointer, hcounts]

/-- An event with a report has no usage of a chat chunk, and gives its counts to the other
reading. -/
theorem sgChunk_report (hshape : r.shape = .responses) {payload : Bytes} (h : r.InChunk u payload) :
    ((decoder u).chunk payload).bind (·.2) = none ∧
      (decoder u).responseUsage payload = some r.tokens := by
  obtain ⟨top, usage, hparse, hwritten, hplace⟩ := h
  simp only [hshape] at hplace
  obtain ⟨hnone, response, hresponse, husage⟩ := hplace
  constructor
  · cases hchoices : (Json.called "choices" top).foldlM (Json.readSlice readChoice "") {} with
    | none => simp [decoder, hparse, readChunk_obj, hchoices]
    | some choices => simp [decoder, hparse, readChunk_obj, hchoices, hnone]
  · have hread := readCounts_report hwritten "input_tokens" "output_tokens" (by decide) (by decide)
      (by decide)
    rw [(UsageReport.count_responses hshape).1] at hread
    have hread' : (decoder u).responseUsage payload = readSgChunk (.obj top) := by
      simp [decoder, hparse]
    rw [hread', readSgChunk, Json.readMember_of_called hresponse, Json.readMember_of_called husage,
      hread]

end Reading

/-! ### The counts of a stream -/

/-- The counts in the accounts, and whether an upstream has reported them. -/
def counted (acc : StreamResult × Bool) : (Int × Int) × Bool :=
  ((acc.1.promptTokens, acc.1.completionTokens), acc.2)

/-- What a line does to the counts. -/
def countLine (dec : Decoder) (held : (Int × Int) × Bool) (line : Bytes) : (Int × Int) × Bool :=
  match takenUsage dec held.2 line with
  | some usage => (usage, true)
  | none => held

/-- What a line adds to the accounts: the contents of its chunk, and the usage that is taken from
it. -/
theorem account_eq (dec : Decoder) (line : Bytes) (result : StreamResult) (usageFound : Bool) :
    account dec line (result, usageFound) =
      let contents := ((payload line).bind dec.chunk).elim [] (·.1)
      let result := { result with fullContent := contents.foldl (· ++ ·) result.fullContent }
      match takenUsage dec usageFound line with
      | some (prompt, completion) =>
        ({ result with promptTokens := prompt, completionTokens := completion }, true)
      | none => (result, usageFound) := by
  by_cases hdata : (asciiBytes "data: ").isPrefixOf line
  · by_cases hdone : trimSpace (line.drop 6) = asciiBytes "[DONE]"
    · simp [takenUsage, payload, account, hdone]
    · have hpayload : payload line = some (line.drop 6) := if_pos ⟨hdata, hdone⟩
      simp only [account, hdata, hdone, takenUsage, hpayload]
      -- A usage in the chunk is taken; without one it matters whether there are counts already.
      rcases hchunk : dec.chunk (line.drop 6) with - | ⟨contents, - | usage⟩
      · cases usageFound
        · rcases hresponse : dec.responseUsage (line.drop 6) with - | ⟨input, output⟩
          · simp [hchunk, hresponse]
          · by_cases hinput : 0 < input <;> simp [hchunk, hresponse, hinput, Option.filter]
        · simp [hchunk]
      · cases usageFound
        · rcases hresponse : dec.responseUsage (line.drop 6) with - | ⟨input, output⟩
          · simp [hchunk, hresponse]
          · by_cases hinput : 0 < input <;> simp [hchunk, hresponse, hinput, Option.filter]
        · simp [hchunk]
      · simp [hchunk]
  · simp [takenUsage, payload, account, hdata]

/-- The rest of the accounts plays no part. -/
theorem counted_account (dec : Decoder) (line : Bytes) (acc : StreamResult × Bool) :
    counted (account dec line acc) = countLine dec (counted acc) line := by
  obtain ⟨result, usageFound⟩ := acc
  rw [account_eq, countLine, counted, counted]
  cases takenUsage dec usageFound line <;> rfl

theorem takenUsage_of_not_carries {dec : Decoder} {line : Bytes} (h : carriesUsage dec line = false)
    (usageFound : Bool) : takenUsage dec usageFound line = none := by
  rw [carriesUsage, Option.isSome_eq_false_iff, Option.isNone_iff_eq_none] at h
  cases usageFound with
  | false => exact h
  | true =>
    unfold takenUsage at h ⊢
    cases hp : payload line with
    | none => rfl
    | some p =>
      rw [hp] at h
      cases hc : (dec.chunk p).bind (·.2) with
      | none => simp [hc]
      | some usage => simp [hc] at h

/-- Lines without usage leave the counts alone. -/
theorem foldl_countLine_silent {dec : Decoder} {lines : List Bytes}
    (h : ∀ line ∈ lines, carriesUsage dec line = false) (held : (Int × Int) × Bool) :
    lines.foldl (countLine dec) held = held := by
  induction lines with
  | nil => rfl
  | cons line rest ih =>
    have hline : countLine dec held line = held := by
      rw [countLine, takenUsage_of_not_carries (h line (by simp))]
    rw [List.foldl_cons, hline]
    exact ih fun l hl => h l (by simp [hl])

theorem takenUsage_report {u : Unmarshaler} {r : UsageReport} {line : Bytes} (h : r.InLine u line) :
    takenUsage (decoder u) false line = some r.tokens := by
  obtain ⟨text, rfl, hdone, hchunk⟩ := h
  have hdrop : (asciiBytes "data: " ++ text).drop 6 = text := List.drop_left' (by decide)
  have hpayload : payload (asciiBytes "data: " ++ text) = some text := by
    rw [payload, hdrop, if_pos ⟨by simp, hdone⟩]
  rw [takenUsage, hpayload]
  cases hshape : r.shape with
  | openAI =>
    obtain ⟨contents, hread⟩ := chunk_report hshape hchunk
    simp [hread]
  | responses =>
    obtain ⟨hnone, hread⟩ := sgChunk_report hshape hchunk
    have hpos : 0 < r.tokens.1 := by
      have := r.prompt_pos
      simp only [UsageReport.tokens]
      omega
    simp [hnone, hread, hpos, Option.filter]

/-- A stream with one report ends with its counts. -/
theorem foldl_countLine_report {u : Unmarshaler} {r : UsageReport} {lines : List Bytes}
    (h : r.InStream u lines) : lines.foldl (countLine (decoder u)) ((0, 0), false) =
      (r.tokens, true) := by
  obtain ⟨before, line, after, rfl, hline, hbefore, hafter⟩ := h
  have hreport : countLine (decoder u) ((0, 0), false) line = (r.tokens, true) := by
    rw [countLine, takenUsage_report hline]
  rw [List.foldl_append, foldl_countLine_silent hbefore, List.foldl_cons, hreport,
    foldl_countLine_silent hafter]

/-! ### The accounts of a stream -/

/-- The accounts after one relayed line. -/
def relayStep (dec : Decoder) (acc : StreamResult × Bool) (line : Bytes) : StreamResult × Bool :=
  account dec line ({ acc.1 with rawLines := acc.1.rawLines ++ [line] }, acc.2)

/-- The result that the accounts of a whole stream give. -/
def settled (acc : StreamResult × Bool) : StreamResult := if acc.2 then acc.1 else estimate acc.1

theorem counted_foldl (dec : Decoder) (lines : List Bytes) (acc : StreamResult × Bool) :
    counted (lines.foldl (relayStep dec) acc) = lines.foldl (countLine dec) (counted acc) := by
  induction lines generalizing acc with
  | nil => rfl
  | cons line lines ih =>
    rw [List.foldl_cons, ih, relayStep, counted_account]
    rfl

/-- A relay that ends without an error has gone through all its lines, and so has the scanner. -/
theorem relay_settled {A : (op : Op) → op.Ans → Prop} (dec : Decoder) (scanErr : Option GoError)
    (lines : List Bytes) (w : Worker.Recorder) (acc : StreamResult × Bool) :
    (relay dec scanErr lines w acc).Ensures A fun out => out.2.1 = none →
      scanErr = none ∧ out.1 = settled (lines.foldl (relayStep dec) acc) := by
  induction lines generalizing w acc with
  | nil =>
    obtain ⟨result, usageFound⟩ := acc
    apply ensures_done
    cases scanErr with
    | some e => exact fun h => (by cases h)
    | none => exact fun _ => ⟨rfl, rfl⟩
  | cons line lines ih =>
    obtain ⟨result, usageFound⟩ := acc
    apply ensures_run
    intro ended _
    cases ended with
    | some how => exact ensures_done fun h => (by cases h)
    | none =>
      refine ensures_bind fun written => ?_
      obtain ⟨err, w'⟩ := written
      cases err with
      | some e => exact ensures_done fun h => (by cases h)
      | none => exact ensures_bind fun _ => ih w' _

end Proxy

end LlmProxy
