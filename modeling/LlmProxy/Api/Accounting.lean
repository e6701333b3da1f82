import LlmProxy.Worker.Reported

/-! What `OpenAIHandler.forward` makes of a result: the token counts that it records in the metrics,
in the rate limiter and in the log. -/

namespace LlmProxy.Api

open ProofKit Worker Queue Proxy

structure Tokens where
  prompt : Int := 0
  completion : Int := 0
  total : Int := 0
  deriving DecidableEq

/-- The struct in the variable `usage`. -/
def readUsage (held : Tokens) (j : Json) : Option Tokens := do
  let ms ← j.members
  let names := ["prompt_tokens", "completion_tokens", "total_tokens"]
  let prompt ← Json.field names "prompt_tokens" Json.readInt held.prompt ms
  let completion ← Json.field names "completion_tokens" Json.readInt held.completion ms
  let total ← Json.field names "total_tokens" Json.readInt held.total ms
  some { prompt, completion, total }

/-- The counts of a result, from its body if it has no total. -/
def trackedTokens (u : Unmarshaler) (result : ExecutionResult) : Tokens :=
  let held : Tokens := ⟨result.promptTokens, result.completionTokens, result.totalTokens⟩
  if result.totalTokens ≤ 0 ∧ result.body ≠ [] then
    match (u.parse result.body).bind (Json.readMember "usage" readUsage {}) with
    | none => held
    | some usage => if 0 < usage.total then usage else held
  else held

/-- The counts that are recorded for a request: `AddTokens` for the prompt and for the completion,
`RecordTokens`, and the columns of the request log. -/
structure Recorded where
  metrics : Option (Int × Int)
  limiter : Option Int
  log : Tokens
  deriving DecidableEq

def recorded (u : Unmarshaler) (result : ExecutionResult) : Recorded :=
  let tokens := trackedTokens u result
  { metrics := if 0 < tokens.total then some (tokens.prompt, tokens.completion) else none
    limiter := if 0 < tokens.total then some tokens.total else none
    log := tokens }

/-! ### Reports in bodies -/

section

variable {u : Unmarshaler} {r : UsageReport} {result : ExecutionResult}

theorem readUsage_report {usage : List (String × Json)} (h : r.WrittenIn usage) :
    readUsage {} (.obj usage) =
      some ⟨r.count "prompt_tokens", r.count "completion_tokens", r.count "total_tokens"⟩ := by
  have hdistinct :
      (["prompt_tokens", "completion_tokens", "total_tokens"].map Json.foldName).Nodup := by decide
  simp only [readUsage, Json.members]
  simp [h.field hdistinct (by decide) (show "prompt_tokens" ∈ countNames by decide),
    h.field hdistinct (by decide) (show "completion_tokens" ∈ countNames by decide),
    h.field hdistinct (by decide) (show "total_tokens" ∈ countNames by decide)]

/-- The total is in both shapes, and always positive. -/
theorem count_total (r : UsageReport) : r.count "total_tokens" = r.tokens.1 + r.tokens.2 := by
  rcases r with ⟨shape, prompt, completion, -, -, -⟩
  cases shape <;> simp [UsageReport.count, UsageReport.counts, UsageReport.tokens, List.lookup_cons]

theorem tokens_pos (r : UsageReport) : 0 < r.tokens.1 ∧ 0 < r.tokens.2 := by
  have hp := r.prompt_pos
  have hc := r.completion_pos
  simp only [UsageReport.tokens]
  omega

/-- What is tracked of a result with a body that carries a report. -/
theorem trackedTokens_body (htotal : result.totalTokens = 0) (hbody : r.InBody u result.body) :
    trackedTokens u result =
      ⟨r.count "prompt_tokens", r.count "completion_tokens", r.tokens.1 + r.tokens.2⟩ := by
  obtain ⟨top, usage, hparse, husage, hwritten⟩ := hbody
  have hne : result.body ≠ [] := by
    intro hempty
    rw [hempty, u.empty] at hparse
    cases hparse
  have hread : (u.parse result.body).bind (Json.readMember "usage" readUsage {}) =
      some ⟨r.count "prompt_tokens", r.count "completion_tokens", r.tokens.1 + r.tokens.2⟩ := by
    rw [hparse, Option.bind_some, Json.readMember_of_called husage, readUsage_report hwritten,
      count_total]
  have hpos : 0 < r.tokens.1 + r.tokens.2 := by
    have := tokens_pos r
    omega
  rw [trackedTokens, if_pos ⟨by omega, hne⟩, hread]
  simp [hpos]

/-- What is tracked of a result with the counts of a stream. -/
theorem trackedTokens_stream
    (htokens : (result.promptTokens, result.completionTokens) = r.tokens)
    (htotal : result.totalTokens = r.tokens.1 + r.tokens.2) :
    trackedTokens u result = ⟨r.tokens.1, r.tokens.2, r.tokens.1 + r.tokens.2⟩ := by
  have hpos := tokens_pos r
  obtain ⟨hp, hc⟩ := Prod.mk.inj htokens
  rw [trackedTokens, if_neg (by omega), hp, hc, htotal]
  rfl

end

/-! ### Streams and bodies -/

theorem recorded_inj {u : Unmarshaler} {result result' : ExecutionResult} :
    recorded u result = recorded u result' ↔ trackedTokens u result = trackedTokens u result' := by
  constructor
  · intro h
    exact congrArg Recorded.log h
  · intro h
    simp only [recorded, h]

/-- A report that comes in a stream and one that comes in a body are recorded alike exactly when
they have the shape of a chat completion. -/
theorem recorded_alike_iff {u : Unmarshaler} (r : UsageReport) {cfg cfg' : WorkerConfig}
    {req req' : PendingRequest} {σ τ : Type} {streaming : (op : Op) → σ → op.Ans × σ}
    {plain : (op : Op) → τ → op.Ans × τ} (s : σ) (t : τ)
    (hstream : ∀ op s, UpstreamAnswers true (fun resp => r.InStream u (scan resp).1) op
      (streaming op s).1)
    (hplain : ∀ op t, UpstreamAnswers false (fun resp => r.InBody u resp.body) op (plain op t).1)
    (hstreamed : ((forwardWithRetry (decoder u) cfg req).eval streaming s).1.error = "")
    (hdone : ((forwardWithRetry (decoder u) cfg' req').eval plain t).1.error = "") :
    recorded u ((forwardWithRetry (decoder u) cfg req).eval streaming s).1 =
      recorded u ((forwardWithRetry (decoder u) cfg' req').eval plain t).1 ↔ r.shape = .openAI := by
  obtain ⟨htokens, htotal, -⟩ := (streamed_result req).eval hstream s hstreamed
  obtain ⟨hzero, hbody⟩ := (plain_result req').eval hplain t hdone
  rw [recorded_inj, trackedTokens_stream htokens htotal, trackedTokens_body hzero hbody]
  have hpos := tokens_pos r
  cases hshape : r.shape with
  | openAI =>
    obtain ⟨hp, hc⟩ := Prod.mk.inj (UsageReport.count_openAI hshape)
    rw [hp, hc]
    simp [UsageReport.tokens]
  | responses =>
    simp only [Tokens.mk.injEq, (UsageReport.count_responses hshape).2, reduceCtorEq, iff_false]
    omega

/-! ### A report of seven and five tokens -/

/-- The object of a report. -/
def usageObject (r : UsageReport) : List (String × Json) :=
  r.counts.map fun c => (c.1, .num (formatInt c.2))

theorem counts_names (r : UsageReport) : ∀ c ∈ r.counts, c.1 ∈ countNames := by
  unfold UsageReport.counts
  cases r.shape <;> simp [countNames]

theorem usageObject_written (r : UsageReport) : r.WrittenIn (usageObject r) := by
  intro name hname
  have hdistinct : (countNames.map Json.foldName).Nodup := by decide
  have hsame : ∀ c ∈ r.counts,
      decide (Json.foldName c.1 = Json.foldName name) = decide (c.1 = name) := by
    intro c hc
    refine decide_eq_decide.mpr ⟨fun h => ?_, fun h => h ▸ rfl⟩
    exact List.inj_on_of_nodup_map hdistinct (counts_names r c hc) hname h
  simp only [Json.called, usageObject, List.filter_map, List.map_map]
  exact congrArg (List.map _) (List.filter_congr hsame)

/-- A body or a chunk with top-level usage. -/
def usageText : UsageShape → Bytes
  | .openAI => asciiBytes
      "\x7b\"usage\":\x7b\"prompt_tokens\":7,\"completion_tokens\":5,\"total_tokens\":12\x7d\x7d"
  | .responses => asciiBytes
      "\x7b\"usage\":\x7b\"input_tokens\":7,\"output_tokens\":5,\"total_tokens\":12\x7d\x7d"

/-- The event of the other shape. -/
def responseText : Bytes :=
  asciiBytes "\x7b\"response\":" ++ usageText .responses ++ asciiBytes "\x7d"

def sevenAndFive (shape : UsageShape) : UsageReport :=
  ⟨shape, 7, 5, by decide, by decide, by decide⟩

/-- The values of these texts. -/
def sampleUnmarshaler : Unmarshaler where
  parse text :=
    let top (shape : UsageShape) : Json := .obj [("usage", .obj (usageObject (sevenAndFive shape)))]
    if text = usageText .openAI then some (top .openAI)
    else if text = usageText .responses then some (top .responses)
    else if text = responseText then some (.obj [("response", top .responses)])
    else none
  empty := by decide

theorem parse_chat : sampleUnmarshaler.parse (usageText .openAI) =
    some (.obj [("usage", .obj (usageObject (sevenAndFive .openAI)))]) := by
  simp only [sampleUnmarshaler, if_true]

/-- One candidate, which answers so. -/
def answeredWith (streaming : Bool) (body : Bytes) : Inputs where
  candidates := [{ id := "n" }]
  choice _ := 0
  outcome _ := ⟨.ok ⟨streaming⟩, .ok { statusCode := 200, body }, fun _ => none⟩

def runOn (streaming : Bool) (body : Bytes) : ExecutionResult :=
  (runIn (answeredWith streaming body)
    (forwardWithRetry (decoder sampleUnmarshaler) ⟨3, 0⟩ { addr := 1 }) {}).1

theorem answeredWith_answers {P : Response → Prop} {streaming : Bool} {body : Bytes}
    (h : P { statusCode := 200, body }) (op : Op) (s : World) :
    UpstreamAnswers streaming P op (World.answer (answeredWith streaming body) op s).1 := by
  cases op with
  | prepare node =>
    rintro _ ⟨⟩
    rfl
  | roundTrip node request =>
    rintro _ ⟨⟩ -
    exact h
  | _ => trivial

theorem chat_inStream :
    (sevenAndFive .openAI).InStream sampleUnmarshaler
      (scan { statusCode := 200, body := asciiBytes "data: " ++ usageText .openAI }).1 := by
  obtain ⟨hscan, hdone⟩ :
    (scan { statusCode := 200, body := asciiBytes "data: " ++ usageText .openAI }).1 =
      [asciiBytes "data: " ++ usageText .openAI] ∧
      trimSpace (usageText .openAI) ≠ asciiBytes "[DONE]" := by decide +kernel
  refine ⟨[], _, [], hscan, ⟨usageText .openAI, rfl, hdone, ?_⟩, by simp, by simp⟩
  exact ⟨_, _, parse_chat, usageObject_written _, rfl, rfl⟩

theorem chat_inBody : (sevenAndFive .openAI).InBody sampleUnmarshaler (usageText .openAI) :=
  ⟨_, _, parse_chat, rfl, usageObject_written _⟩

theorem recorded_alike_chat :
    recorded sampleUnmarshaler (runOn true (asciiBytes "data: " ++ usageText .openAI)) =
      recorded sampleUnmarshaler (runOn false (usageText .openAI)) := by
  obtain ⟨hstreamed, hdone⟩ : (runOn true (asciiBytes "data: " ++ usageText .openAI)).error = "" ∧
      (runOn false (usageText .openAI)).error = "" := by decide +kernel
  unfold runOn runIn at hstreamed hdone ⊢
  exact (recorded_alike_iff (sevenAndFive .openAI) _ _ (answeredWith_answers chat_inStream)
    (answeredWith_answers chat_inBody) hstreamed hdone).mpr rfl

/-- The Responses shape: in a body the prompt and the completion are lost. -/
theorem responses_body_unsplit :
    recorded sampleUnmarshaler (runOn true (asciiBytes "data: " ++ responseText)) =
        ⟨some (7, 5), some 12, ⟨7, 5, 12⟩⟩ ∧
      recorded sampleUnmarshaler (runOn false (usageText .responses)) =
        ⟨some (0, 0), some 12, ⟨0, 0, 12⟩⟩ := by
  decide +kernel

end LlmProxy.Api
