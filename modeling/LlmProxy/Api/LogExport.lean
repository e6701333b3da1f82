import LlmProxy.ProofKit.JsonText
import LlmProxy.Storage.LogRows

/-! `logExport`: the logs of `ExportLogs` as lines of JSON, and what a client that reads the lines
gets. -/

namespace LlmProxy.Api

open ProofKit Storage

/-- `json.Marshal` of a log, by the tags of `domain.RequestLog`. -/
def logJson (log : RequestLog) : Json :=
  .obj
    ([("id", .str log.id), ("session_id", .str log.sessionID),
      ("timestamp", .str log.timestamp.text), ("api_key_id", .str log.apiKeyID),
      ("model_alias", .str log.modelAlias), ("node_id", .str log.nodeID),
      ("actual_model", .str log.actualModel), ("prompt_tokens", .num (formatInt log.promptTokens)),
      ("completion_tokens", .num (formatInt log.completionTokens)),
      ("total_tokens", .num (formatInt log.totalTokens)),
      ("duration_ms", .num (formatInt log.durationMs)),
      ("status_code", .num (formatInt log.statusCode)), ("stream", .bool log.stream)] ++
      (if log.errorMsg = "" then [] else [("error_msg", .str log.errorMsg)]) ++
      [("has_detail", .bool log.hasDetail)])

/-- The body of the response, from the rows that the query returns. -/
def exportBody (rows : List RequestRow) : List Char :=
  Json.writeLines (rows.map fun row => logJson (scanRequestLog row))

/-! ### A client -/

def stringMember (ms : List (String × Json)) (name : String) : Option String :=
  match ms.lookup name with
  | some (.str s) => some s
  | _ => none

def intMember (ms : List (String × Json)) (name : String) : Option Int :=
  match ms.lookup name with
  | some (.num literal) => parseInt? literal
  | _ => none

def boolMember (ms : List (String × Json)) (name : String) : Option Bool :=
  match ms.lookup name with
  | some (.bool b) => some b
  | _ => none

/-- The log that an object stands for; `error_msg` is left out if it is empty. -/
def readLog : Json → Option RequestLog
  | .obj ms => do
    some
      { id := ← stringMember ms "id"
        sessionID := ← stringMember ms "session_id"
        timestamp := ← (stringMember ms "timestamp").bind parseRFC3339
        apiKeyID := ← stringMember ms "api_key_id"
        modelAlias := ← stringMember ms "model_alias"
        nodeID := ← stringMember ms "node_id"
        actualModel := ← stringMember ms "actual_model"
        promptTokens := ← intMember ms "prompt_tokens"
        completionTokens := ← intMember ms "completion_tokens"
        totalTokens := ← intMember ms "total_tokens"
        durationMs := ← intMember ms "duration_ms"
        statusCode := ← intMember ms "status_code"
        stream := ← boolMember ms "stream"
        errorMsg := (stringMember ms "error_msg").getD ""
        hasDetail := ← boolMember ms "has_detail" }
  | _ => none

def readExport (body : List Char) : Option (List RequestLog) :=
  (Json.readLines body).bind (·.mapM readLog)

/-- The counts of a log are Go's integers. -/
def MachineInts (log : RequestLog) : Prop :=
  FitsInt64 log.promptTokens ∧ FitsInt64 log.completionTokens ∧ FitsInt64 log.totalTokens ∧
    FitsInt64 log.durationMs ∧ FitsInt64 log.statusCode

theorem readLog_logJson {log : RequestLog} (h : MachineInts log) :
    readLog (logJson log) = some log := by
  obtain ⟨hprompt, hcompletion, htotal, hduration, hstatus⟩ := h
  by_cases hmsg : log.errorMsg = ""
  · simp [readLog, logJson, stringMember, intMember, boolMember, List.lookup_cons, hmsg,
      parseRFC3339_stored, parseInt?_formatInt_of_fits, hprompt, hcompletion, htotal, hduration,
      hstatus]
    rw [← hmsg]
  · simp [readLog, logJson, stringMember, intMember, boolMember, List.lookup_cons, hmsg,
      parseRFC3339_stored, parseInt?_formatInt_of_fits, hprompt, hcompletion, htotal, hduration,
      hstatus]

theorem wellFormed_logJson (log : RequestLog) :
    (logJson log).WellFormed ∧ (logJson log).depth ≤ Json.maxNestingDepth := by
  by_cases hmsg : log.errorMsg = ""
  · simp [logJson, hmsg, Json.WellFormed, Json.MembersWellFormed, Json.isNumber_formatInt,
      Json.depth, Json.membersDepth, Json.maxNestingDepth]
  · simp [logJson, hmsg, Json.WellFormed, Json.MembersWellFormed, Json.isNumber_formatInt,
      Json.depth, Json.membersDepth, Json.maxNestingDepth]

theorem readExport_exportBody {logs : List RequestLog} (hints : ∀ log ∈ logs, MachineInts log) :
    readExport (exportBody (logs.map requestRow)) = some logs := by
  have hrows : (logs.map requestRow).map (fun row => logJson (scanRequestLog row)) =
      logs.map logJson := by
    rw [List.map_map]
    exact List.map_congr_left fun log _ => congrArg logJson (scanRequestLog_requestRow log)
  have hlines : Json.readLines (exportBody (logs.map requestRow)) = some (logs.map logJson) := by
    rw [exportBody, hrows]
    refine Json.readLines_writeLines fun v hv => ?_
    obtain ⟨log, -, rfl⟩ := List.mem_map.mp hv
    exact wellFormed_logJson log
  rw [readExport, hlines, Option.bind_some, List.mapM_map]
  clear hrows hlines
  induction logs with
  | nil => rfl
  | cons log logs ih =>
    obtain ⟨hlog, hlogs⟩ := List.forall_mem_cons.mp hints
    rw [List.mapM_cons, ih hlogs, Function.comp_apply, readLog_logJson hlog]
    rfl

/-- One log, with every kind of character that is escaped in its message. -/
def awkwardLog : RequestLog :=
  { id := "a", timestamp := ⟨1, by decide⟩, promptTokens := -3,
    errorMsg := "<\"\n\t\\&\x01é\u2028>" }

end LlmProxy.Api
