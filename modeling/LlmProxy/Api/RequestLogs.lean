import LlmProxy.Api.Accounting
import LlmProxy.Logging.AsyncLogger
import LlmProxy.Storage.Logs

/-! The way of a request into the log store: the identifier that `traceMiddleware` gives it, the log
that the handler writes when it has a result, the pipeline of `AsyncLogger`, and the table. -/

namespace LlmProxy.Api

open ProofKit Worker Queue Proxy Storage Logging

/-- `traceMiddleware`: the client may name its request; `generated` is what `GenerateID` returns. -/
def traceID (header : Header) (generated : String) : String :=
  let rid := (header.get "X-Request-Id").headD ""
  if rid = "" then generated else rid

def sessionID (header : Header) : String := (header.get "X-Session-Id").headD ""

/-- A request that got a result from the worker, with all that its log is made of. -/
structure Completed where
  header : Header
  generated : String
  startTime : Instant
  apiKeyID : String := ""
  modelAlias : String := ""
  isStream : Bool := false
  result : ExecutionResult
  durationMs : Int := 0

namespace Completed

def requestID (c : Completed) : String := traceID c.header c.generated

/-- The log that `forward` passes to `AsyncLog`. -/
def requestLog (u : Unmarshaler) (c : Completed) : RequestLog :=
  let tokens := trackedTokens u c.result
  { id := c.requestID
    sessionID := sessionID c.header
    timestamp := c.startTime
    apiKeyID := c.apiKeyID
    modelAlias := c.modelAlias
    nodeID := c.result.finalNodeID
    promptTokens := tokens.prompt
    completionTokens := tokens.completion
    totalTokens := tokens.total
    durationMs := c.durationMs
    statusCode := c.result.statusCode
    stream := c.isStream
    errorMsg := c.result.error
    hasDetail := true }

end Completed

/-- The table `request_logs` after the bulk inserts, none of which fails, into an empty table. -/
def storedLogs (s : AsyncLogger RequestLog DetailLog) : Logs :=
  s.reqs.inserted.foldl bulkInsertRequestLogs Keyed.empty

theorem storedLogs_eq (s : AsyncLogger RequestLog DetailLog) :
    storedLogs s = s.reqs.inserted.flatten.foldl Keyed.insertNew Keyed.empty := by
  rw [storedLogs, List.foldl_flatten]
  rfl

section

variable {u : Unmarshaler} {bufferSize : Nat} {s : AsyncLogger RequestLog DetailLog}
  {requests : List Completed}

/-- Fewer rows than requests if an accepted log has not come to a bulk insert, or two requests have
the same identifier. -/
theorem length_storedLogs_iff
    (hlogged : s.reqs.accepted.Perm (requests.map (Completed.requestLog u)))
    (hplaces : s.reqs.accepted.Perm (s.waitingReqs ++ s.reqs.inserted.flatten)) :
    (storedLogs s).rows.length = requests.length ↔
      s.waitingReqs = [] ∧ (requests.map Completed.requestID).Nodup := by
  have hperm := hplaces.symm.trans hlogged
  have hlen : s.waitingReqs.length + s.reqs.inserted.flatten.length = requests.length := by
    rw [← List.length_append, hperm.length_eq, List.length_map]
  have hids (hnone : s.waitingReqs = []) : (s.reqs.inserted.flatten.map RequestLog.id).Nodup ↔
      (requests.map Completed.requestID).Nodup := by
    rw [hnone, List.nil_append] at hperm
    have hmap := (hperm.map RequestLog.id).nodup_iff
    rwa [List.map_map] at hmap
  have hrows := @Keyed.length_foldl_insertNew _ _ RequestLog.id _ s.reqs.inserted.flatten
  rw [storedLogs_eq]
  constructor
  · intro hall
    obtain ⟨ys, hsub, hys⟩ := Keyed.exists_foldl_insertNew s.reqs.inserted.flatten
      (Keyed.empty : Keyed RequestLog.id)
    have hle := hsub.length_le
    have hsame : (s.reqs.inserted.flatten.foldl Keyed.insertNew
        (Keyed.empty : Keyed RequestLog.id)).rows.length = ys.length := congrArg List.length hys
    have hnone : s.waitingReqs = [] := List.eq_nil_of_length_eq_zero (by omega)
    exact ⟨hnone, (hids hnone).mp (hrows.mp (by omega))⟩
  · rintro ⟨hnone, hnodup⟩
    rw [hrows.mpr ((hids hnone).mpr hnodup), ← hlen, hnone, List.length_nil, Nat.zero_add]

/-- Once the logger is closed, and whatever its parties have done: every request that got a result
has its row, and `Stats` counts and sums them up, exactly when no accepted log is left in the
channel, the batch or a call of `Flush` and no two requests have the same identifier; the number
alone is right only then.  No log is left when nothing was logged once `Close` had begun and every
`Flush` had returned. -/
theorem all_stored_iff (like : String → String → Bool)
    (hs : (AsyncLogger.system RequestLog DetailLog bufferSize).Reachable System.always s)
    (hclosed : s.closed = true) (hroom : s.reqs.dropped = [])
    (hlogged : (s.reqs.accepted ++ s.reqs.dropped.map (·.1)).Perm
      (requests.map (Completed.requestLog u))) :
    ((storedLogs s).rows.Perm (requests.map (Completed.requestLog u)) ∧
        stats like (storedLogs s) {} = statsOf (requests.map (Completed.requestLog u)) ↔
      s.waitingReqs = [] ∧ (requests.map Completed.requestID).Nodup) ∧
    ((stats like (storedLogs s) {}).totalRequests = requests.length ↔
      s.waitingReqs = [] ∧ (requests.map Completed.requestID).Nodup) ∧
    ((AsyncLogger.system RequestLog DetailLog bufferSize).Reachable AsyncLogger.Orderly s →
      s.waitingReqs = []) := by
  rw [hroom, List.map_nil, List.append_nil] at hlogged
  have hplaces : s.reqs.accepted.Perm (s.waitingReqs ++ s.reqs.inserted.flatten) :=
    (AsyncLogger.reachable_kept hs).reqs.accounted
  have hcount := length_storedLogs_iff hlogged hplaces
  rw [stats_unrestricted]
  refine ⟨⟨fun ⟨hrows, _⟩ => hcount.mp ?_, fun ⟨hnone, hnodup⟩ => ?_⟩, hcount,
    fun horderly => ((AsyncLogger.reachable_sound horderly).none_waiting hclosed).1⟩
  · rw [hrows.length_eq, List.length_map]
  · have hperm : s.reqs.inserted.flatten.Perm (requests.map (Completed.requestLog u)) := by
      rw [hnone, List.nil_append] at hplaces
      exact hplaces.symm.trans hlogged
    have hids : (s.reqs.inserted.flatten.map RequestLog.id).Nodup := by
      rw [(hperm.map RequestLog.id).nodup_iff, List.map_map]
      exact hnodup
    have hrows : (storedLogs s).rows = s.reqs.inserted.flatten := by
      rw [storedLogs_eq, Keyed.foldl_insertNew (by simpa [Keyed.empty] using hids)]
      rfl
    rw [hrows]
    exact ⟨hperm, statsOf_perm hperm⟩

end

/-! ### Two requests -/

/-- A request of twelve tokens with this header `X-Request-Id`. -/
def named (rid generated : String) : Completed where
  header := [("X-Request-Id", [rid])]
  generated := generated
  startTime := startOfDay
  result := { statusCode := 200, promptTokens := 7, completionTokens := 5, totalTokens := 12 }

/-- Both are logged, the worker takes both, and the logger is closed. -/
def logBoth (first second : RequestLog) : List (AsyncLogger.Action RequestLog DetailLog) :=
  [.asyncLog first false, .asyncLog second false, .requestWorker .receive, .requestWorker .receive,
    .close, .requestWorker .stop, .requestWorker .receive, .requestWorker .flush,
    .detailWorker .stop, .detailWorker .receive, .detailWorker .flush, .closeReturn]

/-- One of them has no header of its own. -/
theorem all_stored_two :
    ∃ s, (AsyncLogger.system RequestLog DetailLog 8).Reachable AsyncLogger.Orderly s ∧
      s.closed = true ∧ s.waitingReqs = [] ∧
        stats plainLike (storedLogs s) {} = ⟨2, 14, 10, 24⟩ := by
  let requests := [named "a" "5d6c", named "" "1f2e"]
  have hinit : (AsyncLogger.system RequestLog DetailLog 8).Reachable AsyncLogger.Orderly {} :=
    .init rfl
  obtain ⟨s, hs, hclosed, hdropped, haccepted⟩ := hinit.exists_of_exec
    (fun s : AsyncLogger RequestLog DetailLog => s.closed = true ∧ s.reqs.dropped = [] ∧
      s.reqs.accepted = requests.map (Completed.requestLog sampleUnmarshaler))
    (show System.Admits (AsyncLogger.next 8) AsyncLogger.Orderly {}
      (logBoth ((named "a" "5d6c").requestLog sampleUnmarshaler)
        ((named "" "1f2e").requestLog sampleUnmarshaler)) by decide +kernel) (by decide +kernel)
  have hlogged : (s.reqs.accepted ++ s.reqs.dropped.map (·.1)).Perm
      (requests.map (Completed.requestLog sampleUnmarshaler)) := by
    rw [haccepted, hdropped]
    simp
  obtain ⟨hall, -, hnone⟩ := all_stored_iff plainLike hs.to_always hclosed hdropped hlogged
  obtain ⟨-, hstats⟩ := hall.mpr ⟨hnone hs, by decide⟩
  exact ⟨s, hs, hclosed, hnone hs, hstats.trans (by decide +kernel)⟩

/-- Two clients that name their requests alike: both get their results, and one is not in the
log. -/
theorem same_id_lost :
    ∃ s, (AsyncLogger.system RequestLog DetailLog 8).Reachable AsyncLogger.Orderly s ∧
      s.closed = true ∧ s.reqs.dropped = [] ∧
      s.reqs.accepted = [named "a" "5d6c", named "a" "1f2e"].map
        (Completed.requestLog sampleUnmarshaler) ∧
      stats plainLike (storedLogs s) {} = ⟨1, 7, 5, 12⟩ := by
  have hinit : (AsyncLogger.system RequestLog DetailLog 8).Reachable AsyncLogger.Orderly {} :=
    .init rfl
  exact hinit.exists_of_exec
    (fun s : AsyncLogger RequestLog DetailLog => s.closed = true ∧ s.reqs.dropped = [] ∧
      s.reqs.accepted = [named "a" "5d6c", named "a" "1f2e"].map
        (Completed.requestLog sampleUnmarshaler) ∧
      stats plainLike (storedLogs s) {} = ⟨1, 7, 5, 12⟩)
    (show System.Admits (AsyncLogger.next 8) AsyncLogger.Orderly {}
      (logBoth ((named "a" "5d6c").requestLog sampleUnmarshaler)
        ((named "a" "1f2e").requestLog sampleUnmarshaler)) by decide +kernel) (by decide +kernel)

end LlmProxy.Api
