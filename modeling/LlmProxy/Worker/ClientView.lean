import LlmProxy.Router
import LlmProxy.Worker.Tried

/-! What the client and the log see of a call of `forwardWithRetry`: its last attempt, passed on
while it runs, or held back and written at the end. -/

namespace LlmProxy.Worker

open ProofKit Logging Proxy Queue

/-! ### The last attempt -/

/-- Of at most `n` attempts from `attempt` on, this is the last one to be made when none breaks off
before the last. -/
structure LastAttempt (inp : Inputs) (attempt n k : Nat) : Prop where
  first : attempt ≤ k
  limit : k < attempt + n
  before : ∀ j, attempt ≤ j → j < k → (inp.outcome j).FailsEarly
  last : k + 1 = attempt + n ∨ ¬(inp.outcome k).FailsEarly

theorem LastAttempt.unique {inp : Inputs} {attempt n k k' : Nat} (h : LastAttempt inp attempt n k)
    (h' : LastAttempt inp attempt n k') : k = k' := by
  have hle {k k' : Nat} (h : LastAttempt inp attempt n k) (h' : LastAttempt inp attempt n k') :
      k' ≤ k := by
    by_contra hlt
    rcases h.last with hlast | hlast
    · have := h'.limit
      omega
    · exact hlast (h'.before k h.first (by omega))
  exact Nat.le_antisymm (hle h' h) (hle h h')

/-- A run up to its last attempt sends nothing. -/
structure EndsWith (inp : Inputs) (attempt n : Nat) (h : Header) (result : ExecutionResult)
    (events : List Event) (k : Nat) (node : ModelNode) (before : List Event) : Prop where
  last : LastAttempt inp attempt n k
  events_eq : events =
    before ++ .started k node :: (finalCalls (inp.outcome k) k h).map .client
  before_starts : ∀ e ∈ before, e.isStart = true
  status : result.statusCode = (inp.outcome k).verdict.2
  success : result.error = "" → ¬(inp.outcome k).Fails

theorem Course.endsWith {inp : Inputs} {ends : Nat → Option ContextEnd} {left attempt : Nat}
    {excluded : List String} {logs : List AttemptLog} {h : Header} {result : ExecutionResult}
    {events : List Event} (hc : Course inp ends left attempt excluded logs h result events)
    (hlive : ∀ j, ends j = none) {n : Nat} (hn : n = min left (remaining inp.candidates excluded))
    (hpos : 0 < n) (hno : NoBreakBeforeLast inp attempt n) :
    ∃ k node before, EndsWith inp attempt n h result events k node before := by
  induction hc generalizing n with
  | spent => omega
  | cancelled context => exact absurd (hlive _) context
  | noNode _ nodes =>
    have := remaining_eq_zero.mpr nodes
    omega
  | @success left attempt excluded logs h node log result _ _ _ ok error status _ =>
    refine ⟨attempt, node, [],
      ⟨Nat.le_refl _, by omega, fun j hj hlt => by omega, .inr fun hearly => ?_⟩, rfl, by
        simp, status, fun _ => ok⟩
    exact ok (Outcome.fails_of_failsEarly hearly)
  | @gaveUp left attempt excluded logs h node log _ picked _ fails last =>
    have hrem := remaining_exclude picked
    have hone : n = 1 := by
      rcases last with rfl | hnone
      · omega
      · have := remaining_eq_zero.mpr hnone
        omega
    refine ⟨attempt, node, [], ⟨Nat.le_refl _, by omega, fun j hj hlt => by omega, .inl (by omega)⟩,
      rfl, by simp, rfl, fun herror => ?_⟩
    exact absurd herror (ErrorType.text_ne_empty _)
  | @retried left attempt excluded logs h h' node log result events _ picked _ fails hleft
      hnodes header _ ih =>
    have hrem := remaining_exclude picked
    have hrest : remaining inp.candidates (node.id :: excluded) ≠ 0 := fun h =>
      hnodes (remaining_eq_zero.mp h)
    -- The attempt does not break off, since another one follows.
    have hearly : (inp.outcome attempt).FailsEarly := by
      by_contra hearly
      exact hno attempt (Nat.le_refl _) (by omega) (fun j hj hlt => by omega)
        (Outcome.breaksOff_iff_fails.mpr ⟨fails, hearly⟩)
    have hinterim := interimCalls_of_failsEarly attempt h hearly
    obtain rfl := header hinterim
    obtain rfl : n = min left (remaining inp.candidates (node.id :: excluded)) + 1 := by omega
    obtain ⟨k, last, before, hends⟩ := ih rfl (by omega) (hno.tail hearly)
    obtain ⟨hfirst, hlimit, hbefore, hlast⟩ := hends.last
    refine ⟨k, last, .started attempt node :: before,
      ⟨by omega, by omega, failsEarly_from hearly hbefore, ?_⟩, ?_, ?_, hends.status, hends.success⟩
    · rcases hlast with hlast | hlast
      · exact .inl (by omega)
      · exact .inr hlast
    · rw [hinterim, hends.events_eq]
      rfl
    · exact List.forall_mem_cons.mpr ⟨rfl, hends.before_starts⟩

/-! ### What the client gets -/

/-- The calls on the client's writer in a run. -/
def clientCalls (events : List Event) : List ClientCall :=
  events.filterMap fun
    | .client call => some call
    | .started .. => none

/-- The statuses that are passed to the client's writer. -/
def sentStatuses (events : List Event) : List Int :=
  (clientCalls events).filterMap fun
    | .writeHeader _ status _ => some status
    | .write .. => none

section

variable {events : List Event} {calls : List ClientCall} {k : Nat} {node : ModelNode}

theorem clientCalls_starts (h : ∀ e ∈ events, e.isStart = true) : clientCalls events = [] := by
  refine List.filterMap_eq_nil_iff.mpr fun e he => ?_
  cases e with
  | started => rfl
  | client call => cases h _ he

theorem clientCalls_map : clientCalls (calls.map .client) = calls := by
  rw [clientCalls, List.filterMap_map]
  exact List.filterMap_some

/-- What is seen of a run that sends nothing before its last attempt. -/
theorem clientCalls_eq {before : List Event} (h : ∀ e ∈ before, e.isStart = true) :
    clientCalls (before ++ .started k node :: calls.map .client) = calls := by
  have hstarted : clientCalls (.started k node :: calls.map .client) =
    clientCalls (calls.map .client) := rfl
  rw [clientCalls, List.filterMap_append, ← clientCalls, ← clientCalls, clientCalls_starts h,
    List.nil_append, hstarted, clientCalls_map]

theorem getLast?_starts {before : List Event} :
    (starts (before ++ .started k node :: calls.map .client)).getLast? = some (k, node) := by
  simp

end

/-- The status of the response that a call of `WriteHeader` leads to: `net/http` panics at a code
that has not three digits, and sends an informational one on its own, before a response of status
200. -/
def responseStatus (code : Int) : Option Int :=
  if code < 100 ∨ 999 < code then none
  else if code < 200 ∧ code ≠ 101 then some 200
  else some code

/-- What the client gets of the calls on its writer.  A panic ends the process. -/
def received : List ClientCall → List ClientCall
  | [] => []
  | .writeHeader src code header :: rest =>
    match responseStatus code with
    | none => []
    | some status => .writeHeader src status header :: received rest
  | .write src bytes :: rest => .write src bytes :: received rest

/-- The statuses that the client gets. -/
def receivedStatuses (events : List Event) : List Int :=
  (received (clientCalls events)).filterMap fun
    | .writeHeader _ status _ => some status
    | .write .. => none

/-- The client has got the response of the attempt `k` whole and nothing else, or an error text if
there is none, where `h` is what the header of its writer held before. -/
def ClientGot (o : Outcome) (k : Nat) (h : Header) (calls : List ClientCall) : Prop :=
  match o.reached with
  | .ok (request, resp) =>
    ∃ (header : Header) (chunks : List Bytes),
      calls = .writeHeader (.attempt k) resp.statusCode header :: chunks.map (.write (.attempt k)) ∧
      (∀ key, header.get key =
        if key ∈ (headerOf request resp).keys then (headerOf request resp).get key else h.get key) ∧
      chunks.flatten = resp.body
  | .error _ =>
    calls = [.writeHeader .workerError 502 (h.assign "Content-Type" ["application/json"]),
      .write .workerError (workerErrorBody 502 o.errorType)]

/-- What the client should see of a call: one status, the last attempt, and the status that a result
without an error reports. -/
structure ClientView (inp : Inputs) (h : Header) (result : ExecutionResult) (events : List Event) :
    Prop where
  one_header : (receivedStatuses events).length = 1
  last : ∀ k node, (starts events).getLast? = some (k, node) →
    ClientGot (inp.outcome k) k h (received (clientCalls events))
  status : result.error = "" → receivedStatuses events = [result.statusCode]

namespace Outcome

/-- The response of the attempt comes through unchanged: its status is that of a response, and if it
is a stream, its lines fit and end with line feeds only. -/
def Deliverable (o : Outcome) : Prop :=
  ∀ request resp, o.reached = .ok (request, resp) →
    (resp.statusCode = 101 ∨ 200 ≤ resp.statusCode ∧ resp.statusCode ≤ 999) ∧
    (request.isStream = true → (∀ line ∈ splitLines resp.body, line.length < maxTokenSize) ∧
      LineFeedsOnly resp.body)

end Outcome

theorem sentStatus_eq {status : Int} : sentStatus status = status ↔ status ≠ 0 := by
  unfold sentStatus
  split
  · next h => simp [h]
  · next h => simp [h]

/-- The client gets the status of a response, and `Commit` does not replace it. -/
theorem responseStatus_sentStatus {status : Int} :
    responseStatus (sentStatus status) = some status ↔ status = 101 ∨ 200 ≤ status ∧
      status ≤ 999 := by
  unfold responseStatus sentStatus
  split
  · next hzero =>
    subst hzero
    decide
  · split
    · next hpanics =>
      simp only [reduceCtorEq, false_iff]
      omega
    · split
      · rw [Option.some.injEq]
        omega
      · exact iff_of_true rfl (by omega)

theorem received_writes (src : Source) (chunks : List Bytes) :
    received (chunks.map (.write src)) = chunks.map (.write src) := by
  induction chunks with
  | nil => rfl
  | cons bytes chunks ih => exact congrArg (_ :: ·) ih

/-- What the client gets of one answer. -/
theorem received_answer (src : Source) (code : Int) (header : Header) (chunks : List Bytes) :
    received (.writeHeader src code header :: chunks.map (.write src)) =
      (responseStatus code).elim [] fun status =>
        .writeHeader src status header :: chunks.map (.write src) := by
  rw [received]
  cases responseStatus code with
  | none => rfl
  | some status => exact congrArg (_ :: ·) (received_writes src chunks)

/-- A line that does not fit is left out, with all that follows. -/
theorem length_scan_lt {resp : Response}
    (h : ¬∀ line ∈ splitLines resp.body, line.length < maxTokenSize) :
    ((scan resp).1.map (· ++ [newline])).flatten.length < resp.body.length := by
  obtain ⟨fitting, hfitting⟩ : ∃ fitting,
    (splitLines resp.body).takeWhile (·.length < maxTokenSize) = fitting := ⟨_, rfl⟩
  have hsplit :=
    List.takeWhile_append_dropWhile (p := fun l : Bytes => decide (l.length < maxTokenSize))
    (l := splitLines resp.body)
  cases hrest : (splitLines resp.body).dropWhile (·.length < maxTokenSize) with
  | nil =>
    refine absurd (fun line hline => ?_) h
    simpa using List.dropWhile_eq_nil_iff.mp hrest line hline
  | cons long rest =>
    have hlong : maxTokenSize ≤ long.length := by
      have := List.head?_dropWhile_not (fun l : Bytes => decide (l.length < maxTokenSize))
        (splitLines resp.body)
      rw [hrest] at this
      simpa using this
    have hscan : ((scan resp).1.map (· ++ [newline])).flatten =
        fitting.flatMap fun line => dropCR line ++ [newline] := by
      rw [scan, hfitting, List.map_map, ← List.flatMap_def]
      rfl
    have hbody := congrArg List.length (flatMap_splitLines resp.body)
    have hle := length_flatMap_le fitting
    have hmax : 0 < maxTokenSize := by decide
    rw [← hsplit, hrest, hfitting, List.flatMap_append, List.flatMap_cons, List.length_append,
      List.length_append, List.length_append] at hbody
    rw [hscan]
    split at hbody
    · simp only [List.length_cons] at hbody
      omega
    · simp only [List.length_append, List.length_cons, List.length_nil] at hbody
      omega

/-- The chunks of a response make up its body. -/
theorem chunksOf_flatten_iff {request : Prepared} {resp : Response} :
    (chunksOf request resp).flatten = resp.body ↔ (request.isStream = true →
      (∀ line ∈ splitLines resp.body, line.length < maxTokenSize) ∧ LineFeedsOnly resp.body) := by
  unfold chunksOf
  split
  · next hstream =>
    by_cases hfits : ∀ line ∈ splitLines resp.body, line.length < maxTokenSize
    · have hflatten : ((scan resp).1.map (· ++ [newline])).flatten = relayed resp.body := by
        rw [scan_of_fits hfits, List.map_map, ← List.flatMap_def]
        rfl
      rw [hflatten, relayed_eq_iff]
      exact ⟨fun h _ => ⟨hfits, h⟩, fun h => (h hstream).2⟩
    · refine iff_of_false (fun h => ?_) fun h => hfits (h hstream).1
      have := length_scan_lt hfits
      rw [h] at this
      omega
  · next hstream => exact iff_of_true (by simp) fun h => absurd h hstream

theorem finalCalls_statuses (o : Outcome) (k : Nat) (h : Header) :
    ((finalCalls o k h).filterMap fun
      | .writeHeader _ status _ => some status
      | .write .. => none) = [finalStatus o] := by
  obtain ⟨src, header, chunks, heq⟩ := finalCalls_eq o k h
  rw [heq, List.filterMap_cons, List.filterMap_map]
  exact congrArg (finalStatus o :: ·) (List.filterMap_eq_nil_iff.mpr fun _ _ => rfl)

namespace EndsWith

variable {inp : Inputs} {attempt n k : Nat} {h : Header} {result : ExecutionResult}
  {events before : List Event} {node : ModelNode}

theorem calls (hends : EndsWith inp attempt n h result events k node before) :
    clientCalls events = finalCalls (inp.outcome k) k h := by
  rw [hends.events_eq, clientCalls_eq hends.before_starts]

theorem statuses (hends : EndsWith inp attempt n h result events k node before) :
    sentStatuses events = [finalStatus (inp.outcome k)] := by
  rw [sentStatuses, hends.calls, finalCalls_statuses]

theorem receivedStatuses (hends : EndsWith inp attempt n h result events k node before)
    {status : Int} (hstatus : responseStatus (finalStatus (inp.outcome k)) = some status) :
    Worker.receivedStatuses events = [status] := by
  obtain ⟨src, header, chunks, heq⟩ := finalCalls_eq (inp.outcome k) k h
  rw [Worker.receivedStatuses, hends.calls, heq, received_answer, hstatus, Option.elim_some,
    List.filterMap_cons, List.filterMap_map]
  exact congrArg (status :: ·) (List.filterMap_eq_nil_iff.mpr fun _ _ => rfl)

theorem forall_last (hends : EndsWith inp attempt n h result events k node before)
    (P : Nat → Prop) :
    (∀ k', LastAttempt inp attempt n k' → P k') ↔ P k :=
  ⟨fun hall => hall k hends.last, fun hk k' hlast => by rwa [hlast.unique hends.last]⟩

end EndsWith

/-- The chunks of a response that reaches the client without a failed write. -/
theorem finalCalls_ok {o : Outcome} {request : Prepared} {resp : Response}
    (hreached : o.reached = .ok (request, resp)) (hno : ¬o.BreaksOff) (k : Nat) (h : Header) :
    ∃ chunks : List Bytes, chunks.flatten = (chunksOf request resp).flatten ∧
      finalCalls o k h = .writeHeader (.attempt k) (sentStatus resp.statusCode)
        (h.overlay (headerOf request resp)) :: chunks.map (.write (.attempt k)) := by
  by_cases hpass : Outcome.PassesStatus resp
  · have hok : ¬o.Fails := fun hfails => hno (Outcome.breaksOff_iff_fails.mpr
      ⟨hfails, fun hearly => Outcome.failsEarly_iff_reached.mp hearly _ _ hreached hpass⟩)
    rw [Outcome.fails_iff_passed hreached hpass, not_not] at hok
    refine ⟨_, rfl, ?_⟩
    simp only [finalCalls, hreached, if_pos hpass, passedCalls, push_whole hok.1]
  · refine ⟨[(chunksOf request resp).flatten], by simp, ?_⟩
    simp only [finalCalls, hreached, if_neg hpass]
    rfl

theorem clientGot_iff {o : Outcome} (hno : ¬o.BreaksOff) (k : Nat) (h : Header) :
    ClientGot o k h (received (finalCalls o k h)) ↔ o.Deliverable := by
  cases hreached : o.reached with
  | error e =>
    refine iff_of_true ?_ fun request resp hok => ?_
    · simp only [ClientGot, finalCalls, hreached]
      rfl
    · rw [hreached] at hok
      cases hok
  | ok reached =>
    obtain ⟨request, resp⟩ := reached
    obtain ⟨chunks, hflatten, hcalls⟩ := finalCalls_ok hreached hno k h
    have hdeliverable : o.Deliverable ↔
        responseStatus (sentStatus resp.statusCode) = some resp.statusCode ∧
          (chunksOf request resp).flatten = resp.body := by
      rw [chunksOf_flatten_iff, responseStatus_sentStatus]
      constructor
      · intro hd
        exact hd request resp hreached
      · intro hd request' resp' hreached'
        cases hreached.symm.trans hreached'
        exact hd
    simp only [ClientGot, hreached]
    rw [hdeliverable, hcalls, received_answer]
    constructor
    · rintro ⟨header, chunks', hsame, -, hbody⟩
      cases hstatus : responseStatus (sentStatus resp.statusCode) with
      | none => simp [hstatus] at hsame
      | some status =>
        rw [hstatus, Option.elim_some] at hsame
        obtain ⟨hheader, hwrites⟩ := List.cons.inj hsame
        have hchunks : chunks = chunks' :=
          List.map_injective_iff.mpr (fun a b hab => by cases hab; rfl) hwrites
        rw [← hflatten, hchunks]
        exact ⟨congrArg some (by injection hheader), hbody⟩
    · rintro ⟨hstatus, hbody⟩
      rw [hstatus]
      exact ⟨_, chunks, rfl, Header.get_overlay (headerOf_nodup request resp) h,
        hflatten.trans hbody⟩

/-- A last attempt that the client gets as it is has a status of its own, or the worker's. -/
theorem Outcome.Deliverable.finalStatus {o : Outcome} (h : o.Deliverable) :
    ∃ status, responseStatus (finalStatus o) = some status ∧
      ∀ request resp, o.reached = .ok (request, resp) → status = resp.statusCode := by
  cases hreached : o.reached with
  | error e =>
    exact ⟨502, by simp [Worker.finalStatus, hreached, responseStatus], fun _ _ hok => by cases hok⟩
  | ok reached =>
    obtain ⟨request, resp⟩ := reached
    refine ⟨resp.statusCode, ?_, fun _ _ hok => by cases hok; rfl⟩
    simp only [Worker.finalStatus, hreached]
    exact responseStatus_sentStatus.mpr (h request resp hreached).1

/-! ### Whole calls -/

/-- Every attempt that fails does so before its status is passed on. -/
def FailsInTime (inp : Inputs) (n : Nat) : Prop :=
  ∀ k, 1 ≤ k → k ≤ n → (∀ j, 1 ≤ j → j < k → (inp.outcome j).FailsEarly) →
    ¬(inp.outcome k).BreaksOff

section Call

variable (dec : Decoder) (cfg : WorkerConfig) (inp : Inputs) (req : PendingRequest) (table : Router)
  (h : Header)

/-- The candidates of the router can be tried. -/
theorem attemptLimit_pos {cfg : WorkerConfig} {inp : Inputs} {req : PendingRequest} {table : Router}
    (hcandidates : inp.candidates = table.resolve req.modelAlias req.endpointType)
    (hne : inp.candidates ≠ []) (hmax : 1 ≤ cfg.maxRetryAttempts) : 0 < attemptLimit cfg inp := by
  obtain ⟨n, rest, hn⟩ := List.exists_cons_of_ne_nil hne
  have hmem : n ∈ inp.candidates := by simp [hn]
  have hav : n ∈ available inp.candidates [] := mem_available.mpr
    ⟨hmem, by simp, Router.enabled_of_mem_resolve (hcandidates ▸ hmem)⟩
  have := remaining_exclude hav
  rw [attemptLimit]
  omega

/-- A call in which no attempt breaks off before the last. -/
theorem forwardWithRetry_endsWith {inp : Inputs} (hne : inp.candidates ≠ [])
    (hpos : 0 < attemptLimit cfg inp) (hno : NoBreakBeforeLast inp 1 (attemptLimit cfg inp)) :
    ∃ k node before, EndsWith inp 1 (attemptLimit cfg inp) h
      (runIn inp (forwardWithRetry dec cfg req) { header := h }).1
      (runIn inp (forwardWithRetry dec cfg req) { header := h }).2.events k node before := by
  have hc := forwardWithRetry_course inp (fun _ => none) dec cfg req h hne
  rw [runUntil_never] at hc
  exact hc.endsWith (fun _ => rfl) rfl hpos hno

/-- The client sees the last attempt as it should exactly when its response, if there is one, comes
through unchanged. -/
theorem client_view_iff
    (hcandidates : inp.candidates = table.resolve req.modelAlias req.endpointType)
    (hne : inp.candidates ≠ []) (hmax : 1 ≤ cfg.maxRetryAttempts)
    (htime : FailsInTime inp (attemptLimit cfg inp)) :
    ClientView inp h (runIn inp (forwardWithRetry dec cfg req) { header := h }).1
        (runIn inp (forwardWithRetry dec cfg req) { header := h }).2.events ↔
      ∀ k, LastAttempt inp 1 (attemptLimit cfg inp) k → (inp.outcome k).Deliverable := by
  have hno : NoBreakBeforeLast inp 1 (attemptLimit cfg inp) := fun k hk hlt hbefore =>
    htime k hk (by omega) hbefore
  obtain ⟨k, node, before, hends⟩ := forwardWithRetry_endsWith dec cfg req h hne
    (attemptLimit_pos hcandidates hne hmax) hno
  generalize runIn inp (forwardWithRetry dec cfg req) { header := h } = out at *
  have hlimit := hends.last.limit
  have hbreaks : ¬(inp.outcome k).BreaksOff :=
    htime k hends.last.first (by omega) hends.last.before
  have hstart : (starts out.2.events).getLast? = some (k, node) := by
    rw [hends.events_eq, getLast?_starts]
  rw [hends.forall_last, ← clientGot_iff hbreaks k h, ← hends.calls]
  constructor
  · intro hview
    exact hview.last k node hstart
  · intro hgot
    have hdeliverable : (inp.outcome k).Deliverable := by
      rwa [hends.calls, clientGot_iff hbreaks] at hgot
    obtain ⟨status, hfinal, hstatus⟩ := hdeliverable.finalStatus
    have hstatuses := hends.receivedStatuses hfinal
    refine ⟨by rw [hstatuses]; rfl, fun k' node' hstart' => ?_, fun herror => ?_⟩
    · rw [hstart, Option.some.injEq, Prod.mk.injEq] at hstart'
      rw [← hstart'.1]
      exact hgot
    · rw [hstatuses, hends.status]
      -- A success has a response, whose status is passed on.
      cases hreached : (inp.outcome k).reached with
      | error e => exact absurd (Outcome.fails_of_error hreached) (hends.success herror)
      | ok reached =>
        rw [hstatus _ _ hreached]
        simp only [Outcome.verdict, hreached]

end Call

/-- A router with one node, whose attempts all end alike. -/
def oneTable : Router := ⟨fun _ => [{ id := "a" }]⟩

def oneNode (o : Outcome) : Inputs :=
  { candidates := [{ id := "a" }], choice := fun _ => 0, outcome := fun _ => o }

/-- One attempt at a node with the outcome `o`. -/
def oneCall (o : Outcome) : ExecutionResult × World :=
  runIn (oneNode o) (forwardWithRetry ⟨fun _ => none, fun _ => none⟩ ⟨1, 0⟩ { addr := 0 })
    { header := [] }

/-- A body with a line end of two bytes that is not a stream. -/
def plainOutcome : Outcome :=
  ⟨.ok ⟨false⟩, .ok { statusCode := 200, header := [("Content-Type", ["application/json"])],
                      body := asciiBytes "1\r\n" }, fun _ => none⟩

theorem plainOutcome_not_breaksOff : ¬plainOutcome.BreaksOff := by
  rintro ⟨request, resp, hp, hr, -, hbreak⟩
  cases hp
  cases hr
  simp [plainOutcome] at hbreak

theorem client_view_plain :
    ClientView (oneNode plainOutcome) [] (oneCall plainOutcome).1
      (oneCall plainOutcome).2.events := by
  refine (client_view_iff _ _ _ _ oneTable _ (by decide) (by simp [oneNode]) (by decide) ?_).mpr ?_
  · exact fun k _ _ _ => plainOutcome_not_breaksOff
  · rintro k - request resp hreached
    cases hreached
    exact ⟨by decide, fun h => by cases h⟩

/-- The JSON text of an error without a line end, as the answer to a streaming request. -/
def errorBody : Bytes := asciiBytes "\x7b\x7d"

def unterminatedOutcome : Outcome :=
  ⟨.ok ⟨true⟩, .ok { statusCode := 500, body := errorBody }, fun _ => none⟩

/-- The only attempt fails before its status is passed on, and the client gets a byte more than the
upstream has sent. -/
theorem client_view_unterminated :
    (oneNode unterminatedOutcome).candidates = oneTable.resolve "" .all ∧
      (∀ k, ((oneNode unterminatedOutcome).outcome k).FailsEarly) ∧
      (received (clientCalls (oneCall unterminatedOutcome).2.events)).getLast? =
        some (.write (.attempt 1) (errorBody ++ [newline])) ∧
      ¬ClientView (oneNode unterminatedOutcome) [] (oneCall unterminatedOutcome).1
        (oneCall unterminatedOutcome).2.events := by
  have hcalls : (received (clientCalls (oneCall unterminatedOutcome).2.events)).tail =
      [.write (.attempt 1) (errorBody ++ [newline])] := by decide
  refine ⟨by decide, ?_, by decide, fun hview => ?_⟩
  · intro k request resp hp hr hpass
    cases hr
    cases hpass
  · have hgot := hview.last 1 { id := "a" } (by decide)
    obtain ⟨header, chunks, hsame, -, hbody⟩ := hgot
    rw [hsame, List.tail_cons] at hcalls
    have hbytes := congrArg (fun calls => written (calls.map .client)) hcalls
    simp only [written_writes, hbody] at hbytes
    exact absurd hbytes (by decide)

section Call

variable (dec : Decoder) (cfg : WorkerConfig) (inp : Inputs) (req : PendingRequest) (table : Router)
  (h : Header)

/-- The status of the result is the one that the client gets exactly when the last attempt has a
response, with a status that is not 0. -/
theorem logged_status_iff
    (hcandidates : inp.candidates = table.resolve req.modelAlias req.endpointType)
    (hne : inp.candidates ≠ []) (hmax : 1 ≤ cfg.maxRetryAttempts)
    (hno : NoBreakBeforeLast inp 1 (attemptLimit cfg inp)) :
    sentStatuses (runIn inp (forwardWithRetry dec cfg req) { header := h }).2.events =
        [(runIn inp (forwardWithRetry dec cfg req) { header := h }).1.statusCode] ↔
      ∀ k, LastAttempt inp 1 (attemptLimit cfg inp) k →
        ∃ request resp, (inp.outcome k).reached = .ok (request, resp) ∧ resp.statusCode ≠ 0 := by
  obtain ⟨k, node, before, hends⟩ := forwardWithRetry_endsWith dec cfg req h hne
    (attemptLimit_pos hcandidates hne hmax) hno
  generalize runIn inp (forwardWithRetry dec cfg req) { header := h } = out at *
  rw [hends.forall_last, hends.statuses, hends.status, List.cons.injEq, and_iff_left rfl]
  cases hreached : (inp.outcome k).reached with
  | error e => simp [finalStatus, Outcome.verdict, hreached]
  | ok reached =>
    obtain ⟨request, resp⟩ := reached
    simp only [finalStatus, Outcome.verdict, hreached, sentStatus_eq]
    constructor
    · intro hstatus
      exact ⟨request, resp, rfl, hstatus⟩
    · rintro ⟨request', resp', hsame, hstatus⟩
      cases hsame
      exact hstatus

end Call

theorem logged_status_plain :
    sentStatuses (oneCall plainOutcome).2.events = [(oneCall plainOutcome).1.statusCode] := by
  refine (logged_status_iff _ _ _ _ oneTable _ (by decide) (by simp [oneNode]) (by decide) ?_).mpr
    ?_
  · exact fun k _ _ _ => plainOutcome_not_breaksOff
  · rintro k -
    exact ⟨_, _, rfl, by decide⟩

/-- A node that refuses connections: the client gets 502 and the log 0. -/
theorem logged_status_unreachable :
    let o : Outcome :=
      ⟨.ok ⟨false⟩, .error { text := "connect: connection refused" }, fun _ => none⟩
    (oneNode o).candidates = oneTable.resolve "" .all ∧
      (∀ k, ((oneNode o).outcome k).FailsEarly) ∧
      sentStatuses (oneCall o).2.events = [502] ∧ (oneCall o).1.statusCode = 0 := by
  refine ⟨by decide, fun k request resp _ hr => ?_, by decide, by decide⟩
  cases hr

end LlmProxy.Worker
