import LlmProxy.Proxy.Usage
import LlmProxy.Worker.RetryRun

/-! Which report of usage a stream is counted by, when it carries several.  `usageFound` keeps the
reports of one shape from replacing earlier ones, and lets those of the other shape through. -/

namespace LlmProxy.Proxy

open ProofKit Worker Program

/-! ### What a stream carries -/

/-- A report in a payload: its shape and its counts. -/
abbrev Report := UsageShape × (Int × Int)

/-- The report that a line carries; the usage of a chat chunk comes first. -/
def reportOf (dec : Decoder) (line : Bytes) : Option Report := do
  let payload ← payload line
  match (dec.chunk payload).bind (·.2) with
  | some usage => some (.openAI, usage)
  | none => ((dec.responseUsage payload).filter (0 < ·.1)).map (Prod.mk .responses)

def reports (dec : Decoder) (lines : List Bytes) : List Report := lines.filterMap (reportOf dec)

/-- The contents of the choices in a line. -/
def contentOf (dec : Decoder) (line : Bytes) : String :=
  String.join (((payload line).bind dec.chunk).elim [] (·.1))

def contentsOf (dec : Decoder) (lines : List Bytes) : String :=
  String.join (lines.map (contentOf dec))

/-- The report that the counts end with: the last one of a chat chunk, or else the first one. -/
def winner (rs : List Report) : Option Report := (rs.filter (·.1 = .openAI)).getLast?.or rs.head?

/-- The report that the counts end with has the counts of the last one. -/
def LastStands (rs : List Report) : Prop := (winner rs).map (·.2) = rs.getLast?.map (·.2)

instance (rs : List Report) : Decidable (LastStands rs) := inferInstanceAs (Decidable (_ = _))

/-- The counts are those of the last report, or an estimate where there is none. -/
structure CountsLast (dec : Decoder) (lines : List Bytes) (result : StreamResult) : Prop where
  last : ∀ r, (reports dec lines).getLast? = some r →
    (result.promptTokens, result.completionTokens) = r.2
  estimated : reports dec lines = [] → result.promptTokens = 0 ∧
    result.completionTokens = if contentsOf dec lines = "" then 0
      else max 1 ((contentsOf dec lines).length / 2 : Nat)
  content : result.fullContent = contentsOf dec lines

/-! ### The counts, report by report -/

/-- What a report does to the counts. -/
def keep (held : (Int × Int) × Bool) (r : Report) : (Int × Int) × Bool :=
  if r.1 = .openAI ∨ held.2 = false then (r.2, true) else held

theorem countLine_eq (dec : Decoder) (held : (Int × Int) × Bool) (line : Bytes) :
    countLine dec held line = ((reportOf dec line).map (keep held)).getD held := by
  unfold countLine takenUsage reportOf
  cases payload line with
  | none => rfl
  | some p =>
    cases hchunk : (dec.chunk p).bind (·.2) with
    | some usage => simp [hchunk, keep]
    | none =>
      obtain ⟨counts, found⟩ := held
      cases hresponse : (dec.responseUsage p).filter (0 < ·.1) <;> cases found <;>
        simp [hchunk, hresponse, keep]

theorem reports_cons (dec : Decoder) (line : Bytes) (lines : List Bytes) :
    reports dec (line :: lines) = (reportOf dec line).toList ++ reports dec lines := by
  rw [reports, List.filterMap_cons]
  cases reportOf dec line <;> rfl

theorem foldl_countLine (dec : Decoder) (lines : List Bytes) (held : (Int × Int) × Bool) :
    lines.foldl (countLine dec) held = (reports dec lines).foldl keep held := by
  induction lines generalizing held with
  | nil => rfl
  | cons line lines ih =>
    rw [List.foldl_cons, ih, countLine_eq, reports_cons, List.foldl_append]
    cases reportOf dec line <;> rfl

/-- Once there are counts, only chat chunks change them. -/
theorem foldl_keep_found (rs : List Report) (counts : Int × Int) :
    rs.foldl keep (counts, true) =
      (((rs.filter (·.1 = .openAI)).getLast?.map (·.2)).getD counts, true) := by
  induction rs generalizing counts with
  | nil => rfl
  | cons r rs ih =>
    by_cases hshape : r.1 = .openAI
    · have hkeep : keep (counts, true) r = (r.2, true) := if_pos (.inl hshape)
      rw [List.foldl_cons, hkeep, ih, List.filter_cons_of_pos (by simpa using hshape),
        List.getLast?_cons]
      cases (rs.filter (·.1 = .openAI)).getLast? <;> rfl
    · have hkeep : keep (counts, true) r = (counts, true) := if_neg (by simp [hshape])
      rw [List.foldl_cons, hkeep, ih, List.filter_cons_of_neg (by simpa using hshape)]

theorem foldl_keep (rs : List Report) (counts : Int × Int) :
    rs.foldl keep (counts, false) =
      (((winner rs).map (·.2)).getD counts, decide (rs ≠ [])) := by
  cases rs with
  | nil => rfl
  | cons r rs =>
    have hkeep : keep (counts, false) r = (r.2, true) := if_pos (.inr rfl)
    rw [List.foldl_cons, hkeep, foldl_keep_found, winner]
    by_cases hshape : r.1 = .openAI
    · rw [List.filter_cons_of_pos (by simpa using hshape), List.getLast?_cons]
      cases (rs.filter (·.1 = .openAI)).getLast? <;> simp
    · rw [List.filter_cons_of_neg (by simpa using hshape)]
      cases (rs.filter (·.1 = .openAI)).getLast? <;> simp

/-! ### The accounts of a stream -/

theorem foldl_append_join (before : String) (parts : List String) :
    parts.foldl (· ++ ·) before = before ++ String.join parts := by
  induction parts generalizing before with
  | nil => simp [String.join]
  | cons part parts ih => rw [List.foldl_cons, ih, String.join_cons, String.append_assoc]

theorem fullContent_account (dec : Decoder) (line : Bytes) (acc : StreamResult × Bool) :
    (account dec line acc).1.fullContent = acc.1.fullContent ++ contentOf dec line := by
  obtain ⟨result, usageFound⟩ := acc
  rw [account_eq, contentOf, ← foldl_append_join]
  cases takenUsage dec usageFound line <;> rfl

theorem contentsOf_cons (dec : Decoder) (line : Bytes) (lines : List Bytes) :
    contentsOf dec (line :: lines) = contentOf dec line ++ contentsOf dec lines := by
  rw [contentsOf, List.map_cons, String.join_cons]
  rfl

theorem fullContent_foldl (dec : Decoder) (lines : List Bytes) (acc : StreamResult × Bool) :
    (lines.foldl (relayStep dec) acc).1.fullContent = acc.1.fullContent ++
      contentsOf dec lines := by
  induction lines generalizing acc with
  | nil => simp [contentsOf, String.join]
  | cons line lines ih =>
    rw [List.foldl_cons, ih, relayStep, fullContent_account, contentsOf_cons, String.append_assoc]

/-! ### The report that wins -/

/-- The counts that a stream ends with: those of the report that wins, or an estimate. -/
def countsOf (dec : Decoder) (lines : List Bytes) : Int × Int :=
  ((winner (reports dec lines)).map (·.2)).getD
    (0, (if contentsOf dec lines = "" then 0 else max 1 ((contentsOf dec lines).length / 2) : Nat))

theorem winner_eq_none {rs : List Report} : winner rs = none ↔ rs = [] := by
  rw [winner, Option.or_eq_none_iff, List.head?_eq_none_iff]
  refine ⟨And.right, ?_⟩
  rintro rfl
  exact ⟨rfl, rfl⟩

theorem settled_accounts (dec : Decoder) (lines : List Bytes) :
    let result := settled (lines.foldl (relayStep dec) ({}, false))
    (result.promptTokens, result.completionTokens) = countsOf dec lines ∧
      result.fullContent = contentsOf dec lines := by
  obtain ⟨acc, hacc⟩ : ∃ acc, lines.foldl (relayStep dec) ({}, false) = acc := ⟨_, rfl⟩
  have hcounted := counted_foldl dec lines ({}, false)
  have hcontent := fullContent_foldl dec lines ({}, false)
  have hstart : counted ({}, false) = ((0, 0), false) := rfl
  rw [hstart, foldl_countLine, foldl_keep, hacc] at hcounted
  rw [hacc, String.empty_append] at hcontent
  obtain ⟨hcounts, hfound⟩ := Prod.mk.inj hcounted
  rw [hacc, countsOf]
  cases hwinner : winner (reports dec lines) with
  | none =>
    have hacc₂ : acc.2 = false := by simpa [winner_eq_none.mp hwinner] using hfound
    rw [hwinner] at hcounts
    obtain ⟨hprompt, -⟩ := Prod.mk.inj hcounts
    simp only [settled, hacc₂, Bool.false_eq_true, if_false, estimate, hcontent]
    simp [hprompt, String.length_eq_zero_iff]
  | some w =>
    have hreports : reports dec lines ≠ [] := fun h => by simp [winner_eq_none.mpr h] at hwinner
    have hacc₂ : acc.2 = true := by simpa [hreports] using hfound
    rw [hwinner] at hcounts
    rw [settled, if_pos hacc₂]
    exact ⟨hcounts, hcontent⟩

theorem settled_countsLast_iff (dec : Decoder) (lines : List Bytes) :
    CountsLast dec lines (settled (lines.foldl (relayStep dec) ({}, false))) ↔
      LastStands (reports dec lines) := by
  obtain ⟨hcounts, hcontent⟩ := settled_accounts dec lines
  rw [LastStands]
  cases hwinner : winner (reports dec lines) with
  | none =>
    have hreports := winner_eq_none.mp hwinner
    rw [countsOf, hwinner] at hcounts
    obtain ⟨hprompt, hcompletion⟩ := Prod.mk.inj hcounts
    exact iff_of_true ⟨by simp [hreports], fun _ => ⟨hprompt, hcompletion⟩, hcontent⟩
      (by simp [hreports])
  | some w =>
    have hreports : reports dec lines ≠ [] := fun h => by simp [winner_eq_none.mpr h] at hwinner
    rw [countsOf, hwinner] at hcounts
    rw [List.getLast?_eq_some_getLast hreports, Option.map_some, Option.map_some, Option.some.injEq]
    constructor
    · intro h
      exact hcounts.symm.trans (h.last _ (List.getLast?_eq_some_getLast hreports))
    · intro h
      refine ⟨fun r hr => ?_, fun hnil => absurd hnil hreports, hcontent⟩
      rw [List.getLast?_eq_some_getLast hreports, Option.some.injEq] at hr
      exact hcounts.trans (h.trans (congrArg Prod.snd hr))

/-- A stream that is relayed without an error is scanned without one, and has the accounts of all
its lines. -/
theorem forwardStream_settled (dec : Decoder) (w : Recorder) (resp : Response) {σ : Type}
    (answer : (op : Op) → σ → op.Ans × σ) (s : σ)
    (hok : ((forwardStream dec w resp).eval answer s).1.2.1 = none) :
    (scan resp).2 = none ∧ ((forwardStream dec w resp).eval answer s).1.1 =
      settled ((scan resp).1.foldl (relayStep dec) ({}, false)) :=
  (relay_settled (A := fun _ _ => True) dec (scan resp).2 (scan resp).1 w ({}, false)).eval
    (h := answer) (fun _ _ => trivial) s hok

/-- A stream that is relayed without an error is counted by its last report exactly when that report
has the counts of the last chat chunk with usage, or of the first report where there is no such
chunk. -/
theorem counts_last_iff (dec : Decoder) (w : Recorder) (resp : Response) {σ : Type}
    (answer : (op : Op) → σ → op.Ans × σ) (s : σ)
    (hok : ((forwardStream dec w resp).eval answer s).1.2.1 = none) :
    CountsLast dec (scan resp).1 ((forwardStream dec w resp).eval answer s).1.1 ↔
      LastStands (reports dec (scan resp).1) := by
  rw [(forwardStream_settled dec w resp answer s hok).2]
  exact settled_countsLast_iff dec (scan resp).1

/-- An event of a Responses stream that carries usage. -/
def usageEvent (input output : Nat) : Bytes :=
  asciiBytes ("\x7b\"response\":\x7b\"usage\":\x7b\"input_tokens\":" ++ toString input ++
    ",\"output_tokens\":" ++ toString output ++ "\x7d\x7d\x7d")

def usageEventTree (input output : Nat) : Json :=
  .obj [("response", .obj [("usage", .obj
    [("input_tokens", .num (formatInt input)), ("output_tokens", .num (formatInt output))])])]

/-- A chat chunk that carries usage. -/
def usageChunk (prompt completion : Nat) : Bytes :=
  asciiBytes ("\x7b\"usage\":\x7b\"prompt_tokens\":" ++ toString prompt ++
    ",\"completion_tokens\":" ++
    toString completion ++ "\x7d\x7d")

def usageChunkTree (prompt completion : Nat) : Json :=
  .obj [("usage", .obj
    [("prompt_tokens", .num (formatInt prompt)),
      ("completion_tokens", .num (formatInt completion))])]

/-- What `json.Unmarshal` makes of two such events and of such a chunk. -/
def eventsUnmarshaler : Unmarshaler where
  parse text :=
    if text = usageEvent 7 1 then some (usageEventTree 7 1)
    else if text = usageEvent 7 5 then some (usageEventTree 7 5)
    else if text = usageChunk 9 3 then some (usageChunkTree 9 3)
    else none
  empty := by decide +kernel

def eventLine (event : Bytes) : Bytes := asciiBytes "data: " ++ event ++ [newline, newline]

/-- The relay of a stream to a client that takes every byte. -/
def relayOf (body : Bytes) : StreamResult × Option GoError × Recorder :=
  ((forwardStream (decoder eventsUnmarshaler) { src := .attempt 1 }
    { statusCode := 200, body }).eval
    (World.answer ⟨[], fun _ => 0, fun _ => ⟨.ok ⟨true⟩, .ok { statusCode := 200 }, fun _ => none⟩⟩)
      {}).1

/-- Two reports with different counts, of which a chat chunk has the last one. -/
theorem counts_last_replaced :
    let body := eventLine (usageEvent 7 1) ++ eventLine (usageChunk 9 3)
    reports (decoder eventsUnmarshaler) (scan { statusCode := 200, body }).1 =
        [(.responses, (7, 1)), (.openAI, (9, 3))] ∧
      CountsLast (decoder eventsUnmarshaler) (scan { statusCode := 200, body }).1
        (relayOf body).1 := by
  intro body
  obtain ⟨hreports, hok⟩ :
      reports (decoder eventsUnmarshaler) (scan { statusCode := 200, body }).1 =
        [(.responses, (7, 1)), (.openAI, (9, 3))] ∧ (relayOf body).2.1 = none := by
    decide +kernel
  refine ⟨hreports, ?_⟩
  unfold relayOf at hok ⊢
  refine (counts_last_iff _ _ _ _ _ hok).mpr ?_
  rw [hreports]
  decide

/-- Two events with usage: the counts of the second one are never taken. -/
theorem second_usage_ignored :
    let body := eventLine (usageEvent 7 1) ++ eventLine (usageEvent 7 5)
    reports (decoder eventsUnmarshaler) (scan { statusCode := 200, body }).1 =
        [(.responses, (7, 1)), (.responses, (7, 5))] ∧
      (relayOf body).2.1 = none ∧
      ((relayOf body).1.promptTokens, (relayOf body).1.completionTokens) = (7, 1) ∧
      ¬CountsLast (decoder eventsUnmarshaler) (scan { statusCode := 200, body }).1
        (relayOf body).1 := by
  intro body
  obtain ⟨hreports, hok, hcounts⟩ :
      reports (decoder eventsUnmarshaler) (scan { statusCode := 200, body }).1 =
        [(.responses, (7, 1)), (.responses, (7, 5))] ∧ (relayOf body).2.1 = none ∧
      ((relayOf body).1.promptTokens, (relayOf body).1.completionTokens) = (7, 1) := by
    decide +kernel
  refine ⟨hreports, hok, hcounts, fun h => ?_⟩
  have hlast := h.last (.responses, (7, 5)) (by rw [hreports]; rfl)
  rw [hcounts] at hlast
  cases hlast

end LlmProxy.Proxy
