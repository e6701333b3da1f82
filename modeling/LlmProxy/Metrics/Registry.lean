import LlmProxy.ProofKit.Exposition
import LlmProxy.ProofKit.Recording

/-! `metrics.Registry`, and the text that `WritePrometheus` writes of it.  The labels of a counter
become one text when something is recorded, and the text is printed as it is. -/

namespace LlmProxy.Metrics

open ProofKit Exposition

structure Registry where
  /-- The counters, by the texts of their labels. -/
  requestsTotal : Keyed (Prod.fst : String × Nat → String) := .empty
  tokensTotal : Keyed (Prod.fst : String × Nat → String) := .empty
  /-- The gauges, by the model. -/
  queueLength : Keyed (Prod.fst : String × Int → String) := .empty
  workerBusyCount : Int := 0

/-- `Add` of an `atomic.Uint64`. -/
def addUint64 (v n : Nat) : Nat := (v + n) % 2 ^ 64

/-- `Store` of an `atomic.Int64`. -/
def storeInt64 (_ n : Int) : Int := n

def requestLabel (key : String × String) : String :=
  "model=\"" ++ key.1 ++ "\",status=\"" ++ key.2 ++ "\""

def tokenLabel (key : String × String) : String :=
  "model=\"" ++ key.1 ++ "\",type=\"" ++ key.2 ++ "\""

def queueLabel (model : String) : String := "model=\"" ++ model ++ "\""

inductive Call
  | incRequests (model status : String)
  | addTokens (model tokenType : String) (count : Int)
  | setQueueLength (model : String) (length : Int)
  | incWorkerBusy
  | decWorkerBusy

namespace Registry

def incRequests (r : Registry) (model status : String) : Registry :=
  { r with requestsTotal := r.requestsTotal.record addUint64 0 (requestLabel (model, status), 1) }

def addTokens (r : Registry) (model tokenType : String) (count : Int) : Registry :=
  if count ≤ 0 then r
  else { r with tokensTotal := r.tokensTotal.record addUint64 0 (tokenLabel (model, tokenType),
    count.toNat) }

def setQueueLength (r : Registry) (model : String) (length : Int) : Registry :=
  { r with queueLength := r.queueLength.record storeInt64 0 (model, length) }

def incWorkerBusy (r : Registry) : Registry :=
  { r with workerBusyCount := wrapInt64 (r.workerBusyCount + 1) }

def decWorkerBusy (r : Registry) : Registry :=
  { r with workerBusyCount := wrapInt64 (r.workerBusyCount + -1) }

def call (r : Registry) : Call → Registry
  | .incRequests model status => r.incRequests model status
  | .addTokens model tokenType count => r.addTokens model tokenType count
  | .setQueueLength model length => r.setQueueLength model length
  | .incWorkerBusy => r.incWorkerBusy
  | .decWorkerBusy => r.decWorkerBusy

def after (calls : List Call) : Registry := calls.foldl call {}

end Registry

/-! ### The text -/

def header (name help : String) (kind : Kind) : String :=
  "# HELP " ++ name ++ " " ++ help ++ "\n" ++ ("# TYPE " ++ name ++ " " ++ kind.text ++ "\n")

def sampleLine (name label : String) (value : Int) : String :=
  name ++ "\x7b" ++ label ++ "\x7d " ++ formatInt value ++ "\n"

/-- `WritePrometheus`, where `Range` lists the entries of the maps in these orders. -/
def writePrometheus (requests tokens : List (String × Nat)) (queue : List (String × Int))
    (busy : Int) : String :=
  header "proxyllm_requests_total" "Total number of requests processed." .counter ++
  String.join (requests.map fun row => sampleLine "proxyllm_requests_total" row.1 row.2) ++
  header "proxyllm_tokens_total" "Total number of tokens processed." .counter ++
  String.join (tokens.map fun row => sampleLine "proxyllm_tokens_total" row.1 row.2) ++
  header "proxyllm_queue_length" "Current number of requests in queue." .gauge ++
  String.join (queue.map fun row => sampleLine "proxyllm_queue_length" (queueLabel row.1) row.2) ++
  header "proxyllm_worker_busy_count" "Current number of busy worker goroutines." .gauge ++
  ("proxyllm_worker_busy_count " ++ formatInt busy ++ "\n")

/-- A text that `WritePrometheus` may write, since `Range` promises no order. -/
def Registry.Writes (r : Registry) (text : String) : Prop :=
  ∃ requests tokens queue, requests.Perm r.requestsTotal.rows ∧ tokens.Perm r.tokensTotal.rows ∧
    queue.Perm r.queueLength.rows ∧ text = writePrometheus requests tokens queue r.workerBusyCount

/-! ### What was recorded -/

namespace Call

def request : Call → Option ((String × String) × Nat)
  | .incRequests model status => some ((model, status), 1)
  | _ => none

def tokens : Call → Option ((String × String) × Nat)
  | .addTokens model tokenType count =>
    if count ≤ 0 then none else some ((model, tokenType), count.toNat)
  | _ => none

def queueLength : Call → Option (String × Int)
  | .setQueueLength model length => some (model, length)
  | _ => none

def busy : Call → Int
  | .incWorkerBusy => 1
  | .decWorkerBusy => -1
  | _ => 0

/-- The label values that a call records something for. -/
def labelValues : Call → List String
  | .incRequests model status => [model, status]
  | .addTokens model tokenType count => if count ≤ 0 then [] else [model, tokenType]
  | .setQueueLength model _ => [model]
  | _ => []

end Call

/-- A total for each pair of label values, as a `uint64` has it. -/
def totals (events : List ((String × String) × Nat)) : List ((String × String) × Nat) :=
  (keysOf events).map fun key => (key, (valuesOf key events).sum % 2 ^ 64)

/-- The last length of each model. -/
def lengths (events : List (String × Int)) : List (String × Int) :=
  (keysOf events).map fun model => (model, (valuesOf model events).getLast?.getD 0)

def requestLabels (key : String × String) : List (String × String) :=
  [("model", key.1), ("status", key.2)]

def tokenLabels (key : String × String) : List (String × String) :=
  [("model", key.1), ("type", key.2)]

def queueLabels (model : String) : List (String × String) := [("model", model)]

def intSample (name : String) (labels : List (String × String)) (x : Int) : Sample :=
  { name, labels, value := .number x }

/-- One sample for each pair or model that something was recorded for, and one for the workers. -/
def recorded (calls : List Call) : List Sample :=
  (totals (calls.filterMap Call.request)).map (fun row =>
    intSample "proxyllm_requests_total" (requestLabels row.1) row.2) ++
  (totals (calls.filterMap Call.tokens)).map (fun row =>
    intSample "proxyllm_tokens_total" (tokenLabels row.1) row.2) ++
  (lengths (calls.filterMap Call.queueLength)).map (fun row =>
    intSample "proxyllm_queue_length" (queueLabels row.1) row.2) ++
  [intSample "proxyllm_worker_busy_count" [] (wrapInt64 (calls.map Call.busy).sum)]

/-- The text is read by the format, and what is read is what was recorded. -/
def Decodes (calls : List Call) (text : String) : Prop :=
  ∃ entries, readText text = some entries ∧ (samples entries).Perm (recorded calls)

/-! ### The tables -/

theorem foldl_addUint64 (ns : List Nat) (v : Nat) :
    ns.foldl addUint64 (v % 2 ^ 64) = (v + ns.sum) % 2 ^ 64 := by
  induction ns generalizing v with
  | nil => simp
  | cons n ns ih =>
    rw [List.foldl_cons, addUint64, Nat.mod_add_mod, ih, List.sum_cons, Nat.add_assoc]

theorem foldl_storeInt64 (ns : List Int) : ns.foldl storeInt64 0 = ns.getLast?.getD 0 := by
  induction ns using List.reverseRecOn with
  | nil => rfl
  | append_singleton ns n _ => simp [storeInt64]

namespace Registry

/-- A part of the registry that each call changes on its own. -/
theorem after_part {γ ε : Type} (part : Registry → γ) (event : Call → Option ε) (step : γ → ε → γ)
    (h : ∀ r c, part (r.call c) = (event c).elim (part r) (step (part r))) (calls : List Call) :
    part (after calls) = (calls.filterMap event).foldl step (part {}) := by
  rw [List.foldl_filterMap, after]
  refine (List.foldl_hom part fun r c => ?_).symm
  rw [h]
  cases event c <;> rfl

theorem requestsTotal_after (calls : List Call) : (after calls).requestsTotal =
    .recordAll addUint64 0 ((calls.filterMap Call.request).map (Prod.map requestLabel id)) := by
  rw [after_part requestsTotal Call.request (fun t e =>
    t.record addUint64 0 (requestLabel e.1, e.2)) ?_ calls,
    Keyed.recordAll, List.foldl_map]
  · rfl
  · intro r c
    cases c with
    | addTokens model tokenType count =>
      by_cases hcount : count ≤ 0 <;> simp [call, addTokens, Call.request, hcount]
    | _ => rfl

theorem tokensTotal_after (calls : List Call) : (after calls).tokensTotal =
    .recordAll addUint64 0 ((calls.filterMap Call.tokens).map (Prod.map tokenLabel id)) := by
  rw [after_part tokensTotal Call.tokens (fun t e =>
    t.record addUint64 0 (tokenLabel e.1, e.2)) ?_ calls,
    Keyed.recordAll, List.foldl_map]
  · rfl
  · intro r c
    cases c with
    | addTokens model tokenType count =>
      by_cases hcount : count ≤ 0 <;> simp [call, addTokens, Call.tokens, hcount]
    | _ => rfl

theorem queueLength_after (calls : List Call) : (after calls).queueLength =
    .recordAll storeInt64 0 ((calls.filterMap Call.queueLength).map (Prod.map id id)) := by
  rw [after_part queueLength Call.queueLength (Keyed.record storeInt64 0) ?_ calls, Prod.map_id,
    List.map_id, Keyed.recordAll]
  intro r c
  cases c with
  | addTokens model tokenType count =>
    by_cases hcount : count ≤ 0 <;> simp [call, addTokens, Call.queueLength, hcount]
  | _ => rfl

theorem workerBusyCount_after (calls : List Call) :
    (after calls).workerBusyCount = wrapInt64 (calls.map Call.busy).sum := by
  induction calls using List.reverseRecOn with
  | nil => rfl
  | append_singleton calls c ih =>
    have hcall (r : Registry) (hfits : wrapInt64 r.workerBusyCount = r.workerBusyCount) :
        (r.call c).workerBusyCount = wrapInt64 (r.workerBusyCount + c.busy) := by
      cases c with
      | addTokens model tokenType count =>
        by_cases hcount : count ≤ 0 <;> simp [call, addTokens, Call.busy, hcount, hfits]
      | incRequests | setQueueLength =>
        show r.workerBusyCount = wrapInt64 (r.workerBusyCount + 0)
        rw [Int.add_zero, hfits]
      | incWorkerBusy | decWorkerBusy => rfl
    have hfits : wrapInt64 (after calls).workerBusyCount = (after calls).workerBusyCount := by
      rw [ih, wrapInt64_of_fits (wrapInt64_fits _)]
    have hstep : after (calls ++ [c]) = (after calls).call c := by
      rw [after, List.foldl_append]
      rfl
    rw [hstep, hcall _ hfits, ih, List.map_append, List.sum_append, wrapInt64, wrapInt64,
      Int.bmod_add_bmod]
    simp [wrapInt64]

end Registry

/-! ### Labels -/

section

variable {κ : Type} {label : κ → String} {labels : κ → List (String × String)} {name : String}

/-- The texts of the labels of a metric. -/
structure LabelText (label : κ → String) (labels : κ → List (String × String)) : Prop where
  text : ∀ key, (label key).toList = labelText (labels key)
  names : ∀ key, ∀ n ∈ (labels key).map (·.1), isName false n.toList
  ne_nil : ∀ key, labels key ≠ []
  inj : Function.Injective labels

/-- The special characters among the label values. -/
def specials (labels : List (String × String)) : Nat :=
  (labels.map fun l => l.2.toList.countP isSpecial).sum

theorem labelText_requests : LabelText requestLabel requestLabels where
  text key := by simp [requestLabel, requestLabels, labelText]
  names _ := show ∀ n ∈ ["model", "status"], isName false n.toList by decide
  ne_nil _ := nofun
  inj key key' h := by simpa [requestLabels, Prod.ext_iff] using h

theorem labelText_tokens : LabelText tokenLabel tokenLabels where
  text key := by simp [tokenLabel, tokenLabels, labelText]
  names _ := show ∀ n ∈ ["model", "type"], isName false n.toList by decide
  ne_nil _ := nofun
  inj key key' h := by simpa [tokenLabels, Prod.ext_iff] using h

theorem labelText_queue : LabelText queueLabel queueLabels where
  text key := by simp [queueLabel, queueLabels, labelText]
  names _ := show ∀ n ∈ ["model"], isName false n.toList by decide
  ne_nil _ := nofun
  inj key key' h := by simpa [queueLabels] using h

theorem specials_eq_zero {ls : List (String × String)} : specials ls = 0 ↔ ∀ l ∈ ls, Plain l.2 := by
  rw [specials, List.sum_eq_zero_iff]
  simp only [List.forall_mem_map, plain_iff]

theorem LabelText.plainLabel (h : LabelText label labels) {key : κ}
    (hplain : specials (labels key) = 0) :
    ∀ l ∈ labels key, PlainLabel l :=
  fun l hl => ⟨h.names key l.1 (List.mem_map.mpr ⟨l, hl, rfl⟩), specials_eq_zero.mp hplain l hl⟩

/-- Label values without special characters are read back, so that different ones have different
texts. -/
theorem LabelText.eq_of_label (h : LabelText label labels) {key key' : κ}
    (hkey : specials (labels key) = 0) (hkey' : specials (labels key') = 0)
    (heq : label key = label key') : key = key' := by
  have hread := fun key (hkey : specials (labels key) = 0) n hn =>
    @readLabels_labelText (labels key) (h.plainLabel hkey) n hn []
  have hfirst := hread key hkey ((labels key).length + (labels key').length + 1) (by omega)
  have hsecond := hread key' hkey' ((labels key).length + (labels key').length + 1) (by omega)
  rw [← h.text, heq, h.text, hsecond] at hfirst
  exact h.inj (Prod.mk.inj (Option.some.inj hfirst)).1.symm

theorem LabelText.sampleLine_toList (h : LabelText label labels) (name : String) (key : κ)
    (x : Int) :
    (sampleLine name (label key) x).toList = sampleText name (labels key) x ++ ['\n'] := by
  have hne := h.ne_nil key
  have htext := h.text key
  cases hlabels : labels key with
  | nil => exact absurd hlabels hne
  | cons l ls =>
    rw [hlabels] at htext
    simp [sampleLine, sampleText, htext]

theorem LabelText.backslashes_label (h : LabelText label labels) (key : κ) :
    backslashes (label key).toList = ((labels key).map fun l => backslashes l.2.toList).sum := by
  rw [h.text]
  exact backslashes_labelText (h.names key)

theorem LabelText.escapes_sample (h : LabelText label labels) (name : String) (key : κ) (x : Int) :
    (intSample name (labels key) x).escapes = specials (labels key) +
      backslashes (label key).toList := by
  rw [h.backslashes_label, specials, ← List.sum_map_add]
  rfl

theorem LabelText.sum_escapes (h : LabelText label labels) (name : String) (x : κ → Int)
    (keys : List κ) :
    (keys.map fun key => (intSample name (labels key) (x key)).escapes).sum =
      (keys.map fun key => specials (labels key)).sum +
        (keys.map fun key => backslashes (label key).toList).sum := by
  rw [← List.sum_map_add]
  simp only [h.escapes_sample]

/-! ### One metric -/

variable {ν : Type} (value : ν → Int)

/-- The lines of a metric, with a header of two lines. -/
def metricLines (name help : String) (kind : Kind) (labels : κ → List (String × String))
    (rows : List (κ × ν)) : List (List Char) :=
  helpText name help :: typeText name kind :: rows.map fun row =>
    sampleText name (labels row.1) (value row.2)

def metricEntries (name help : String) (kind : Kind) (labels : κ → List (String × String))
    (rows : List (κ × ν)) : List Entry :=
  .help name help :: .type name kind :: rows.map fun row =>
    .sample (intSample name (labels row.1) (value row.2))

theorem samples_metricEntries (name help : String) (kind : Kind) (rows : List (κ × ν)) :
    samples (metricEntries value name help kind labels rows) =
      rows.map fun row => intSample name (labels row.1) (value row.2) := by
  rw [samples, metricEntries, List.filterMap_cons_none rfl, List.filterMap_cons_none rfl,
    List.filterMap_map]
  simp [Function.comp_def, Entry.sample?]

theorem header_toList (name help : String) (kind : Kind) :
    (header name help kind).toList = helpText name help ++ '\n' ::
      (typeText name kind ++ ['\n']) := by
  simp [header, helpText, typeText]

theorem LabelText.metric_toList (h : LabelText label labels) (name help : String) (kind : Kind)
    (rows : List (κ × ν)) :
    (header name help kind).toList ++
        (String.join (rows.map fun row => sampleLine name (label row.1) (value row.2))).toList =
      (metricLines value name help kind labels rows).flatMap (· ++ ['\n']) := by
  simp [header_toList, metricLines, List.flatMap, Function.comp_def, h.sampleLine_toList]

/-- The help text of a metric stands for itself, on one line. -/
structure IsHelp (help : String) : Prop where
  slash : '\\' ∉ help.toList
  feed : '\n' ∉ help.toList
  blank : skipBlanks help.toList = help.toList

theorem LabelText.reads_metric (h : LabelText label labels) {help : String} (kind : Kind)
    (hname : isName true name.toList) (hhelp : IsHelp help) {rows : List (κ × ν)}
    (hplain : ∀ row ∈ rows, specials (labels row.1) = 0) :
    List.Forall₂ ReadsAs (metricLines value name help kind labels rows)
      (metricEntries value name help kind labels rows) := by
  refine .cons (readsAs_helpText hname hhelp.slash hhelp.feed hhelp.blank)
    (.cons (readsAs_typeText hname kind) ?_)
  rw [List.forall₂_map_left_iff, List.forall₂_map_right_iff, List.forall₂_same]
  exact fun row hrow => readsAs_sampleText hname (h.plainLabel (hplain row hrow)) _

theorem backslashes_sampleLines {name : String} (hname : backslashes name.toList = 0) {ρ : Type}
    (text : ρ → String) (x : ρ → Int) (rows : List ρ) :
    backslashes (String.join (rows.map fun row => sampleLine name (text row) (x row))).toList =
      (rows.map fun row => backslashes (text row).toList).sum := by
  induction rows with
  | nil => rfl
  | cons row rows ih =>
    have hnumber : backslashes (formatInt (x row)).toList = 0 :=
      List.count_eq_zero.mpr (notMem_formatInt (x row) (by decide) (by decide))
    rw [String.toList_join] at ih ⊢
    rw [List.map_cons, List.flatMap_cons, backslashes_append, ih, List.map_cons, List.sum_cons]
    simp [sampleLine, backslashes_append, backslashes_cons, hname, hnumber]

end

/-! ### The whole text -/

/-- No label value of these keys has a special character. -/
def PlainKeys {κ β : Type} [DecidableEq κ] (labels : κ → List (String × String))
    (events : List (κ × β)) : Prop :=
  ∀ key ∈ keysOf events, specials (labels key) = 0

theorem plainKeys_of_sum {κ β : Type} [DecidableEq κ] {labels : κ → List (String × String)}
    {events : List (κ × β)} (h : ((keysOf events).map fun key => specials (labels key)).sum = 0) :
    PlainKeys labels events := by
  rw [List.sum_eq_zero_iff, List.forall_mem_map] at h
  exact h

theorem plainKeys_filterMap {κ β : Type} [DecidableEq κ] {labels : κ → List (String × String)}
    {event : Call → Option (κ × β)} {calls : List Call} :
    PlainKeys labels (calls.filterMap event) ↔ ∀ c ∈ calls, ∀ e ∈ event c,
      specials (labels e.1) = 0 := by
  simp only [PlainKeys, mem_keysOf, List.mem_map, List.mem_filterMap]
  constructor
  · intro h c hc e he
    exact h e.1 ⟨e, ⟨c, hc, he⟩, rfl⟩
  · rintro h key ⟨e, ⟨c, hc, he⟩, rfl⟩
    exact h c hc e he

theorem Call.plain_iff (c : Call) :
    (∀ v ∈ c.labelValues, Plain v) ↔
      (∀ e ∈ c.request, specials (requestLabels e.1) = 0) ∧
      (∀ e ∈ c.tokens, specials (tokenLabels e.1) = 0) ∧
      ∀ e ∈ c.queueLength, specials (queueLabels e.1) = 0 := by
  cases c with
  | addTokens model tokenType count =>
    by_cases hcount : count ≤ 0 <;>
      simp [labelValues, request, tokens, queueLength, hcount, specials_eq_zero, tokenLabels]
  | _ =>
    simp [labelValues, request, tokens, queueLength, specials_eq_zero, requestLabels, queueLabels]

theorem plain_calls_iff {calls : List Call} :
    (∀ c ∈ calls, ∀ v ∈ c.labelValues, Plain v) ↔
      PlainKeys requestLabels (calls.filterMap Call.request) ∧
      PlainKeys tokenLabels (calls.filterMap Call.tokens) ∧
      PlainKeys queueLabels (calls.filterMap Call.queueLength) := by
  simp only [Call.plain_iff, plainKeys_filterMap, forall_and]

theorem isHelp_all : IsHelp "Total number of requests processed." ∧
    IsHelp "Total number of tokens processed." ∧ IsHelp "Current number of requests in queue." ∧
      IsHelp "Current number of busy worker goroutines." := by
  refine ⟨⟨?_, ?_, ?_⟩, ⟨?_, ?_, ?_⟩, ⟨?_, ?_, ?_⟩, ⟨?_, ?_, ?_⟩⟩ <;> decide

theorem isName_all : isName true "proxyllm_requests_total".toList ∧
    isName true "proxyllm_tokens_total".toList ∧ isName true "proxyllm_queue_length".toList ∧
      isName true "proxyllm_worker_busy_count".toList := by
  decide

theorem backslashes_header {name help : String} (hname : isName true name.toList)
    (hhelp : IsHelp help) (kind : Kind) : backslashes (header name help kind).toList = 0 := by
  have hkind : backslashes kind.text.toList = 0 := by cases kind <;> decide
  have htext : backslashes help.toList = 0 := List.count_eq_zero.mpr hhelp.slash
  simp [header, backslashes_append, backslashes_cons, backslashes_name hname, hkind, htext]

/-- The backslashes in the text are those in the texts of the labels. -/
theorem backslashes_writePrometheus (requests tokens : List (String × Nat))
    (queue : List (String × Int)) (busy : Int) :
    backslashes (writePrometheus requests tokens queue busy).toList =
      (requests.map fun row => backslashes row.1.toList).sum +
        (tokens.map fun row => backslashes row.1.toList).sum +
        (queue.map fun row => backslashes (queueLabel row.1).toList).sum := by
  obtain ⟨hhelp₁, hhelp₂, hhelp₃, hhelp₄⟩ := isHelp_all
  obtain ⟨hname₁, hname₂, hname₃, hname₄⟩ := isName_all
  have hbusy :
      backslashes ("proxyllm_worker_busy_count " ++ formatInt busy ++ "\n").toList = 0 := by
    have hnumber := notMem_formatInt busy (c := '\\') (by decide) (by decide)
    rw [backslashes, List.count_eq_zero]
    simp [hnumber]
  simp only [writePrometheus, String.toList_append, backslashes_append,
    backslashes_header hname₁ hhelp₁, backslashes_header hname₂ hhelp₂,
    backslashes_header hname₃ hhelp₃, backslashes_header hname₄ hhelp₄,
    backslashes_sampleLines (backslashes_name hname₁),
    backslashes_sampleLines (backslashes_name hname₂),
    backslashes_sampleLines (backslashes_name hname₃)]
  simp only [String.toList_append, backslashes_append] at hbusy
  omega

/-- If what is read is what was recorded, the values ask for all backslashes of the text, and there
are none left to escape anything. -/
theorem plainKeys_of_decodes {calls : List Call} {text : String}
    (hwrites : (Registry.after calls).Writes text) (h : Decodes calls text) :
    PlainKeys requestLabels (calls.filterMap Call.request) ∧
      PlainKeys tokenLabels (calls.filterMap Call.tokens) ∧
      PlainKeys queueLabels (calls.filterMap Call.queueLength) := by
  obtain ⟨requests, tokens, queue, hrequests, htokens, hqueue, rfl⟩ := hwrites
  obtain ⟨entries, hread, hperm⟩ := h
  have hcost := escapes_readText hread
  rw [(hperm.map Sample.escapes).sum_eq, backslashes_writePrometheus, (hrequests.map _).sum_eq,
    (htokens.map _).sum_eq, (hqueue.map _).sum_eq, Registry.requestsTotal_after,
    Registry.tokensTotal_after, Registry.queueLength_after] at hcost
  have hrequests :=
    @Keyed.sum_recordAll_map_le _ _ _ _ _ _ addUint64 0 (calls.filterMap Call.request)
    requestLabel fun label => backslashes label.toList
  have htokens := @Keyed.sum_recordAll_map_le _ _ _ _ _ _ addUint64 0 (calls.filterMap Call.tokens)
    tokenLabel fun label => backslashes label.toList
  have hqueue :=
    @Keyed.sum_recordAll_map_le _ _ _ _ _ _ storeInt64 0 (calls.filterMap Call.queueLength)
    id fun model => backslashes (queueLabel model).toList
  simp only [recorded, totals, lengths, List.map_append, List.map_map, List.sum_append,
    Function.comp_def, labelText_requests.sum_escapes, labelText_tokens.sum_escapes,
    labelText_queue.sum_escapes] at hcost
  simp only [id] at hqueue
  exact ⟨plainKeys_of_sum (by omega), plainKeys_of_sum (by omega), plainKeys_of_sum (by omega)⟩

/-- The rows of a table of counters whose labels are plain, in any order. -/
theorem LabelText.exists_rows {label : String × String → String}
    {labels : String × String → List (String × String)} (h : LabelText label labels)
    {events : List ((String × String) × Nat)} (hplain : PlainKeys labels events)
    {rows : List (String × Nat)}
    (hrows : rows.Perm (Keyed.recordAll addUint64 0 (events.map (Prod.map label id))).rows) :
    ∃ rows' : List ((String × String) × Nat), rows'.Perm (totals events) ∧
      rows = rows'.map fun row => (label row.1, row.2) := by
  have htotal (ns : List Nat) : ns.foldl addUint64 0 = ns.sum % 2 ^ 64 := by
    simpa using foldl_addUint64 ns 0
  have hperm : rows.Perm ((totals events).map fun row => (label row.1, row.2)) := by
    refine hrows.trans ((Keyed.recordAll_map_perm fun key hkey key' hkey' =>
      h.eq_of_label (hplain key hkey) (hplain key' hkey')).trans (.of_eq ?_))
    rw [totals, List.map_map]
    simp only [htotal, Function.comp_def]
  rw [← congrFun₂ (List.eq_map_comp_perm fun row : (String × String) × Nat => (label row.1, row.2))]
    at hperm
  obtain ⟨rows', rfl, hperm'⟩ := hperm
  exact ⟨rows', hperm', rfl⟩

theorem queueRows_perm (events : List (String × Int)) :
    (Keyed.recordAll storeInt64 0 (events.map (Prod.map id id))).rows.Perm (lengths events) := by
  refine (Keyed.recordAll_map_perm fun _ _ _ _ => id).trans (.of_eq ?_)
  simp only [lengths, foldl_storeInt64]

/-- The rows of a table, in any order, have its keys. -/
theorem PlainKeys.rows {κ β : Type} [DecidableEq κ] {labels : κ → List (String × String)}
    {events : List (κ × β)} (h : PlainKeys labels events) {value : κ → β} {rows : List (κ × β)}
    (hrows : rows.Perm ((keysOf events).map fun key => (key, value key))) :
    ∀ row ∈ rows, specials (labels row.1) = 0 := by
  intro row hrow
  obtain ⟨key, hkey, rfl⟩ := List.mem_map.mp (hrows.mem_iff.mp hrow)
  exact h key hkey

/-- The lines of the text, if no label has to be escaped. -/
def textLines (requests tokens : List ((String × String) × Nat)) (queue : List (String × Int))
    (busy : Int) : List (List Char) :=
  metricLines Nat.cast "proxyllm_requests_total" "Total number of requests processed." .counter
    requestLabels requests ++
  metricLines Nat.cast "proxyllm_tokens_total" "Total number of tokens processed." .counter
    tokenLabels tokens ++
  metricLines id "proxyllm_queue_length" "Current number of requests in queue." .gauge
    queueLabels queue ++
  [helpText "proxyllm_worker_busy_count" "Current number of busy worker goroutines.",
    typeText "proxyllm_worker_busy_count" .gauge, sampleText "proxyllm_worker_busy_count" [] busy]

def textEntries (requests tokens : List ((String × String) × Nat)) (queue : List (String × Int))
    (busy : Int) : List Entry :=
  metricEntries Nat.cast "proxyllm_requests_total" "Total number of requests processed." .counter
    requestLabels requests ++
  metricEntries Nat.cast "proxyllm_tokens_total" "Total number of tokens processed." .counter
    tokenLabels tokens ++
  metricEntries id "proxyllm_queue_length" "Current number of requests in queue." .gauge
    queueLabels queue ++
  [.help "proxyllm_worker_busy_count" "Current number of busy worker goroutines.",
    .type "proxyllm_worker_busy_count" .gauge,
    .sample (intSample "proxyllm_worker_busy_count" [] busy)]

theorem writePrometheus_toList (requests tokens : List ((String × String) × Nat))
    (queue : List (String × Int)) (busy : Int) :
    (writePrometheus (requests.map fun row => (requestLabel row.1, row.2))
      (tokens.map fun row => (tokenLabel row.1, row.2)) queue busy).toList =
      (textLines requests tokens queue busy).flatMap (· ++ ['\n']) := by
  simp only [textLines, List.flatMap_append, ← labelText_requests.metric_toList,
    ← labelText_tokens.metric_toList, ← labelText_queue.metric_toList, writePrometheus,
    String.toList_append, List.map_map, List.append_assoc, Function.comp_def, List.flatMap_cons,
    List.flatMap_nil]
  simp [header_toList, sampleText]

theorem reads_text {requests tokens : List ((String × String) × Nat)} {queue : List (String × Int)}
    (hrequests : ∀ row ∈ requests, specials (requestLabels row.1) = 0)
    (htokens : ∀ row ∈ tokens, specials (tokenLabels row.1) = 0)
    (hqueue : ∀ row ∈ queue, specials (queueLabels row.1) = 0) (busy : Int) :
    List.Forall₂ ReadsAs (textLines requests tokens queue busy)
      (textEntries requests tokens queue busy) := by
  obtain ⟨hhelp₁, hhelp₂, hhelp₃, hhelp₄⟩ := isHelp_all
  obtain ⟨hname₁, hname₂, hname₃, hname₄⟩ := isName_all
  refine List.rel_append (List.rel_append (List.rel_append ?_ ?_) ?_) ?_
  · exact labelText_requests.reads_metric _ _ hname₁ hhelp₁ hrequests
  · exact labelText_tokens.reads_metric _ _ hname₂ hhelp₂ htokens
  · exact labelText_queue.reads_metric _ _ hname₃ hhelp₃ hqueue
  · exact .cons (readsAs_helpText hname₄ hhelp₄.slash hhelp₄.feed hhelp₄.blank)
      (.cons (readsAs_typeText hname₄ .gauge)
        (.cons (@readsAs_sampleText _ hname₄ [] (List.forall_mem_nil _) busy) .nil))

theorem samples_textEntries (requests tokens : List ((String × String) × Nat))
    (queue : List (String × Int)) (busy : Int) :
    samples (textEntries requests tokens queue busy) =
      (requests.map fun row => intSample "proxyllm_requests_total" (requestLabels row.1) row.2) ++
      (tokens.map fun row => intSample "proxyllm_tokens_total" (tokenLabels row.1) row.2) ++
      (queue.map fun row => intSample "proxyllm_queue_length" (queueLabels row.1) row.2) ++
      [intSample "proxyllm_worker_busy_count" [] busy] := by
  have happend (entries entries' : List Entry) :
      samples (entries ++ entries') = samples entries ++ samples entries' :=
    List.filterMap_append
  rw [textEntries, happend, happend, happend, samples_metricEntries, samples_metricEntries,
    samples_metricEntries]
  rfl

theorem decodes_of_plainKeys {calls : List Call} {text : String}
    (hwrites : (Registry.after calls).Writes text)
    (hplain₁ : PlainKeys requestLabels (calls.filterMap Call.request))
    (hplain₂ : PlainKeys tokenLabels (calls.filterMap Call.tokens))
    (hplain₃ : PlainKeys queueLabels (calls.filterMap Call.queueLength)) : Decodes calls text := by
  obtain ⟨requests, tokens, queue, hrequests, htokens, hqueue, rfl⟩ := hwrites
  rw [Registry.requestsTotal_after] at hrequests
  rw [Registry.tokensTotal_after] at htokens
  rw [Registry.queueLength_after] at hqueue
  obtain ⟨requests, hperm₁, rfl⟩ := labelText_requests.exists_rows hplain₁ hrequests
  obtain ⟨tokens, hperm₂, rfl⟩ := labelText_tokens.exists_rows hplain₂ htokens
  have hperm₃ := hqueue.trans (queueRows_perm _)
  refine ⟨textEntries requests tokens queue (Registry.after calls).workerBusyCount, ?_, ?_⟩
  · rw [readText, writePrometheus_toList]
    exact readLines_lines
      (reads_text (hplain₁.rows hperm₁) (hplain₂.rows hperm₂) (hplain₃.rows hperm₃) _)
  · rw [samples_textEntries, Registry.workerBusyCount_after]
    exact (((hperm₁.map _).append (hperm₂.map _)).append (hperm₃.map _)).append (.refl _)

/-- The text of the metrics decodes to what was recorded exactly when no label value in it has a
quote, a backslash or a line feed. -/
theorem metrics_decode_iff {calls : List Call} {text : String}
    (hwrites : (Registry.after calls).Writes text) :
    Decodes calls text ↔ ∀ c ∈ calls, ∀ v ∈ c.labelValues, Plain v := by
  rw [plain_calls_iff]
  constructor
  · exact plainKeys_of_decodes hwrites
  · rintro ⟨hplain₁, hplain₂, hplain₃⟩
    exact decodes_of_plainKeys hwrites hplain₁ hplain₂ hplain₃

/-- A request for a model, and its tokens. -/
theorem metrics_decode_request :
    ∃ text, (Registry.after [.setQueueLength "gpt-4" 1, .incRequests "gpt-4" "success",
        .addTokens "gpt-4" "prompt" 12, .addTokens "gpt-4" "completion" 0]).Writes text ∧
      Decodes [.setQueueLength "gpt-4" 1, .incRequests "gpt-4" "success",
        .addTokens "gpt-4" "prompt" 12, .addTokens "gpt-4" "completion" 0] text := by
  obtain ⟨hmodel, hstatus, htype⟩ : Plain "gpt-4" ∧ Plain "success" ∧ Plain "prompt" := by decide
  refine ⟨_, ⟨_, _, _, .refl _, .refl _, .refl _, rfl⟩,
    (metrics_decode_iff ⟨_, _, _, .refl _, .refl _, .refl _, rfl⟩).mpr ?_⟩
  simp [Call.labelValues, hmodel, hstatus, htype]

/-- A model with a quote in its name, as a client may send it: the text is not read. -/
theorem quoted_model_unreadable :
    ∃ text, (Registry.after [.incRequests "a\"b" "queue_full"]).Writes text ∧
      readText text = none := by
  refine ⟨_, ⟨[(requestLabel ("a\"b", "queue_full"), 1)], _, _, .refl _, .refl _, .refl _, rfl⟩, ?_⟩
  let line := "proxyllm_requests_total\x7bmodel=\"a\"b\",status=\"queue_full\"\x7d 1".toList
  have hline :
    (sampleLine "proxyllm_requests_total" (requestLabel ("a\"b", "queue_full")) (1 : Nat)).toList =
      line ++ ['\n'] := by decide
  have hfeed : '\n' ∉ line := by decide
  have hnone : readLine line = none := by decide
  obtain ⟨hhelp, -⟩ := isHelp_all
  obtain ⟨hname, -⟩ := isName_all
  have hreads := readsAs_helpText hname hhelp.slash hhelp.feed hhelp.blank
  have htypes := readsAs_typeText hname .counter
  rw [readText, writePrometheus]
  simp only [String.toList_append, List.map_cons, String.toList_join, List.flatMap_cons,
    List.append_assoc]
  rw [header_toList, List.append_assoc, List.cons_append, readLines_line hreads.line_feed,
    hreads.read, List.append_assoc, List.singleton_append, readLines_line htypes.line_feed,
    htypes.read, hline, List.append_assoc, List.singleton_append, readLines_line hfeed, hnone]
  rfl

end LlmProxy.Metrics
