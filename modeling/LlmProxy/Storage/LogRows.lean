import LlmProxy.Storage.TimeSeries

/-! The columns of `request_logs` and `detail_logs`, and how `scanRequestLog` and `GetDetail` read
them.  Times are stored as texts and truth values as numbers; nothing of a log is lost on the
way. -/

namespace LlmProxy.Storage

open ProofKit

/-! ### Times -/

theorem length_trimZeros_le (cs : List Char) : (trimZeros cs).length ≤ cs.length := by
  induction cs with
  | nil => exact Nat.le_refl _
  | cons c cs ih =>
    rw [trimZeros]
    split
    · exact Nat.zero_le _
    · exact Nat.succ_le_succ ih

theorem length_fractionDigits_le (width n : Nat) : (fractionDigits width n).length ≤ width := by
  have := length_trimZeros_le (pad width n)
  rwa [length_pad] at this

/-- The digits that are left of a fraction stand for the whole of it. -/
theorem ofDigitChars_fractionDigits {width n : Nat} (hn : n < 10 ^ width) :
    Nat.ofDigitChars 10 (fractionDigits width n) 0 *
      10 ^ (width - (fractionDigits width n).length) = n := by
  induction width generalizing n with
  | zero =>
    obtain rfl : n = 0 := by simpa using hn
    rfl
  | succ width ih =>
    by_cases hzero : n = 0
    · rw [(fractionDigits_eq_nil hn).mpr hzero, hzero]
      simp
    · have hrest := ih (Nat.mod_lt n (Nat.pow_pos (by decide) : 0 < 10 ^ width))
      have hlength := length_fractionDigits_le width (n % 10 ^ width)
      have hvalue := (digitChar_spec (div_lt_ten hn)).2
      rw [fractionDigits_cons hn hzero, Nat.ofDigitChars_cons, Nat.mul_zero, Nat.zero_add, hvalue,
        Nat.ofDigitChars_eq_ofDigitChars_zero, List.length_cons, Nat.add_sub_add_right,
        Nat.add_mul, hrest, Nat.mul_right_comm, ← Nat.pow_add, Nat.add_sub_cancel' hlength]
      exact Nat.div_add_mod n (10 ^ width)

theorem readEnd_fraction_eq {n : Nat} (hn : n < 10 ^ 9) :
    readEnd (Instant.fraction n ++ ['Z']) = some n := by
  by_cases hzero : n = 0
  · subst hzero
    rfl
  · obtain ⟨d, hd, digits, hdigits, htext⟩ := Instant.fraction_cons hn hzero
    have hall : (fractionDigits 9 n).all Char.isDigit = true :=
      List.all_eq_true.mpr fun c hc => isDigit_of_mem_fractionDigits hc
    have hne : fractionDigits 9 n ≠ [] := by simp [hdigits]
    have hnanos : fractionNanos (fractionDigits 9 n) = n := by
      rw [fractionNanos, List.take_of_length_le (length_fractionDigits_le 9 n)]
      exact ofDigitChars_fractionDigits hn
    rw [htext, ← hdigits, List.cons_append, readEnd]
    simp only [List.dropLast_concat, List.getLast?_concat, hnanos]
    exact if_pos ⟨trivial, hne, hall⟩

/-- `time.Parse` reads back every time that was formatted, to the nanosecond. -/
theorem parseRFC3339_stored (t : Instant) : parseRFC3339 t.text = some t := by
  have hread : readStamp t.text = some (ClockFields.ofSeconds t.seconds, t.nanosecond) := by
    rw [readStamp, Instant.text, String.toList_ofList, readClock_clockText t.seconds_lt,
      Option.bind_some]
    simp [ofSeconds_valid, readEnd_fraction_eq t.nanosecond_lt]
  have hnanos : (ClockFields.ofSeconds t.seconds).seconds * 10 ^ 9 + t.nanosecond = t.nanos := by
    rw [seconds_ofSeconds, Nat.mul_comm]
    exact Nat.div_add_mod t.nanos (10 ^ 9)
  rw [parseRFC3339, hread, Option.bind_some]
  simp only [hnanos, t.inRange, dite_true]

/-! ### Rows -/

def boolToInt (b : Bool) : Int := if b then 1 else 0

/-- `n != 0`. -/
def intToBool (n : Int) : Bool := n != 0

@[simp] theorem intToBool_boolToInt (b : Bool) : intToBool (boolToInt b) = b := by cases b <;> rfl

/-- The columns of `request_logs`. -/
structure RequestRow where
  id : String
  sessionID : String
  timestamp : String
  apiKeyID : String
  modelAlias : String
  nodeID : String
  actualModel : String
  promptTokens : Int
  completionTokens : Int
  totalTokens : Int
  durationMs : Int
  statusCode : Int
  stream : Int
  errorMsg : String
  hasDetail : Int

/-- The values that `InsertRequestLog` and `BulkInsertRequestLogs` pass. -/
def requestRow (log : RequestLog) : RequestRow :=
  { log with
    timestamp := log.timestamp.text
    stream := boolToInt log.stream
    hasDetail := boolToInt log.hasDetail }

/-- A time that cannot be read is the zero time. -/
def parseStored (text : String) : Instant := (parseRFC3339 text).getD zeroTime

def scanRequestLog (row : RequestRow) : RequestLog :=
  { row with
    timestamp := parseStored row.timestamp
    stream := intToBool row.stream
    hasDetail := intToBool row.hasDetail }

theorem parseStored_text (t : Instant) : parseStored t.text = t := by
  rw [parseStored, parseRFC3339_stored, Option.getD_some]

theorem scanRequestLog_requestRow (log : RequestLog) : scanRequestLog (requestRow log) = log := by
  simp only [scanRequestLog, requestRow, parseStored_text, intToBool_boolToInt]

/-- The columns of `detail_logs`. -/
structure DetailRow where
  traceID : String
  sessionID : String
  timestamp : String
  requestBody : String
  responseBody : String

def detailRow (log : DetailLog) : DetailRow := { log with timestamp := log.timestamp.text }

def scanDetail (row : DetailRow) : DetailLog := { row with timestamp := parseStored row.timestamp }

theorem scanDetail_detailRow (log : DetailLog) : scanDetail (detailRow log) = log := by
  simp only [scanDetail, detailRow, parseStored_text]

/-! ### Tables -/

/-- `request_logs` and `detail_logs`, by their columns. -/
abbrev RequestRows := Keyed RequestRow.id

abbrev DetailRows := Keyed DetailRow.traceID

/-- `BulkInsertRequestLogs`, which `InsertRequestLog` is one round of. -/
def insertRequestRows (t : RequestRows) (logs : List RequestLog) : RequestRows :=
  logs.foldl (fun t log => t.insertNew (requestRow log)) t

/-- `BulkInsertDetailLogs`, which `InsertDetailLog` is one round of. -/
def insertDetailRows (t : DetailRows) (logs : List DetailLog) : DetailRows :=
  logs.foldl (fun t log => t.insertNew (detailRow log)) t

/-- `GetDetail`. -/
def readDetail (t : DetailRows) (traceID : String) : Option DetailLog :=
  (t.get? traceID).map scanDetail

/-- The columns hold these logs. -/
def Holds (t : RequestRows) (logs : Logs) : Prop := t.rows = logs.rows.map requestRow

theorem Holds.insertNew {t : RequestRows} {logs : Logs} (h : Holds t logs) (log : RequestLog) :
    Holds (t.insertNew (requestRow log)) (logs.insertNew log) := by
  have hids : t.rows.map RequestRow.id = logs.rows.map RequestLog.id := by
    rw [h, List.map_map]
    rfl
  unfold Holds Keyed.insertNew
  by_cases hmem : log.id ∈ logs.rows.map RequestLog.id
  · rw [dif_pos hmem,
      dif_pos (show (requestRow log).id ∈ t.rows.map RequestRow.id from hids ▸ hmem)]
    exact h
  · rw [dif_neg hmem,
      dif_neg (show (requestRow log).id ∉ t.rows.map RequestRow.id from hids ▸ hmem)]
    simp only [List.map_append, List.map_cons, List.map_nil]
    rw [h]

theorem Holds.insert {t : RequestRows} {logs : Logs} (h : Holds t logs) (batch : List RequestLog) :
    Holds (insertRequestRows t batch) (bulkInsertRequestLogs logs batch) := by
  induction batch generalizing t logs with
  | nil => exact h
  | cons log batch ih => exact ih (h.insertNew log)

theorem Holds.scan {t : RequestRows} {logs : Logs} (h : Holds t logs) :
    t.rows.map scanRequestLog = logs.rows := by
  rw [h, List.map_map]
  exact (List.map_congr_left fun log _ => scanRequestLog_requestRow log).trans (List.map_id _)

/-- Of the entries inserted under a key the first one is found, unless there was one before. -/
theorem get?_insertRows {α ρ : Type} {key : ρ → String} {row : α → ρ} {scan : ρ → α}
    (hscan : ∀ x, scan (row x) = x) (t : Keyed key) (batch : List α) (k : String) :
    ((batch.foldl (fun t x => t.insertNew (row x)) t).get? k).map scan =
      ((t.get? k).map scan).or (batch.find? fun x => key (row x) = k) := by
  induction batch generalizing t with
  | nil => simp
  | cons x batch ih =>
    rw [List.foldl_cons, ih, Keyed.get?_insertNew, Option.map_or, Option.or_assoc, List.find?_cons]
    by_cases hk : key (row x) = k
    · rw [if_pos hk, Option.map_some, hscan]
      simp [hk]
    · simp [hk]

theorem readDetail_insert (t : DetailRows) (batch : List DetailLog) (traceID : String) :
    readDetail (insertDetailRows t batch) traceID =
      (readDetail t traceID).or (batch.find? (·.traceID = traceID)) :=
  get?_insertRows scanDetail_detailRow t batch traceID

/-- Whatever batches the logger has written, the rows that are read back are the logs of the first
entry under each id, as they were handed over, and `GetDetail` finds the first detail that was
written under a trace id. -/
theorem logs_read_back (requests : List (List RequestLog)) (details : List (List DetailLog)) :
    ((requests.foldl insertRequestRows .empty).rows.map scanRequestLog =
      (bulkInsertRequestLogs .empty requests.flatten).rows) ∧
    ∀ traceID, readDetail (details.foldl insertDetailRows .empty) traceID =
      details.flatten.find? (·.traceID = traceID) := by
  constructor
  · have hbatches (t : RequestRows) (logs : Logs) (h : Holds t logs) :
        Holds (requests.foldl insertRequestRows t)
          (bulkInsertRequestLogs logs requests.flatten) := by
      induction requests generalizing t logs with
      | nil => exact h
      | cons batch rest ih =>
        rw [List.flatten_cons, bulkInsertRequestLogs, List.foldl_append]
        exact ih _ _ (h.insert batch)
    exact (hbatches .empty .empty rfl).scan
  · intro traceID
    have hbatches (t : DetailRows) : readDetail (details.foldl insertDetailRows t) traceID =
        (readDetail t traceID).or (details.flatten.find? (·.traceID = traceID)) := by
      induction details generalizing t with
      | nil => simp
      | cons batch rest ih =>
        rw [List.foldl_cons, ih, readDetail_insert, List.flatten_cons, List.find?_append,
          Option.or_assoc]
    exact (hbatches .empty).trans Option.none_or

end LlmProxy.Storage
