import LlmProxy.ProofKit.Keyed
import LlmProxy.ProofKit.Strconv
import LlmProxy.Storage.Timestamp
import Mathlib.Algebra.BigOperators.Group.List.Basic

/-! The tables `request_logs` and `detail_logs` of `SQLiteLogger`: how they are written, searched,
sorted and pruned.  A row is its log; the text in its column `timestamp` is that of the log's
time. -/

namespace LlmProxy

open ProofKit Storage

/-- `domain.RequestLog`. -/
structure RequestLog where
  id : String
  sessionID : String := ""
  timestamp : Instant
  apiKeyID : String := ""
  modelAlias : String := ""
  nodeID : String := ""
  actualModel : String := ""
  promptTokens : Int := 0
  completionTokens : Int := 0
  totalTokens : Int := 0
  durationMs : Int := 0
  statusCode : Int := 0
  stream : Bool := false
  errorMsg : String := ""
  hasDetail : Bool := false
  deriving DecidableEq

/-- `domain.DetailLog`. -/
structure DetailLog where
  traceID : String
  sessionID : String := ""
  timestamp : Instant
  requestBody : String := ""
  responseBody : String := ""
  deriving DecidableEq

/-- `domain.LogFilter`. -/
structure LogFilter where
  apiKeyID : String := ""
  modelAlias : String := ""
  nodeID : String := ""
  sessionID : String := ""
  statusCode : Int := 0
  errorOnly : Bool := false
  keyword : String := ""
  startTime : Option Instant := none
  endTime : Option Instant := none
  page : Int := 0
  pageSize : Int := 0

/-- `domain.LogStats`. -/
structure LogStats where
  totalRequests : Nat
  promptTokens : Int
  completionTokens : Int
  totalTokens : Int
  deriving DecidableEq

namespace Storage

/-! ### Conditions -/

/-- What a pattern of `LIKE` stands for: `%` for any text, `_` for any character, and every other
character for itself, where the case of ASCII letters is ignored. -/
def patternMatches : List Char → List Char → Bool
  | [], text => text.isEmpty
  | p :: ps, text =>
    if p = '%' then text.tails.any (patternMatches ps)
    else
      match text with
      | [] => false
      | c :: cs => (p = '_' || p.toLower = c.toLower) && patternMatches ps cs

/-- A database whose `LIKE` goes by that. -/
def plainLike (pattern text : String) : Bool := patternMatches pattern.toList text.toList

/-- The two conditions on the time that `buildLogFilter` adds. -/
def inTime (f : LogFilter) (row : RequestLog) : Bool :=
  (f.startTime.all fun t => !decide (row.timestamp.text < t.text)) &&
    f.endTime.all fun t => !decide (t.text < row.timestamp.text)

-- The operator `LIKE` of the database: whether the pattern matches the text.
variable (like : String → String → Bool)

/-- Whether a row meets the condition of `buildLogFilter`. -/
def admits (f : LogFilter) (row : RequestLog) : Bool :=
  let pattern := "%" ++ f.keyword ++ "%"
  (f.apiKeyID = "" || row.apiKeyID = f.apiKeyID) &&
    (f.modelAlias = "" || row.modelAlias = f.modelAlias) &&
    (f.nodeID = "" || row.nodeID = f.nodeID) &&
    (f.sessionID = "" || row.sessionID = f.sessionID) &&
    (f.statusCode ≤ 0 || row.statusCode = f.statusCode) &&
    (!f.errorOnly || 400 ≤ row.statusCode || row.errorMsg ≠ "") &&
    (f.keyword = "" || like pattern row.errorMsg || like pattern row.id) &&
    inTime f row

/-! ### Statements -/

/-- The table `request_logs`. -/
abbrev Logs := Keyed RequestLog.id

/-- The table `detail_logs`. -/
abbrev Details := Keyed DetailLog.traceID

/-- `BulkInsertRequestLogs`: `INSERT OR IGNORE` for each of the logs. -/
def bulkInsertRequestLogs (t : Logs) (logs : List RequestLog) : Logs := logs.foldl Keyed.insertNew t

/-- The counts and the sums of a list of rows. -/
def statsOf (rows : List RequestLog) : LogStats where
  totalRequests := rows.length
  promptTokens := (rows.map (·.promptTokens)).sum
  completionTokens := (rows.map (·.completionTokens)).sum
  totalTokens := (rows.map (·.totalTokens)).sum

/-- `Stats`. -/
def stats (t : Logs) (f : LogFilter) : LogStats := statsOf (t.rows.filter (admits like f))

section Timed

variable {α : Type} {key : α → String} (time : α → Instant)

/-- `ORDER BY timestamp DESC` gives the rows in one of the orders in which no text is followed by a
greater one. -/
structure Descending (rows out : List α) : Prop where
  perm : out.Perm rows
  sorted : out.Pairwise fun a b => ¬ (time a).text < (time b).text

/-- `DELETE ... WHERE timestamp < ?`, if there is a cutoff. -/
def deleteBefore (cutoff : Option Instant) (t : Keyed key) : Keyed key :=
  t.filter fun row => cutoff.all fun c => !decide ((time row).text < c.text)

/-- `DELETE ... WHERE id IN ...`. -/
def deleteRows (rows : List α) (t : Keyed key) : Keyed key :=
  t.filter fun row => !(rows.map key).contains (key row)

/-- The pruning of both tables.  There is a cutoff if `maxDays` is positive. -/
inductive Pruned (maxRows : Int) (cutoff : Option Instant) (t : Keyed key) : Keyed key → Prop
  | byAge : maxRows ≤ 0 → Pruned maxRows cutoff t (deleteBefore time cutoff t)
  | byRows {sorted : List α} : 0 < maxRows →
    Descending time (deleteBefore time cutoff t).rows sorted →
      Pruned maxRows cutoff t (deleteRows (sorted.drop maxRows.toNat) (deleteBefore time cutoff t))

end Timed

/-- `PruneRequestLogs`. -/
def PruneRequestLogs (maxRows : Int) (cutoff : Option Instant) (t t' : Logs) : Prop :=
  Pruned RequestLog.timestamp maxRows cutoff t t'

/-- `PruneDetailLogs`. -/
def PruneDetailLogs (maxRows : Int) (cutoff : Option Instant) (t t' : Details) : Prop :=
  Pruned DetailLog.timestamp maxRows cutoff t t'

/-- `QueryLogs`: a page of the rows that the filter admits, the latest first, and their number.  The
offset is an `int`; SQLite takes a negative one for 0. -/
def QueryLogs (t : Logs) (f : LogFilter) (out : List RequestLog) (total : Nat) : Prop :=
  let page := if f.page < 1 then 1 else f.page
  let pageSize := if f.pageSize < 1 then 20 else f.pageSize
  let offset := wrapInt64 ((page - 1) * pageSize)
  total = (t.rows.filter (admits like f)).length ∧
    ∃ sorted, Descending RequestLog.timestamp (t.rows.filter (admits like f)) sorted ∧
      out = (sorted.drop offset.toNat).take pageSize.toNat

/-- `ExportLogs`: at most 100000 of the rows that the filter admits, the latest first. -/
def ExportLogs (t : Logs) (f : LogFilter) (out : List RequestLog) : Prop :=
  ∃ sorted, Descending RequestLog.timestamp (t.rows.filter (admits like f)) sorted ∧
    out = sorted.take 100000

variable {like}

theorem statsOf_perm {rows rows' : List RequestLog} (h : rows.Perm rows') :
    statsOf rows = statsOf rows' := by
  simp only [statsOf, h.length_eq, (h.map _).sum_eq]

theorem stats_unrestricted (t : Logs) : stats like t {} = statsOf t.rows := by
  rw [stats, List.filter_eq_self.mpr fun row _ => ?_]
  simp [admits, inTime]

/-! ### Time -/

/-- The texts of these times are in the order of the times. -/
def TextOrdered (times : Set Instant) : Prop :=
  ∀ t ∈ times, ∀ u ∈ times, t.text < u.text ↔ t < u

/-- What a filter with bounds on the time promises. -/
def Within (f : LogFilter) (t : Instant) : Prop :=
  (∀ start ∈ f.startTime, start ≤ t) ∧ ∀ last ∈ f.endTime, t ≤ last

/-- The latest first. -/
def LatestFirst {α : Type} (time : α → Instant) (rows : List α) : Prop :=
  rows.Pairwise fun a b => time b ≤ time a

/-- What pruning promises: no row before the cutoff is left, and another row goes only if there are
enough rows that are as late. -/
structure KeepsLatest {α : Type} {key : α → String} (time : α → Instant) (maxRows : Int)
    (cutoff : Option Instant) (t t' : Keyed key) : Prop where
  kept : ∀ row ∈ t', row ∈ t ∧ ∀ c ∈ cutoff, c ≤ time row
  deleted : ∀ row ∈ t, row ∉ t' → (∃ c ∈ cutoff, time row < c) ∨
    0 < maxRows ∧ maxRows.toNat ≤ t'.rows.length ∧ ∀ other ∈ t', time row ≤ time other

variable {times : Set Instant}

theorem TextOrdered.not_lt (h : TextOrdered times) {t u : Instant} (ht : t ∈ times)
    (hu : u ∈ times) :
    ¬ t.text < u.text ↔ u ≤ t := by
  rw [h t ht u hu, Instant.lt_def, Instant.le_def, Nat.not_lt]

/-- No set with two instants that can be confused is in order. -/
theorem textOrdered_iff :
    TextOrdered times ↔ ∀ t ∈ times, ∀ u ∈ times, ¬ Instant.Confusable t u := by
  constructor
  · intro h t ht u hu hconf
    have hsame := (h t ht u hu).symm.trans (Instant.text_lt_iff_of_confusable hconf)
    have heq : t.nanos = u.nanos := by
      rw [Instant.lt_def, Instant.lt_def] at hsame
      omega
    exact hconf.1 (by cases t; cases u; simpa using heq)
  · intro h t ht u hu
    exact Instant.text_lt_iff (h t ht u hu)

theorem TextOrdered.inTime (h : TextOrdered times) {f : LogFilter} {row : RequestLog}
    (hrow : row.timestamp ∈ times) (hstart : ∀ t ∈ f.startTime, t ∈ times)
    (hend : ∀ t ∈ f.endTime, t ∈ times) : inTime f row = true ↔ Within f row.timestamp := by
  simp only [Storage.inTime, Within, Bool.and_eq_true, Option.all_eq_true, Bool.not_eq_true',
    decide_eq_false_iff_not]
  refine and_congr (forall₂_congr fun t ht => ?_) (forall₂_congr fun t ht => ?_)
  · exact h.not_lt hrow (hstart t ht)
  · exact h.not_lt (hend t ht) hrow

section Timed

variable {α : Type} {key : α → String} {time : α → Instant}

theorem Descending.latestFirst {rows out : List α} (hout : Descending time rows out)
    (h : TextOrdered times) (hrows : ∀ row ∈ rows, time row ∈ times) : LatestFirst time out := by
  refine hout.sorted.imp_of_mem fun ha hb hab => ?_
  exact (h.not_lt (hrows _ (hout.perm.mem_iff.mp ha)) (hrows _ (hout.perm.mem_iff.mp hb))).mp hab

theorem mem_deleteBefore (h : TextOrdered times) {t : Keyed key} {cutoff : Option Instant}
    (hrows : ∀ row ∈ t, time row ∈ times) (hcutoff : ∀ c ∈ cutoff, c ∈ times) {row : α} :
    row ∈ deleteBefore time cutoff t ↔ row ∈ t ∧ ∀ c ∈ cutoff, c ≤ time row := by
  simp only [deleteBefore, Keyed.mem_filter, Option.all_eq_true, Bool.not_eq_true',
    decide_eq_false_iff_not]
  exact and_congr_right fun hrow => forall₂_congr fun c hc =>
    h.not_lt (hrows row hrow) (hcutoff c hc)

/-- Of a table that is listed, deleting the rest of the list leaves its first rows. -/
theorem deleteRows_rest {t : Keyed key} {first rest : List α}
    (hperm : (first ++ rest).Perm t.rows) :
    (deleteRows rest t).rows.Perm first := by
  have hnodup : (first.map key ++ rest.map key).Nodup := by
    rw [← List.map_append]
    exact (hperm.map key).nodup_iff.mpr t.nodup
  have hkeep : (first ++ rest).filter (fun row => !(rest.map key).contains (key row)) = first := by
    rw [List.filter_append, List.filter_eq_self.mpr fun row hrow => ?_,
      List.filter_eq_nil_iff.mpr fun row hrow => ?_, List.append_nil]
    · simpa using ⟨row, hrow, rfl⟩
    · have hnot := List.disjoint_of_nodup_append hnodup (List.mem_map_of_mem hrow)
      simpa using hnot
  exact (hperm.symm.filter _).trans (.of_eq hkeep)

theorem Pruned.keepsLatest (h : TextOrdered times) {t t' : Keyed key} {maxRows : Int}
    {cutoff : Option Instant} (hrows : ∀ row ∈ t, time row ∈ times)
    (hcutoff : ∀ c ∈ cutoff, c ∈ times) (hpruned : Pruned time maxRows cutoff t t') :
    KeepsLatest time maxRows cutoff t t' := by
  have haged {row : α} : row ∈ deleteBefore time cutoff t ↔ row ∈ t ∧ ∀ c ∈ cutoff, c ≤ time row :=
    mem_deleteBefore h hrows hcutoff
  have hold {row : α} (hrow : row ∈ t) (hgone : row ∉ deleteBefore time cutoff t) :
      ∃ c ∈ cutoff, time row < c := by
    by_contra hno
    refine hgone (haged.mpr ⟨hrow, fun c hc => ?_⟩)
    exact Nat.not_lt.mp fun hlt => hno ⟨c, hc, hlt⟩
  cases hpruned with
  | byAge hmax =>
    exact ⟨fun row hrow => haged.mp hrow, fun row hrow hgone => .inl (hold hrow hgone)⟩
  | @byRows sorted hmax hsorted =>
    have hsplit := List.take_append_drop maxRows.toNat sorted
    have hperm := deleteRows_rest ((List.Perm.of_eq hsplit).trans hsorted.perm)
    have hlatest := hsorted.latestFirst h fun row hrow => hrows row (haged.mp hrow).1
    refine ⟨fun row hrow => haged.mp (Keyed.mem_filter.mp hrow).1, fun row hrow hgone => ?_⟩
    by_cases hleft : row ∈ deleteBefore time cutoff t
    · -- The row is in the rest of the list, so that the first part of it is complete.
      have hlisted : row ∈ sorted.drop maxRows.toNat := by
        have hmem := hsorted.perm.mem_iff.mpr hleft
        rw [← hsplit, List.mem_append] at hmem
        exact hmem.resolve_left fun htake => hgone (hperm.mem_iff.mpr htake)
      have hlen := List.length_pos_of_mem hlisted
      rw [List.length_drop] at hlen
      refine .inr ⟨hmax, ?_, fun other hother => ?_⟩
      · rw [hperm.length_eq, List.length_take]
        omega
      · rw [← hsplit] at hlatest
        exact (List.pairwise_append.mp hlatest).2.2 other (hperm.mem_iff.mp hother) row hlisted
    · exact .inl (hold hrow hleft)

end Timed

/-- Filters, orders and prunings of rows at these times, and with bounds among these times, go by
time. -/
structure ByTime (like : String → String → Bool) (times : Set Instant) : Prop where
  text_lt : ∀ t ∈ times, ∀ u ∈ times, t.text < u.text ↔ t < u
  filtered : ∀ (f : LogFilter) (row : RequestLog), row.timestamp ∈ times →
    (∀ t ∈ f.startTime, t ∈ times) → (∀ t ∈ f.endTime, t ∈ times) →
    (inTime f row = true ↔ Within f row.timestamp)
  queried : ∀ (t : Logs) (f : LogFilter) (out : List RequestLog) (total : Nat),
    (∀ row ∈ t, row.timestamp ∈ times) → QueryLogs like t f out total →
    LatestFirst RequestLog.timestamp out
  exported : ∀ (t : Logs) (f : LogFilter) (out : List RequestLog),
    (∀ row ∈ t, row.timestamp ∈ times) → ExportLogs like t f out →
      LatestFirst RequestLog.timestamp out
  requestsPruned : ∀ (maxRows : Int) (cutoff : Option Instant) (t t' : Logs),
    (∀ row ∈ t, row.timestamp ∈ times) → (∀ c ∈ cutoff, c ∈ times) →
    PruneRequestLogs maxRows cutoff t t' → KeepsLatest RequestLog.timestamp maxRows cutoff t t'
  detailsPruned : ∀ (maxRows : Int) (cutoff : Option Instant) (t t' : Details),
    (∀ row ∈ t, row.timestamp ∈ times) → (∀ c ∈ cutoff, c ∈ times) →
    PruneDetailLogs maxRows cutoff t t' → KeepsLatest DetailLog.timestamp maxRows cutoff t t'

theorem latestFirst_admitted (h : TextOrdered times) {t : Logs} {f : LogFilter}
    {sorted : List RequestLog} (hrows : ∀ row ∈ t, row.timestamp ∈ times)
    (hsorted : Descending RequestLog.timestamp (t.rows.filter (admits like f)) sorted) :
    LatestFirst RequestLog.timestamp sorted :=
  hsorted.latestFirst h fun row hrow => hrows row (List.mem_of_mem_filter hrow)

/-- Rows are selected and ordered by time as long as no two of their times and of the bounds lie in
one second with the digits of one fraction going on after those of the other. -/
theorem byTime_iff (like : String → String → Bool) (times : Set Instant) :
    ByTime like times ↔ ∀ t ∈ times, ∀ u ∈ times, ¬ Instant.Confusable t u := by
  rw [← textOrdered_iff]
  refine ⟨fun h => h.text_lt, fun h => ?_⟩
  constructor
  · exact h
  · intro f row hrow hstart hend
    exact h.inTime hrow hstart hend
  · rintro t f out total hrows ⟨-, sorted, hsorted, rfl⟩
    exact (latestFirst_admitted h hrows hsorted).sublist
      ((List.take_sublist _ _).trans (List.drop_sublist _ _))
  · rintro t f out hrows ⟨sorted, hsorted, rfl⟩
    exact (latestFirst_admitted h hrows hsorted).sublist (List.take_sublist _ _)
  · intro maxRows cutoff t t' hrows hcutoff hpruned
    exact Pruned.keepsLatest h hrows hcutoff hpruned
  · intro maxRows cutoff t t' hrows hcutoff hpruned
    exact Pruned.keepsLatest h hrows hcutoff hpruned

/-- The first of January 2024, which `stats` takes as the default start on that day. -/
def startOfDay : Instant := ⟨Calendar.yearStart 2024 * 86400 * 10 ^ 9, by decide⟩

/-- Half a second later. -/
def halfSecondLater : Instant := ⟨Calendar.yearStart 2024 * 86400 * 10 ^ 9 + 5 * 10 ^ 8, by decide⟩

/-- A request of the first second of the day: its text is before that of the start of the day, and
the filter for the day leaves it out. -/
theorem first_second_left_out :
    startOfDay.text = "2024-01-01T00:00:00Z" ∧ halfSecondLater.text = "2024-01-01T00:00:00.5Z" ∧
      startOfDay < halfSecondLater ∧ ¬ startOfDay.text < halfSecondLater.text ∧
      inTime { startTime := some startOfDay } { id := "r", timestamp := halfSecondLater } =
        false := by
  decide +kernel

end Storage

end LlmProxy
