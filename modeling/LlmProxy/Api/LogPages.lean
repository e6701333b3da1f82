import LlmProxy.Storage.Logs
import Mathlib.Data.String.Basic

/-! The pages of `GET /admin/logs`: the filter that `parseLogFilter` reads from a request, and the
rows that `QueryLogs` returns for its page. -/

namespace LlmProxy.Api

open ProofKit Storage

/-! ### The filter of a request -/

/-- `intQuery`. -/
def intQuery (s : String) (default : Int) : Int :=
  if s = "" then default
  else
    match parseInt? s with
    | none => default
    | some v => if v < 1 then default else v

/-- `parseLogFilter`, where `get` gives the first value of a query parameter, and `parseTime` reads
a time in the format RFC 3339. -/
def parseLogFilter (parseTime : String → Option Instant) (get : String → String) : LogFilter where
  apiKeyID := get "api_key_id"
  modelAlias := get "model"
  nodeID := get "node_id"
  sessionID := get "session_id"
  keyword := get "keyword"
  statusCode := intQuery (get "status_code") 0
  errorOnly := get "error_only" = "true" || get "error_only" = "1"
  page := intQuery (get "page") 1
  pageSize := intQuery (get "page_size") 20
  startTime := if get "start" = "" then none else parseTime (get "start")
  endTime := if get "end" = "" then none else parseTime (get "end")

theorem intQuery_positive (s : String) {default : Int} (h : 1 ≤ default ∧ FitsInt64 default) :
    1 ≤ intQuery s default ∧ FitsInt64 (intQuery s default) := by
  unfold intQuery
  split
  · exact h
  cases hread : parseInt? s with
  | none => exact h
  | some v =>
    simp only
    split
    · exact h
    · next hv => exact ⟨by omega, parseInt?_fits hread⟩

/-- Requests give all numbers from 1 on for the page and for its size. -/
theorem parseLogFilter_page_iff (parseTime : String → Option Instant) (page pageSize : Int) :
    (∃ get, (parseLogFilter parseTime get).page = page ∧
        (parseLogFilter parseTime get).pageSize = pageSize) ↔
      (1 ≤ page ∧ FitsInt64 page) ∧ 1 ≤ pageSize ∧ FitsInt64 pageSize := by
  constructor
  · rintro ⟨get, rfl, rfl⟩
    exact ⟨intQuery_positive _ (by decide), intQuery_positive _ (by decide)⟩
  · rintro ⟨hpage, hsize⟩
    have hread {n : Int} (hn : 1 ≤ n ∧ FitsInt64 n) (default : Int) :
        intQuery (formatInt n) default = n := by
      obtain ⟨m, rfl⟩ := Int.eq_ofNat_of_zero_le (show 0 ≤ n by omega)
      have hm : m < 2 ^ 63 := by
        have := hn.2.2
        omega
      have hne : formatInt m ≠ "" := by
        intro hempty
        have := parseInt?_formatInt hm
        rw [hempty] at this
        cases this
      rw [intQuery, if_neg hne, parseInt?_formatInt hm]
      exact if_neg (by omega)
    refine ⟨fun name => if name = "page" then formatInt page else formatInt pageSize, ?_, ?_⟩
    · exact hread hpage 1
    · exact hread hsize 20

/-! ### One page -/

section Page

variable (like : String → String → Bool)

/-- The order in which SQLite lists rows, those of one time in an order of its own. -/
structure TieBreak where
  list : List RequestLog → List RequestLog
  descending : ∀ rows, Descending RequestLog.timestamp rows (list rows)

/-- `QueryLogs` of a database that lists rows in this order. -/
def queryLogs (order : TieBreak) (t : Logs) (f : LogFilter) : List RequestLog × Nat :=
  let rows := t.rows.filter (admits like f)
  let page := if f.page < 1 then 1 else f.page
  let pageSize := if f.pageSize < 1 then 20 else f.pageSize
  let offset := wrapInt64 ((page - 1) * pageSize)
  (((order.list rows).drop offset.toNat).take pageSize.toNat, rows.length)

/-- The first row is listed before the second, or is of the same time. -/
def notEarlier (a b : RequestLog) : Bool := decide (b.timestamp.text ≤ a.timestamp.text)

/-- The order in which rows of one time stay as they are stored. -/
def TieBreak.stable : TieBreak where
  list rows := rows.mergeSort notEarlier
  descending rows := by
    have hsorted : (rows.mergeSort notEarlier).Pairwise (notEarlier · ·) := by
      refine List.pairwise_mergeSort (fun a b c hab hbc => ?_) (fun a b => ?_) rows
      · exact decide_eq_true (le_trans (of_decide_eq_true hbc) (of_decide_eq_true hab))
      · simpa [notEarlier] using le_total b.timestamp.text a.timestamp.text
    exact ⟨List.mergeSort_perm rows _, hsorted.imp fun hab => not_lt.mpr (of_decide_eq_true hab)⟩

/-- Any listing of one set of rows is that of some order. -/
theorem TieBreak.exists_list {rows out : List RequestLog}
    (h : Descending RequestLog.timestamp rows out) : ∃ order : TieBreak, order.list rows = out := by
  classical
  refine ⟨⟨Function.update TieBreak.stable.list rows out, fun rows' => ?_⟩, Function.update_self ..⟩
  by_cases hrows : rows' = rows
  · subst hrows
    rwa [Function.update_self]
  · rw [Function.update_of_ne hrows]
    exact TieBreak.stable.descending rows'

variable {like} in
/-- `QueryLogs` gives what it gives in one of these orders. -/
theorem queryLogs_iff {t : Logs} {f : LogFilter} {out : List RequestLog} {total : Nat} :
    QueryLogs like t f out total ↔ ∃ order, queryLogs like order t f = (out, total) := by
  constructor
  · rintro ⟨rfl, sorted, hsorted, rfl⟩
    obtain ⟨order, rfl⟩ := TieBreak.exists_list hsorted
    exact ⟨order, rfl⟩
  · rintro ⟨order, hout⟩
    obtain ⟨rfl, rfl⟩ := Prod.mk.inj hout
    exact ⟨rfl, _, order.descending _, rfl⟩

/-- What a page stands for: the rows after those of the pages before it. -/
def exactPage (order : TieBreak) (t : Logs) (f : LogFilter) : List RequestLog × Nat :=
  let rows := t.rows.filter (admits like f)
  (((order.list rows).drop ((f.page - 1) * f.pageSize).toNat).take f.pageSize.toNat, rows.length)

/-- The rows before the page are few enough to be counted with an `int64`, or no row is behind as
many rows as are left of their number. -/
def OffsetExact (t : Logs) (f : LogFilter) : Prop :=
  let before := (f.page - 1) * f.pageSize
  let rows := (t.rows.filter (admits like f)).length
  before < 2 ^ 63 ∨ rows = 0 ∨ before % 2 ^ 64 < 2 ^ 63 ∧ rows ≤ before % 2 ^ 64

instance (t : Logs) (f : LogFilter) : Decidable (OffsetExact like t f) :=
  inferInstanceAs (Decidable (_ ∨ _ ∨ _ ∧ _))

end Page

variable {like : String → String → Bool}

/-- Two slices that start at different rows are different unless both are empty. -/
theorem slice_eq_iff {α : Type} {rows : List α} (hnodup : rows.Nodup) {i j size : Nat} (hij : i < j)
    (hsize : 0 < size) : (rows.drop i).take size = (rows.drop j).take size ↔ rows.length ≤ i := by
  constructor
  · intro heq
    by_contra hi
    have hhead := congrArg (·[0]?) heq
    simp only [List.getElem?_take_of_lt hsize, List.getElem?_drop, Nat.add_zero] at hhead
    have hne : i = j := (List.getElem?_inj (by omega) hnodup).mp hhead
    omega
  · intro hi
    rw [List.drop_eq_nil_of_le hi, List.drop_eq_nil_of_le (by omega)]

/-- The first pages of a listing are its first rows. -/
theorem flatMap_slices {α : Type} (rows : List α) (size pages : Nat) :
    ((List.range pages).flatMap fun n => (rows.drop (n * size)).take size) =
      rows.take (pages * size) := by
  induction pages with
  | zero => simp
  | succ pages ih =>
    rw [List.range_succ, List.flatMap_append, ih, Nat.succ_mul, List.take_add]
    simp

theorem queryLogs_eq_exactPage_iff (order : TieBreak) (t : Logs) {f : LogFilter}
    (hpage : 1 ≤ f.page) (hsize : 1 ≤ f.pageSize) :
    queryLogs like order t f = exactPage like order t f ↔ OffsetExact like t f := by
  have hperm := (order.descending (t.rows.filter (admits like f))).perm
  have hnodup : (order.list (t.rows.filter (admits like f))).Nodup :=
    hperm.nodup_iff.mpr (t.rows_nodup.filter _)
  have hbefore : 0 ≤ (f.page - 1) * f.pageSize := Int.mul_nonneg (by omega) (by omega)
  simp only [queryLogs, exactPage, OffsetExact, if_neg (show ¬f.page < 1 by omega),
    if_neg (show ¬f.pageSize < 1 by omega), Prod.mk.injEq, and_true, ← hperm.length_eq]
  generalize (f.page - 1) * f.pageSize = before at hbefore ⊢
  by_cases hfits : before < 2 ^ 63
  · rw [wrapInt64_of_fits ⟨by omega, hfits⟩]
    exact iff_of_true rfl (.inl hfits)
  · have hwrap := toNat_wrapInt64 before
    have hmod := Int.emod_lt_of_pos before (show (0 : Int) < 2 ^ 64 by decide)
    rw [slice_eq_iff hnodup (by split at hwrap <;> omega) (by omega)]
    split at hwrap <;> omega

/-- A page of the log list is the one that its number stands for exactly when the rows before it can
be counted with an `int64`, or no row is behind what is left of their number.  Such pages follow
each other without a gap. -/
theorem queryLogs_pages_tile (like : String → String → Bool) (order : TieBreak) (t : Logs)
    (f : LogFilter) (hpage : 1 ≤ f.page) (hsize : 1 ≤ f.pageSize) :
    (queryLogs like order t f = exactPage like order t f ↔ OffsetExact like t f) ∧
      ∀ pages : Nat, (∀ n < pages, OffsetExact like t { f with page := n + 1 }) →
        ((List.range pages).flatMap fun n : Nat =>
          (queryLogs like order t { f with page := n + 1 }).1) =
          (order.list (t.rows.filter (admits like f))).take (pages * f.pageSize.toNat) := by
  refine ⟨queryLogs_eq_exactPage_iff order t hpage hsize, fun pages hexact => ?_⟩
  rw [← flatMap_slices]
  refine List.flatMap_congr fun n hn => ?_
  have hpage : queryLogs like order t { f with page := n + 1 } =
    exactPage like order t { f with page := n + 1 } :=
    (queryLogs_eq_exactPage_iff order t (f := { f with page := n + 1 }) (by simp) hsize).mpr
      (hexact n (List.mem_range.mp hn))
  have hoffset : ((n + 1 - 1 : Int) * f.pageSize).toNat = n * f.pageSize.toNat := by
    rw [Int.add_sub_cancel, Int.toNat_mul (by omega) (by omega), Int.toNat_natCast]
  rw [hpage, exactPage, hoffset]
  rfl

/-- A table with one row. -/
def oneLog : Logs := ⟨[{ id := "r", timestamp := startOfDay }], List.nodup_singleton _⟩

/-- The second page of a table with one row. -/
theorem queryLogs_pages_tile_second :
    queryLogs plainLike .stable oneLog { page := 2, pageSize := 20 } =
      exactPage plainLike .stable oneLog { page := 2, pageSize := 20 } := by
  refine (queryLogs_pages_tile plainLike .stable oneLog _ (by decide) (by decide)).1.mpr (.inl ?_)
  show (2 - 1 : Int) * 20 < 2 ^ 63
  decide

/-- Two to the power of 62 pages of two rows are more rows than an `int64` counts: the page after
them, which should be empty, is the first page. -/
theorem page_past_the_last_lists_first :
    let past : LogFilter := { page := 2 ^ 62 + 1, pageSize := 2 }
    FitsInt64 past.page ∧ queryLogs plainLike .stable oneLog past = (oneLog.rows, 1) ∧
      queryLogs plainLike .stable oneLog past =
        queryLogs plainLike .stable oneLog { past with page := 1 } ∧
      exactPage plainLike .stable oneLog past = ([], 1) := by
  intro past
  have hlist : TieBreak.stable.list oneLog.rows = oneLog.rows :=
    List.perm_singleton.mp (TieBreak.stable.descending oneLog.rows).perm
  have hrows (f : LogFilter) (hf : admits plainLike f = admits plainLike {}) :
      oneLog.rows.filter (admits plainLike f) = oneLog.rows := by
    rw [hf, List.filter_eq_self]
    simp [admits, inTime]
  refine ⟨by decide, ?_, ?_, ?_⟩
  · simp only [queryLogs, hrows past rfl, hlist]
    rfl
  · simp only [queryLogs, hrows past rfl, hrows { past with page := 1 } rfl, hlist]
    rfl
  · simp only [exactPage, hrows past rfl, hlist]
    rfl

end LlmProxy.Api
