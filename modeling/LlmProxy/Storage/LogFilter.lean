import LlmProxy.ProofKit.SqlCondition
import LlmProxy.Storage.Logs

/-! `buildLogFilter`: the clause `WHERE` for a filter, and its arguments.  The keyword is put into a
pattern as it is, so that its characters `%` and `_` are not taken literally. -/

namespace LlmProxy.Storage

open ProofKit Sql

/-- The columns of `request_logs` that a filter may look at. -/
inductive Column
  | id
  | sessionID
  | timestamp
  | apiKeyID
  | modelAlias
  | nodeID
  | statusCode
  | errorMsg

def Column.name : Column → String
  | id => "id"
  | sessionID => "session_id"
  | timestamp => "timestamp"
  | apiKeyID => "api_key_id"
  | modelAlias => "model_alias"
  | nodeID => "node_id"
  | statusCode => "status_code"
  | errorMsg => "error_msg"

/-- What a row has in a column. -/
def columnValue (row : RequestLog) : Column → Value
  | .id => .text row.id
  | .sessionID => .text row.sessionID
  | .timestamp => .text row.timestamp.text
  | .apiKeyID => .text row.apiKeyID
  | .modelAlias => .text row.modelAlias
  | .nodeID => .text row.nodeID
  | .statusCode => .int row.statusCode
  | .errorMsg => .text row.errorMsg

def compareTo (c : Column) (op : Operator) : Condition Column :=
  .compare (.column c) op .placeholder

/-- `status_code >= 400 OR error_msg != ''`. -/
def failedCondition : Condition Column :=
  .or (.compare (.column .statusCode) .ge (.literal (.int 400)))
    (.compare (.column .errorMsg) .ne (.literal (.text "")))

/-- `error_msg LIKE ? OR id LIKE ?`. -/
def keywordCondition : Condition Column := .or (compareTo .errorMsg .like) (compareTo .id .like)

def buildLogFilter (f : LogFilter) : Clause Column :=
  let kw := "%" ++ f.keyword ++ "%"
  let w : Clause Column := {}
  let w := w.addIf (f.apiKeyID ≠ "") (compareTo .apiKeyID .eq) [.text f.apiKeyID]
  let w := w.addIf (f.modelAlias ≠ "") (compareTo .modelAlias .eq) [.text f.modelAlias]
  let w := w.addIf (f.nodeID ≠ "") (compareTo .nodeID .eq) [.text f.nodeID]
  let w := w.addIf (f.sessionID ≠ "") (compareTo .sessionID .eq) [.text f.sessionID]
  let w := w.addIf (0 < f.statusCode) (compareTo .statusCode .eq) [.int f.statusCode]
  let w := w.addIf (f.errorOnly = true) failedCondition []
  let w := w.addIf (f.keyword ≠ "") keywordCondition [.text kw, .text kw]
  let w := w.addSome f.startTime (compareTo .timestamp .ge) fun t => [.text t.text]
  w.addSome f.endTime (compareTo .timestamp .le) fun t => [.text t.text]

example :
    (buildLogFilter
        { apiKeyID := "k", statusCode := 500, errorOnly := true, keyword := "x" }).text
        Column.name =
      " WHERE api_key_id=? AND status_code=? AND (status_code >= 400 OR error_msg != '')" ++
      " AND (error_msg LIKE ? OR id LIKE ?)" := by decide +kernel

section

variable (like : String → String → Bool)

/-- The database selects the row for the filter. -/
def Selects (f : LogFilter) (row : RequestLog) : Prop :=
  (buildLogFilter f).eval like (columnValue row) = some true

/-- What is assumed of the operator `LIKE` of SQLite. -/
def ReadsPatterns : Prop := ∀ pattern text, like pattern text = plainLike pattern text

end

variable {like : String → String → Bool}

/-! ### The clause and its arguments -/

theorem compareTo_eval (row : RequestLog) (c : Column) (op : Operator) (v : Value) :
    (compareTo c op).eval like (columnValue row) [v] =
      some (op.apply like (columnValue row c) v, []) :=
  rfl

theorem failedCondition_eval (row : RequestLog) :
    failedCondition.eval like (columnValue row) [] =
      some (decide (400 ≤ row.statusCode) || decide (row.errorMsg ≠ ""), []) := by
  simp [failedCondition, Condition.eval, Operand.eval, Operator.apply, columnValue, Value.le]

theorem keywordCondition_eval (row : RequestLog) (kw : String) :
    keywordCondition.eval like (columnValue row) [.text kw, .text kw] =
      some (like kw row.errorMsg || like kw row.id, []) :=
  rfl

/-- Every placeholder gets the argument that is meant for it, whichever conditions there are. -/
theorem buildLogFilter_means (f : LogFilter) (row : RequestLog) :
    (buildLogFilter f).Means like (columnValue row) (admits like f row) := by
  have hkey : Clause.Means like (columnValue row) _ _ := Clause.means_empty.addIf (f.apiKeyID ≠ "")
    (compareTo_eval row .apiKeyID .eq (.text f.apiKeyID))
  have hmodel :=
    hkey.addIf (f.modelAlias ≠ "") (compareTo_eval row .modelAlias .eq (.text f.modelAlias))
  have hnode := hmodel.addIf (f.nodeID ≠ "") (compareTo_eval row .nodeID .eq (.text f.nodeID))
  have hsession :=
    hnode.addIf (f.sessionID ≠ "") (compareTo_eval row .sessionID .eq (.text f.sessionID))
  have hstatus :=
    hsession.addIf (0 < f.statusCode) (compareTo_eval row .statusCode .eq (.int f.statusCode))
  have herror := hstatus.addIf (f.errorOnly = true) (failedCondition_eval row)
  have hkeyword :=
    herror.addIf (f.keyword ≠ "") (keywordCondition_eval row ("%" ++ f.keyword ++ "%"))
  have hstart := hkeyword.addSome f.startTime fun t =>
    compareTo_eval row .timestamp .ge (.text t.text)
  have hend := hstart.addSome f.endTime fun t => compareTo_eval row .timestamp .le (.text t.text)
  have hpositive : (!decide (0 < f.statusCode)) = decide (f.statusCode ≤ 0) := by
    rw [← decide_not, decide_eq_decide, Int.not_lt]
  refine Eq.mp (congrArg _ ?_) hend
  simp [admits, inTime, Operator.apply, columnValue, Value.le, hpositive, Bool.and_assoc,
    Bool.or_assoc]

theorem selects_iff {f : LogFilter} {row : RequestLog} :
    Selects like f row ↔ admits like f row = true := by
  rw [Selects, (buildLogFilter_means f row).eval_eq, Option.some_inj]

/-! ### What a filter asks for -/

/-- The text contains the keyword, where the case of ASCII letters is ignored. -/
def ContainsFold (text keyword : String) : Prop :=
  keyword.toList.map Char.toLower <:+: text.toList.map Char.toLower

instance (text keyword : String) : Decidable (ContainsFold text keyword) :=
  inferInstanceAs (Decidable (_ <:+: _))

/-- The row meets every condition of the filter that is set, apart from those on the time, where
`found` tells which texts contain the keyword. -/
@[mk_iff]
structure MeetsBy (found : String → Prop) (f : LogFilter) (row : RequestLog) : Prop where
  apiKeyID : f.apiKeyID ≠ "" → row.apiKeyID = f.apiKeyID
  modelAlias : f.modelAlias ≠ "" → row.modelAlias = f.modelAlias
  nodeID : f.nodeID ≠ "" → row.nodeID = f.nodeID
  sessionID : f.sessionID ≠ "" → row.sessionID = f.sessionID
  statusCode : 0 < f.statusCode → row.statusCode = f.statusCode
  errorOnly : f.errorOnly = true → 400 ≤ row.statusCode ∨ row.errorMsg ≠ ""
  keyword : f.keyword ≠ "" → found row.errorMsg ∨ found row.id

/-- The row is one that the filter asks for. -/
def Meets (f : LogFilter) (row : RequestLog) : Prop := MeetsBy (ContainsFold · f.keyword) f row

theorem selects_iff_meetsBy {f : LogFilter} (hstart : f.startTime = none) (hend : f.endTime = none)
    (row : RequestLog) :
    Selects like f row ↔
      MeetsBy (fun text => like ("%" ++ f.keyword ++ "%") text = true) f row := by
  rw [selects_iff, meetsBy_iff]
  simp [admits, inTime, hstart, hend, and_assoc, or_assoc, imp_iff_not_or]

/-! ### Patterns -/

/-- A character that `LIKE` does not take literally. -/
def IsWildcard (c : Char) : Prop := c = '%' ∨ c = '_'

instance (c : Char) : Decidable (IsWildcard c) := inferInstanceAs (Decidable (_ ∨ _))

theorem patternMatches_percent (ps text : List Char) :
    patternMatches ('%' :: ps) text = true ↔ ∃ rest, rest <:+ text ∧
      patternMatches ps rest = true := by
  simp [patternMatches, List.any_eq_true, List.mem_tails]

theorem patternMatches_literal_start {ps : List Char} (hliteral : ∀ c ∈ ps, ¬ IsWildcard c)
    (text : List Char) :
    patternMatches (ps ++ ['%']) text = true ↔ ps.map Char.toLower <+: text.map Char.toLower := by
  induction ps generalizing text with
  | nil =>
    refine iff_of_true ?_ List.nil_prefix
    exact (patternMatches_percent [] text).mpr ⟨[], List.nil_suffix, rfl⟩
  | cons p ps ih =>
    obtain ⟨hp, hps⟩ := List.forall_mem_cons.mp hliteral
    rw [IsWildcard, not_or] at hp
    cases text with
    | nil => simp [patternMatches, hp.1]
    | cons c cs => simp [patternMatches, hp.1, hp.2, ih hps, List.cons_prefix_cons]

/-- A keyword without wildcards is found where it stands. -/
theorem patternMatches_literal {ps : List Char} (hliteral : ∀ c ∈ ps, ¬ IsWildcard c)
    (text : List Char) :
    patternMatches ('%' :: (ps ++ ['%'])) text = true ↔
      ps.map Char.toLower <:+: text.map Char.toLower := by
  rw [patternMatches_percent, List.infix_iff_prefix_suffix]
  constructor
  · rintro ⟨rest, hsuffix, hlike⟩
    exact ⟨_, (patternMatches_literal_start hliteral rest).mp hlike,
      List.suffix_map_iff.mpr ⟨rest, hsuffix, rfl⟩⟩
  · rintro ⟨_, hstart, hsuffix⟩
    obtain ⟨rest, hrest, rfl⟩ := List.suffix_map_iff.mp hsuffix
    exact ⟨rest, hrest, (patternMatches_literal_start hliteral rest).mpr hstart⟩

/-- The keyword with a letter in the place of each wildcard. -/
def filled (ps : List Char) : List Char := ps.map fun c => if IsWildcard c then 'a' else c

theorem patternMatches_filled (ps : List Char) :
    patternMatches (ps ++ ['%']) (filled ps) = true := by
  induction ps with
  | nil => exact (patternMatches_percent [] []).mpr ⟨[], List.nil_suffix, rfl⟩
  | cons p ps ih =>
    by_cases hpercent : p = '%'
    · subst hpercent
      exact (patternMatches_percent (ps ++ ['%']) _).mpr ⟨filled ps, List.suffix_cons _ _, ih⟩
    · by_cases hunderscore : p = '_'
      · subst hunderscore
        simpa [patternMatches, filled] using ih
      · simpa [patternMatches, filled, IsWildcard, hpercent, hunderscore] using ih

/-- A keyword with a wildcard does not stand in the text that has a letter for it. -/
theorem not_infix_filled {ps : List Char} {c : Char} (hc : c ∈ ps) (hwild : IsWildcard c) :
    ¬ ps.map Char.toLower <:+: (filled ps).map Char.toLower := by
  intro hinfix
  have heq := hinfix.eq_of_length (by simp [filled])
  rw [filled, List.map_map, List.map_inj_left] at heq
  have hlower := heq c hc
  rw [Function.comp_apply, if_pos hwild] at hlower
  rcases hwild with rfl | rfl <;> exact absurd hlower (by decide)

/-! ### Which filters select what they ask for -/

/-- A row for the filter with this text where the keyword is searched. -/
def rowWith (f : LogFilter) (text : String) : RequestLog where
  id := text
  sessionID := f.sessionID
  timestamp := startOfDay
  apiKeyID := f.apiKeyID
  modelAlias := f.modelAlias
  nodeID := f.nodeID
  statusCode := f.statusCode
  errorMsg := text

theorem meetsBy_rowWith {found : String → Prop} {f : LogFilter} {text : String}
    (htext : text ≠ "") :
    MeetsBy found f (rowWith f text) ↔ (f.keyword ≠ "" → found text) := by
  simp [meetsBy_iff, rowWith, htext]

/-- A filter without bounds on the time selects exactly the rows that it asks for if there is no
wildcard in its keyword. -/
theorem selects_literally_iff (hlike : ReadsPatterns like) (f : LogFilter)
    (hstart : f.startTime = none) (hend : f.endTime = none) :
    (∀ row, Selects like f row ↔ Meets f row) ↔ ∀ c ∈ f.keyword.toList, ¬ IsWildcard c := by
  have hpattern : ("%" ++ f.keyword ++ "%").toList = '%' :: (f.keyword.toList ++ ['%']) := by simp
  constructor
  · intro hall c hc hwild
    let text := String.ofList (filled f.keyword.toList)
    have hne : f.keyword ≠ "" := by
      intro hempty
      simp [hempty] at hc
    have htext : text ≠ "" := by
      intro hempty
      have hnil := congrArg String.toList hempty
      rw [String.toList_ofList, String.toList_empty, filled, List.map_eq_nil_iff] at hnil
      simp [hnil] at hc
    have hselected : Selects like f (rowWith f text) := by
      rw [selects_iff_meetsBy hstart hend, meetsBy_rowWith htext]
      intro _
      rw [hlike, plainLike, hpattern, patternMatches_percent]
      exact ⟨_, List.suffix_refl _, by simpa [text] using patternMatches_filled f.keyword.toList⟩
    have hmeets := (meetsBy_rowWith htext).mp ((hall _).mp hselected) hne
    rw [ContainsFold, String.toList_ofList] at hmeets
    exact not_infix_filled hc hwild hmeets
  · intro hliteral row
    have hfound : (fun text => like ("%" ++ f.keyword ++ "%") text = true) =
        (ContainsFold · f.keyword) := by
      funext text
      rw [hlike, plainLike, hpattern, patternMatches_literal hliteral]
      rfl
    rw [selects_iff_meetsBy hstart hend, hfound, Meets]

theorem selects_literally_timeout :
    ∃ row, Selects plainLike { keyword := "Timeout", errorOnly := true } row ∧
      Meets { keyword := "Timeout", errorOnly := true } row := by
  let row : RequestLog := { id := "r", timestamp := startOfDay, errorMsg := "upstream timeout" }
  have hliteral : ("Timeout".toList.all fun c => !decide (IsWildcard c)) = true := by decide
  have hlike : ReadsPatterns plainLike := fun _ _ => rfl
  have hiff :=
    (selects_literally_iff hlike { keyword := "Timeout", errorOnly := true } rfl rfl).mpr
      fun c hc => by simpa using List.all_eq_true.mp hliteral c hc
  have hmeets : Meets { keyword := "Timeout", errorOnly := true } row :=
    ⟨nofun, nofun, nofun, nofun, nofun, fun _ => .inr (by decide), fun _ => .inl (by decide)⟩
  exact ⟨row, (hiff row).mpr hmeets, hmeets⟩

/-- The request `req-1` is found by the keyword `req_1`. -/
theorem underscore_matches_any :
    ∃ (f : LogFilter) (row : RequestLog), f.startTime = none ∧ f.endTime = none ∧
      f.keyword = "req_1" ∧ row.id = "req-1" ∧ row.errorMsg = "" ∧ Selects plainLike f row ∧
        ¬ Meets f row := by
  refine ⟨{ keyword := "req_1" }, { id := "req-1", timestamp := startOfDay }, rfl, rfl, rfl, rfl,
    rfl, ?_, ?_⟩
  · rw [selects_iff]
    decide
  · intro hmeets
    have hfound := hmeets.keyword (by decide)
    revert hfound
    decide

end LlmProxy.Storage
