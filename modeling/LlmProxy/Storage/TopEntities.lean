import LlmProxy.Storage.Logs
import Mathlib.Data.List.Dedup
import Mathlib.Data.List.Forall2
import Mathlib.Data.Rat.Floor

/-! `SQLiteLogger.StatsTop`: the groups with the most tokens.  All columns of a group are integers
but one: `AVG` gives a `REAL`, which `database/sql` writes as text before it reads an `int64` from
it. -/

namespace LlmProxy

open ProofKit

/-- `domain.TopEntity`. -/
structure TopEntity where
  name : String
  requests : Nat
  totalTokens : Int
  promptTokens : Int
  completionTokens : Int
  avgDurationMs : Int
  avgTokens : Int
  deriving DecidableEq

namespace Storage

def mean (ds : List Int) : ℚ := ds.sum / ds.length

/-- What is taken for granted of SQLite and of `database/sql`.  A `REAL` is written with as few
digits as it needs, with an exponent from a million on. -/
structure AvgDriver where
  avg : List Int → ℚ
  render : ℚ → String
  avg_nonneg : ∀ ds, (∀ d ∈ ds, 0 ≤ d) → 0 ≤ avg ds
  avg_close : ∀ ds, ds ≠ [] → (∀ d ∈ ds, 0 ≤ d) → avg ds < 10 ^ 6 → |avg ds - mean ds| < 1
  render_whole : ∀ n : Nat, n < 10 ^ 6 → render n = formatInt n
  render_other : ∀ v : ℚ, 0 ≤ v → (∀ n : Nat, n < 10 ^ 6 → v ≠ n) →
    ∃ c ∈ (render v).toList, c = '.' ∨ c = 'e'

/-- The errors of `StatsTop`. -/
inductive StatsError
  /-- `SUM` is out of the range of its type. -/
  | integerOverflow
  /-- The text of a `REAL` is not that of an integer. -/
  | converting (text : String)
  deriving DecidableEq

/-- The column that `groupBy` selects. -/
def groupColumn (groupBy : String) (row : RequestLog) : String :=
  if groupBy = "api_key_id" then row.apiKeyID
  else if groupBy = "node_id" then row.nodeID
  else row.modelAlias

def effectiveLimit (limit : Int) : Nat := if limit ≤ 0 ∨ 100 < limit then 10 else limit.toNat

section Query

variable (like : String → String → Bool) (t : Logs) (f : LogFilter) (groupBy : String)

/-- The names of the groups. -/
def groupNames : List String := ((t.rows.filter (admits like f)).map (groupColumn groupBy)).dedup

def groupRows (name : String) : List RequestLog :=
  (t.rows.filter (admits like f)).filter fun row => groupColumn groupBy row = name

/-- `ORDER BY tokens DESC`: an order of the groups in which none is followed by one with more
tokens. -/
def TopListing (sorted : List String) : Prop :=
  OrderedBy (fun a b => (statsOf (groupRows like t f groupBy b)).totalTokens ≤
    (statsOf (groupRows like t f groupBy a)).totalTokens) (groupNames like t f groupBy) sorted

/-- The sums fit their type. -/
def SumsFit (s : LogStats) : Prop :=
  FitsInt64 s.totalTokens ∧ FitsInt64 s.promptTokens ∧ FitsInt64 s.completionTokens

instance (s : LogStats) : Decidable (SumsFit s) := inferInstanceAs (Decidable (_ ∧ _ ∧ _))

/-- `rows.Scan` of a group. -/
def scanGroup (db : AvgDriver) (name : String) (rows : List RequestLog) :
    Except StatsError TopEntity :=
  let s := statsOf rows
  let text := db.render (db.avg (rows.map (·.durationMs)))
  match parseInt? text with
  | none => .error (.converting text)
  | some avgDurationMs =>
    .ok { name, avgDurationMs
          requests := s.totalRequests
          totalTokens := s.totalTokens
          promptTokens := s.promptTokens
          completionTokens := s.completionTokens
          avgTokens := if 0 < s.totalRequests then s.totalTokens.tdiv s.totalRequests else 0 }

/-- `StatsTop` with the groups in the given order.  The sums of numbers that are not negative are
computed for all groups before the first of them is returned. -/
def statsTop (db : AvgDriver) (limit : Int) (sorted : List String) :
    Except StatsError (List TopEntity) :=
  if ∀ name ∈ groupNames like t f groupBy, SumsFit (statsOf (groupRows like t f groupBy name)) then
    (sorted.take (effectiveLimit limit)).mapM fun name =>
      scanGroup db name (groupRows like t f groupBy name)
  else .error .integerOverflow

end Query

/-! ### What is reported -/

/-- The entity describes the group.  Averages are rounded down. -/
structure Describes (db : AvgDriver) (name : String) (rows : List RequestLog) (e : TopEntity) :
    Prop where
  name_eq : e.name = name
  requests : e.requests = rows.length
  totalTokens : e.totalTokens = (rows.map (·.totalTokens)).sum
  promptTokens : e.promptTokens = (rows.map (·.promptTokens)).sum
  completionTokens : e.completionTokens = (rows.map (·.completionTokens)).sum
  avgTokens : e.avgTokens = ⌊(e.totalTokens / e.requests : ℚ)⌋
  avgDurationMs : e.avgDurationMs = ⌊db.avg (rows.map (·.durationMs))⌋
  avgDurationMs_close : |(e.avgDurationMs : ℚ) - mean (rows.map (·.durationMs))| < 1

/-- There is no error, and the first groups of the order are described. -/
def ReportsTop (db : AvgDriver) (like : String → String → Bool) (t : Logs) (f : LogFilter)
    (groupBy : String) (limit : Int) (sorted : List String) : Prop :=
  ∃ entities, statsTop like t f groupBy db limit sorted = .ok entities ∧
    List.Forall₂ (fun name e => Describes db name (groupRows like t f groupBy name) e)
      (sorted.take (effectiveLimit limit)) entities

/-- The numbers of a row that are added up. -/
structure NonNegative (row : RequestLog) : Prop where
  totalTokens : 0 ≤ row.totalTokens
  promptTokens : 0 ≤ row.promptTokens
  completionTokens : 0 ≤ row.completionTokens
  durationMs : 0 ≤ row.durationMs

variable {db : AvgDriver} {like : String → String → Bool}

theorem AvgDriver.parseInt?_render_whole {n : Nat} (h : n < 10 ^ 6) :
    parseInt? (db.render n) = some (n : Int) := by
  rw [db.render_whole n h]
  exact parseInt?_formatInt (h.trans (by norm_num))

theorem AvgDriver.whole_of_parseInt? {v : ℚ} (hv : 0 ≤ v) {x : Int}
    (h : parseInt? (db.render v) = some x) :
    ∃ n : Nat, n < 10 ^ 6 ∧ v = n := by
  by_contra hno
  obtain ⟨c, hmem, hc⟩ := db.render_other v hv fun n hn heq => hno ⟨n, hn, heq⟩
  have hnone : parseInt? (db.render v) = none := by
    refine parseInt?_eq_none hmem ?_ ?_ ?_ <;> rcases hc with rfl | rfl <;> decide
  rw [hnone] at h
  cases h

theorem scanGroup_describes {name : String} {rows : List RequestLog} (hrows : rows ≠ [])
    (hnonneg : ∀ row ∈ rows, NonNegative row) {n : Nat} (hn : n < 10 ^ 6)
    (havg : db.avg (rows.map (·.durationMs)) = n) :
    ∃ e, scanGroup db name rows = .ok e ∧ Describes db name rows e := by
  have hdurations : ∀ d ∈ rows.map (·.durationMs), 0 ≤ d := by
    simpa using fun row hrow => (hnonneg row hrow).durationMs
  have hpos : 0 < rows.length := List.length_pos_of_ne_nil hrows
  have hsum : 0 ≤ (rows.map (·.totalTokens)).sum :=
    List.sum_nonneg (by simpa using fun row hrow => (hnonneg row hrow).totalTokens)
  have hparse : parseInt? (db.render (db.avg (rows.map (·.durationMs)))) = some (n : Int) := by
    rw [havg]
    exact AvgDriver.parseInt?_render_whole hn
  refine ⟨_, by simp only [scanGroup, hparse]; rfl, rfl, rfl, rfl, rfl, rfl, ?_, ?_, ?_⟩
  · show (if 0 < rows.length then _ else _) = _
    rw [if_pos hpos]
    exact (Int.tdiv_eq_ediv_of_nonneg hsum).trans (Rat.floor_intCast_div_natCast _ _).symm
  · rw [havg, Int.floor_natCast]
  · have hclose := db.avg_close _ (by simpa using hrows) hdurations
      (by rw [havg]; exact_mod_cast hn)
    rw [havg] at hclose
    simpa using hclose

/-- Rows that are all read without an error, one after another. -/
theorem mapM_ok_iff_forall {α β ε : Type} {g : α → Except ε β} {R : α → β → Prop} {l : List α} :
    (∃ out, l.mapM g = .ok out ∧ List.Forall₂ R l out) ↔ ∀ a ∈ l, ∃ b, g a = .ok b ∧ R a b := by
  induction l with
  | nil => exact ⟨fun _ => nofun, fun _ => ⟨[], rfl, .nil⟩⟩
  | cons a l ih =>
    rw [List.forall_mem_cons, ← ih, List.mapM_cons]
    constructor
    · rintro ⟨out, hout, hR⟩
      cases hb : g a with
      | error e => simp [hb, bind, Except.bind] at hout
      | ok b =>
        cases hbs : l.mapM g with
        | error e => simp [hb, hbs, bind, Except.bind] at hout
        | ok bs =>
          rw [hb, hbs] at hout
          cases hout
          obtain ⟨hab, hl⟩ := List.forall₂_cons.mp hR
          exact ⟨⟨b, rfl, hab⟩, bs, rfl, hl⟩
    · rintro ⟨⟨b, hb, hab⟩, bs, hbs, hl⟩
      exact ⟨b :: bs, by rw [hb, hbs]; rfl, .cons hab hl⟩

theorem groupRows_ne_nil {t : Logs} {f : LogFilter} {groupBy name : String}
    (h : name ∈ groupNames like t f groupBy) : groupRows like t f groupBy name ≠ [] := by
  obtain ⟨row, hrow, rfl⟩ := List.mem_map.mp (List.mem_dedup.mp h)
  exact List.ne_nil_of_mem (List.mem_filter.mpr ⟨hrow, by simp⟩)

/-- The listings are those of the groups, and the entities of one are reported exactly if no sum is
out of range and the average duration of each of the first groups is a whole number below a
million. -/
theorem reports_top_iff (db : AvgDriver) (like : String → String → Bool) (t : Logs) (f : LogFilter)
    (groupBy : String) (limit : Int) (hnonneg : ∀ row ∈ t, NonNegative row) :
    (∃ sorted, TopListing like t f groupBy sorted) ∧
      ∀ sorted, TopListing like t f groupBy sorted →
        (ReportsTop db like t f groupBy limit sorted ↔
          (∀ name ∈ groupNames like t f groupBy,
            SumsFit (statsOf (groupRows like t f groupBy name))) ∧
            ∀ name ∈ sorted.take (effectiveLimit limit), ∃ n : Nat, n < 10 ^ 6 ∧
              db.avg ((groupRows like t f groupBy name).map (·.durationMs)) = n) := by
  have hgroup (name : String) : ∀ row ∈ groupRows like t f groupBy name, NonNegative row :=
    fun row hrow => hnonneg row (List.mem_of_mem_filter (List.mem_of_mem_filter hrow))
  constructor
  · obtain ⟨sorted, hperm, hsorted⟩ := exists_orderedBy
      (fun name => -(statsOf (groupRows like t f groupBy name)).totalTokens)
        (groupNames like t f groupBy)
    exact ⟨sorted, hperm, hsorted.imp fun h => Int.neg_le_neg_iff.mp h⟩
  · intro sorted hsorted
    unfold ReportsTop statsTop
    by_cases hfits : ∀ name ∈ groupNames like t f groupBy,
      SumsFit (statsOf (groupRows like t f groupBy name))
    · rw [if_pos hfits, mapM_ok_iff_forall, and_iff_right hfits]
      refine forall₂_congr fun name hname => ⟨?_, ?_⟩
      · rintro ⟨e, hscan, -⟩
        simp only [scanGroup] at hscan
        split at hscan
        · cases hscan
        · next hparse =>
          refine db.whole_of_parseInt? (db.avg_nonneg _ ?_) hparse
          simpa using fun row hrow => (hgroup name row hrow).durationMs
      · rintro ⟨n, hn, havg⟩
        have hlisted := hsorted.perm.mem_iff.mp (List.mem_of_mem_take hname)
        exact scanGroup_describes (groupRows_ne_nil hlisted) (hgroup name) hn havg
    · rw [if_neg hfits]
      simp [hfits]

/-! ### Two requests -/

theorem mean_nonneg {ds : List Int} (h : ∀ d ∈ ds, 0 ≤ d) : 0 ≤ mean ds :=
  div_nonneg (by exact_mod_cast List.sum_nonneg h) (Nat.cast_nonneg _)

/-- Averages without an error, and a text for those that are not whole. -/
def exactAverages : AvgDriver where
  avg := mean
  render v := if v.den = 1 ∧ v.num < 10 ^ 6 then formatInt v.num else "1.5"
  avg_nonneg _ h := mean_nonneg h
  avg_close _ _ _ _ := by simp
  render_whole n hn := by
    rw [if_pos ⟨Rat.den_natCast n, by rw [Rat.num_natCast]; exact_mod_cast hn⟩, Rat.num_natCast]
  render_other v hv hother := by
    rw [if_neg ?_]
    · exact ⟨'.', by decide, .inl rfl⟩
    · rintro ⟨hden, hnum⟩
      have hnat : (v.num.toNat : Int) = v.num := Int.toNat_of_nonneg (Rat.num_nonneg.mpr hv)
      refine hother v.num.toNat (by omega) ?_
      rw [← Rat.coe_int_num_of_den_eq_one hden]
      exact_mod_cast hnat.symm

/-- Two requests for a model, with these durations. -/
def twoRequests (first second : Int) : Logs where
  rows := [
    { id := "a", timestamp := startOfDay, modelAlias := "m", totalTokens := 3,
      durationMs := first },
    { id := "b", timestamp := halfSecondLater, modelAlias := "m", totalTokens := 4,
      durationMs := second }]
  nodup := by simp

theorem filter_twoRequests (first second : Int) :
    (twoRequests first second).rows.filter (admits like {}) = (twoRequests first second).rows :=
  List.filter_eq_self.mpr fun row _ => by simp [admits, inTime]

theorem groupRows_twoRequests (first second : Int) :
    groupRows like (twoRequests first second) {} "model_alias" "m" =
      (twoRequests first second).rows := by
  rw [groupRows, filter_twoRequests]
  simp [twoRequests, groupColumn]

theorem groupNames_twoRequests (first second : Int) :
    groupNames like (twoRequests first second) {} "model_alias" = ["m"] := by
  rw [groupNames, filter_twoRequests]
  simp [twoRequests, groupColumn]

theorem topListing_twoRequests (first second : Int) :
    TopListing like (twoRequests first second) {} "model_alias" ["m"] := by
  rw [TopListing, groupNames_twoRequests]
  exact ⟨.refl _, List.pairwise_singleton _ _⟩

theorem nonNegative_twoRequests {first second : Int} (hfirst : 0 ≤ first) (hsecond : 0 ≤ second) :
    ∀ row ∈ twoRequests first second, NonNegative row := by
  refine List.forall_mem_cons.mpr ⟨?_, List.forall_mem_singleton.mpr ?_⟩
  · exact ⟨Int.natCast_nonneg 3, le_rfl, le_rfl, hfirst⟩
  · exact ⟨Int.natCast_nonneg 4, le_rfl, le_rfl, hsecond⟩

/-- A millisecond and three. -/
theorem reports_top_whole :
    ReportsTop exactAverages plainLike (twoRequests 1 3) {} "model_alias" 10 ["m"] := by
  have hrows :=
    nonNegative_twoRequests (show (0 : Int) ≤ 1 by decide) (show (0 : Int) ≤ 3 by decide)
  refine ((reports_top_iff exactAverages plainLike (twoRequests 1 3) {} "model_alias" 10 hrows).2
    ["m"] (topListing_twoRequests 1 3)).mpr ⟨?_, ?_⟩
  · rw [groupNames_twoRequests, List.forall_mem_singleton, groupRows_twoRequests]
    decide
  · rw [show ["m"].take (effectiveLimit 10) = ["m"] from rfl, List.forall_mem_singleton,
      groupRows_twoRequests]
    exact ⟨2, by decide, by norm_num [exactAverages, mean, twoRequests]⟩

/-- A millisecond and two: their mean cannot be read as an integer. -/
theorem mean_not_whole :
    (∀ row ∈ twoRequests 1 2, NonNegative row) ∧
      TopListing plainLike (twoRequests 1 2) {} "model_alias" ["m"] ∧
        statsTop plainLike (twoRequests 1 2) {} "model_alias" exactAverages 10 ["m"] =
          .error (.converting "1.5") := by
  have hmean : exactAverages.avg ((twoRequests 1 2).rows.map (·.durationMs)) = 3 / 2 := by
    norm_num [exactAverages, mean, twoRequests]
  have hrender : exactAverages.render (3 / 2) = "1.5" := if_neg (by decide +kernel)
  have hscan : scanGroup exactAverages "m" (twoRequests 1 2).rows = .error (.converting "1.5") := by
    simp only [scanGroup, hmean, hrender, show parseInt? "1.5" = none by decide]
  refine ⟨nonNegative_twoRequests (by decide) (by decide), topListing_twoRequests 1 2, ?_⟩
  rw [statsTop, groupNames_twoRequests, if_pos ?_]
  · rw [show ["m"].take (effectiveLimit 10) = ["m"] from rfl]
    rw [List.mapM_cons, groupRows_twoRequests, hscan]
    rfl
  · rw [List.forall_mem_singleton, groupRows_twoRequests]
    decide

end Storage

end LlmProxy
