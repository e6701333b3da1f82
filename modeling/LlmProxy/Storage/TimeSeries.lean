import LlmProxy.ProofKit.Counting
import LlmProxy.Storage.Logs
import Mathlib.Data.List.Dedup
import Mathlib.Data.Set.List
import Mathlib.Data.String.Basic

/-! `SQLiteLogger.StatsTimeSeries`: the admitted rows by hour or by day.  SQLite reads the text of a
time, writes that of the start of its hour or day, groups by it and sorts by it, and the text is
read back.  Its functions `LIKE` and `strftime` are parameters. -/

namespace LlmProxy

open ProofKit

/-- `domain.TimeSeriesPoint`. -/
structure TimeSeriesPoint where
  timestamp : Storage.Instant
  requests : Nat
  promptTokens : Int
  completionTokens : Int
  totalTokens : Int
  deriving DecidableEq

namespace Storage

/-! ### Times as texts -/

/-- What the text of a time says, up to the seconds. -/
structure ClockFields where
  date : Calendar.Date
  hour : Nat
  minute : Nat
  second : Nat

namespace ClockFields

def Valid (c : ClockFields) : Prop := c.date.Valid ∧ c.hour < 24 ∧ c.minute < 60 ∧ c.second < 60

instance (c : ClockFields) : Decidable c.Valid := inferInstanceAs (Decidable (_ ∧ _))

def seconds (c : ClockFields) : Nat :=
  c.date.dayNumber * 86400 + (c.hour * 3600 + c.minute * 60 + c.second)

/-- The fields of the time that is so many seconds after the first of January 0000. -/
def ofSeconds (seconds : Nat) : ClockFields where
  date := Calendar.date (seconds / 86400)
  hour := seconds % 86400 / 3600
  minute := seconds % 86400 % 3600 / 60
  second := seconds % 86400 % 60

end ClockFields

/-- A number of so many digits and the character after it. -/
def readField (width : Nat) (stop : Char) (text : List Char) : Option (Nat × List Char) :=
  match readPad width text with
  | some (n, c :: rest) => if c = stop then some (n, rest) else none
  | _ => none

/-- The fields of `YYYY-MM-DDTHH:MM:SS`, and what follows them. -/
def readClock (text : List Char) : Option (ClockFields × List Char) := do
  let (year, text) ← readField 4 '-' text
  let (month, text) ← readField 2 '-' text
  let (day, text) ← readField 2 'T' text
  let (hour, text) ← readField 2 ':' text
  let (minute, text) ← readField 2 ':' text
  let (second, text) ← readPad 2 text
  pure (⟨⟨year, month, day⟩, hour, minute, second⟩, text)

/-- The nanoseconds of a fraction with these digits. -/
def fractionNanos (digits : List Char) : Nat :=
  Nat.ofDigitChars 10 (digits.take 9) 0 * 10 ^ (9 - (digits.take 9).length)

/-- The end of a time in UTC: a fraction of the second, if there is one, and `Z`. -/
def readEnd : List Char → Option Nat
  | ['Z'] => some 0
  | '.' :: text =>
    let digits := text.dropLast
    if text.getLast? = some 'Z' ∧ digits ≠ [] ∧ digits.all Char.isDigit then
      some (fractionNanos digits)
    else none
  | _ => none

/-- A time in UTC as RFC 3339 has it: the fields and the nanoseconds. -/
def readStamp (text : String) : Option (ClockFields × Nat) :=
  (readClock text.toList).bind fun (c, rest) =>
    if c.Valid then (readEnd rest).map fun nanos => (c, nanos) else none

/-- `time.Parse(time.RFC3339, text)`, for times in UTC. -/
def parseRFC3339 (text : String) : Option Instant :=
  (readStamp text).bind fun (c, nanos) =>
    if h : c.seconds * 10 ^ 9 + nanos < Calendar.yearStart 10000 * 86400 * 10 ^ 9 then some ⟨_, h⟩
    else none

/-! ### The query -/

/-- The format that is passed to `strftime`. -/
def timeFmt (granularity : String) : String :=
  if granularity = "day" then "%Y-%m-%dT00:00:00Z" else "%Y-%m-%dT%H:00:00Z"

/-- A format with the fields of a time filled in. -/
def formatTime (c : ClockFields) : List Char → List Char
  | '%' :: 'Y' :: rest => pad 4 c.date.year ++ formatTime c rest
  | '%' :: 'm' :: rest => pad 2 c.date.month ++ formatTime c rest
  | '%' :: 'd' :: rest => pad 2 c.date.day ++ formatTime c rest
  | '%' :: 'H' :: rest => pad 2 c.hour ++ formatTime c rest
  | char :: rest => char :: formatTime c rest
  | [] => []

/-- The time of a point whose text cannot be read: the first of January 0001. -/
def zeroTime : Instant := ⟨Calendar.yearStart 1 * 86400 * 10 ^ 9, by decide⟩

inductive ScanError
  | nullBucket
  deriving DecidableEq

/-- `rows.Scan` of a group, and its point. -/
def scanPoint (bucket : Option String) (rows : List RequestLog) :
    Except ScanError TimeSeriesPoint :=
  match bucket with
  | none => .error .nullBucket
  | some text =>
    let s := statsOf rows
    .ok { timestamp := (parseRFC3339 text).getD zeroTime
          requests := s.totalRequests
          promptTokens := s.promptTokens
          completionTokens := s.completionTokens
          totalTokens := s.totalTokens }

section Query

-- `strftime` takes a format and a text, and gives no text, that is NULL, for one that it cannot
-- read.
variable (like : String → String → Bool) (strftime : String → String → Option String)
variable (t : Logs) (f : LogFilter) (granularity : String)

def bucketOf (row : RequestLog) : Option String := strftime (timeFmt granularity) row.timestamp.text

/-- The values of `bucket` that there are groups for. -/
def buckets : List (Option String) :=
  ((t.rows.filter (admits like f)).map (bucketOf strftime granularity)).dedup

def bucketRows (bucket : Option String) : List RequestLog :=
  (t.rows.filter (admits like f)).filter fun row => bucketOf strftime granularity row = bucket

/-- `ORDER BY bucket ASC`, with NULL before every text. -/
def BucketListing (sorted : List (Option String)) : Prop :=
  OrderedBy (fun a b => ∀ text ∈ a, ∃ text' ∈ b, ¬ text' < text)
    (buckets like strftime t f granularity)
    sorted

/-- `StatsTimeSeries` with the groups in the given order. -/
def statsTimeSeries (sorted : List (Option String)) : Except ScanError (List TimeSeriesPoint) :=
  sorted.mapM fun bucket => scanPoint bucket (bucketRows like strftime t f granularity bucket)

/-- What is assumed of the function `strftime` of SQLite: it reads the texts of the stored times,
and writes what the format asks for. -/
def ReadsTimes : Prop :=
  ∀ row ∈ t, ∀ granularity, strftime (timeFmt granularity) row.timestamp.text =
    some (String.ofList
      (formatTime (.ofSeconds row.timestamp.seconds) (timeFmt granularity).toList))

end Query

/-! ### Reading what was written -/

theorem readField_pad {width n : Nat} (hn : n < 10 ^ width) (stop : Char) (rest : List Char) :
    readField width stop (pad width n ++ stop :: rest) = some (n, rest) := by
  simp [readField, readPad_pad hn]

theorem ofSeconds_valid (s : Nat) : (ClockFields.ofSeconds s).Valid := by
  refine ⟨Calendar.date_valid _, ?_, ?_, ?_⟩
  · show s % 86400 / 3600 < 24
    omega
  · show s % 86400 % 3600 / 60 < 60
    omega
  · show s % 86400 % 60 < 60
    omega

theorem seconds_ofSeconds (s : Nat) : (ClockFields.ofSeconds s).seconds = s := by
  show (Calendar.date (s / 86400)).dayNumber * 86400 +
    (s % 86400 / 3600 * 3600 + s % 86400 % 3600 / 60 * 60 + s % 86400 % 60) = s
  rw [Calendar.dayNumber_date]
  omega

/-- The fields of a time of the years 0000 to 9999 have the widths of the format. -/
theorem ofSeconds_fits {s : Nat} (hs : s < Calendar.yearStart 10000 * 86400) :
    (ClockFields.ofSeconds s).date.year < 10 ^ 4 ∧ (ClockFields.ofSeconds s).date.month < 10 ^ 2 ∧
      (ClockFields.ofSeconds s).date.day < 10 ^ 2 := by
  obtain ⟨-, hmonth, -⟩ := Calendar.date_valid (s / 86400)
  have hday := Calendar.day_le (s / 86400)
  have hdays : s / 86400 < Calendar.yearStart 10000 := (Nat.div_lt_iff_lt_mul (by decide)).mpr hs
  have hyear : (Calendar.date (s / 86400)).year < 10000 := Calendar.year_lt hdays
  refine ⟨hyear, ?_, ?_⟩
  · exact Nat.lt_of_le_of_lt hmonth (by decide)
  · exact Nat.lt_of_le_of_lt hday (by decide)

theorem readClock_clockText {s : Nat} (hs : s < Calendar.yearStart 10000 * 86400)
    (rest : List Char) :
    readClock (Instant.clockText s ++ rest) = some (ClockFields.ofSeconds s, rest) := by
  obtain ⟨hyear, hmonth, hday⟩ := ofSeconds_fits hs
  obtain ⟨-, hhour, hminute, hsecond⟩ := ofSeconds_valid s
  have htext : Instant.clockText s ++ rest =
      pad 4 (ClockFields.ofSeconds s).date.year ++ '-' ::
        (pad 2 (ClockFields.ofSeconds s).date.month ++
        '-' :: (pad 2 (ClockFields.ofSeconds s).date.day ++ 'T' ::
          (pad 2 (ClockFields.ofSeconds s).hour ++
          ':' :: (pad 2 (ClockFields.ofSeconds s).minute ++ ':' ::
            (pad 2 (ClockFields.ofSeconds s).second ++ rest))))) := by
    simp [Instant.clockText, ClockFields.ofSeconds]
  rw [htext]
  simp only [readClock, Option.bind_eq_bind, Option.bind_some, readField_pad hyear,
    readField_pad hmonth, readField_pad hday,
    readField_pad (hhour.trans (show 24 < 10 ^ 2 by decide)),
    readField_pad (hminute.trans (show 60 < 10 ^ 2 by decide)),
    readPad_pad (hsecond.trans (show 60 < 10 ^ 2 by decide))]
  rfl

theorem readEnd_fraction {n : Nat} (hn : n < 10 ^ 9) :
    ∃ nanos, readEnd (Instant.fraction n ++ ['Z']) = some nanos := by
  by_cases hzero : n = 0
  · subst hzero
    exact ⟨0, rfl⟩
  · obtain ⟨d, hd, digits, hdigits, htext⟩ := Instant.fraction_cons hn hzero
    have hall : (fractionDigits 9 n).all Char.isDigit = true :=
      List.all_eq_true.mpr fun c hc => isDigit_of_mem_fractionDigits hc
    rw [htext, ← hdigits]
    have hne : fractionDigits 9 n ≠ [] := by simp [hdigits]
    exact ⟨_, if_pos ⟨by simp, by simpa using hne, by simpa using hall⟩⟩

/-- The text of every time can be read. -/
theorem readStamp_text (t : Instant) :
    ∃ nanos, readStamp t.text = some (ClockFields.ofSeconds t.seconds, nanos) := by
  obtain ⟨nanos, hend⟩ := readEnd_fraction t.nanosecond_lt
  refine ⟨nanos, ?_⟩
  rw [readStamp, Instant.text, String.toList_ofList, readClock_clockText t.seconds_lt,
    Option.bind_some]
  simp [ofSeconds_valid, hend]

/-- A `strftime` that reads a time by its fields. -/
def plainStrftime (format text : String) : Option String :=
  (readStamp text).map fun (c, _) => String.ofList (formatTime c format.toList)

theorem readsTimes_plain (t : Logs) : ReadsTimes plainStrftime t := by
  intro row _ granularity
  obtain ⟨nanos, hread⟩ := readStamp_text row.timestamp
  rw [plainStrftime, hread, Option.map_some]

theorem Instant.text_of_whole {t : Instant} (ht : t.nanosecond = 0) :
    t.text = String.ofList (clockText t.seconds ++ ['Z']) := by
  rw [text, ht]
  rfl

theorem Instant.nanos_of_whole {t : Instant} (ht : t.nanosecond = 0) :
    t.seconds * 10 ^ 9 = t.nanos := by
  rw [seconds, Nat.div_mul_cancel (Nat.dvd_of_mod_eq_zero ht)]

theorem readStamp_of_whole {t : Instant} (ht : t.nanosecond = 0) :
    readStamp t.text = some (ClockFields.ofSeconds t.seconds, 0) := by
  have hend : readEnd ['Z'] = some 0 := rfl
  rw [readStamp, Instant.text_of_whole ht, String.toList_ofList, readClock_clockText t.seconds_lt,
    Option.bind_some]
  simp only [ofSeconds_valid, if_true, hend, Option.map_some]

/-- A time of whole seconds is read back. -/
theorem parseRFC3339_text {t : Instant} (ht : t.nanosecond = 0) : parseRFC3339 t.text = some t := by
  have hnanos : (ClockFields.ofSeconds t.seconds).seconds * 10 ^ 9 + 0 = t.nanos := by
    rw [seconds_ofSeconds, Instant.nanos_of_whole ht, Nat.add_zero]
  rw [parseRFC3339, readStamp_of_whole ht, Option.bind_some]
  simp only [hnanos, t.inRange, dite_true]

/-! ### Hours and days -/

/-- The length of the period of a point, in seconds. -/
def periodSeconds (granularity : String) : Nat := if granularity = "day" then 86400 else 3600

def period (granularity : String) : Nat := periodSeconds granularity * 10 ^ 9

theorem periodSeconds_pos (granularity : String) : 0 < periodSeconds granularity := by
  unfold periodSeconds
  split <;> decide

theorem period_pos (granularity : String) : 0 < period granularity :=
  Nat.mul_pos (periodSeconds_pos granularity) (by decide)

/-- The start of the hour or of the day of a time. -/
def periodStart (granularity : String) (t : Instant) : Instant where
  nanos := t.nanos / period granularity * period granularity
  inRange := Nat.lt_of_le_of_lt (Nat.div_mul_le_self ..) t.inRange

/-- The time is in the hour or in the day that starts at this instant. -/
def InPeriod (granularity : String) (start t : Instant) : Prop :=
  start.nanos ≤ t.nanos ∧ t.nanos < start.nanos + period granularity

instance (granularity : String) (start t : Instant) : Decidable (InPeriod granularity start t) :=
  inferInstanceAs (Decidable (_ ∧ _))

theorem periodStart_seconds (granularity : String) (t : Instant) :
    (periodStart granularity t).seconds =
      t.seconds / periodSeconds granularity * periodSeconds granularity := by
  show t.nanos / (periodSeconds granularity * 10 ^ 9) *
    (periodSeconds granularity * 10 ^ 9) / 10 ^ 9 =
    t.nanos / 10 ^ 9 / periodSeconds granularity * periodSeconds granularity
  rw [Nat.div_div_eq_div_mul, Nat.mul_comm (10 ^ 9), ← Nat.mul_assoc,
    Nat.mul_div_cancel _ (by decide)]

theorem periodStart_nanosecond (granularity : String) (t : Instant) :
    (periodStart granularity t).nanosecond = 0 := by
  show t.nanos / period granularity * (periodSeconds granularity * 10 ^ 9) % 10 ^ 9 = 0
  rw [← Nat.mul_assoc, Nat.mul_mod_left]

theorem formatTime_day (c : ClockFields) : formatTime c "%Y-%m-%dT00:00:00Z".toList =
    pad 4 c.date.year ++ '-' ::
      (pad 2 c.date.month ++ '-' :: (pad 2 c.date.day ++ "T00:00:00Z".toList)) :=
  rfl

theorem formatTime_hour (c : ClockFields) : formatTime c "%Y-%m-%dT%H:00:00Z".toList =
    pad 4 c.date.year ++ '-' :: (pad 2 c.date.month ++ '-' :: (pad 2 c.date.day ++
      'T' :: (pad 2 c.hour ++ ":00:00Z".toList))) :=
  rfl

/-- The format of the granularity, filled in for a time, is the text of the start of its period. -/
theorem formatTime_timeFmt (granularity : String) (t : Instant) :
    String.ofList (formatTime (.ofSeconds t.seconds) (timeFmt granularity).toList) =
      (periodStart granularity t).text := by
  rw [Instant.text_of_whole (periodStart_nanosecond granularity t), periodStart_seconds, timeFmt,
    periodSeconds]
  generalize t.seconds = s
  have hzero : pad 2 0 = ['0', '0'] := rfl
  split
  · rw [formatTime_day]
    have hday : s / 86400 * 86400 / 86400 = s / 86400 := by omega
    have htime : s / 86400 * 86400 % 86400 = 0 := by omega
    simp [Instant.clockText, ClockFields.ofSeconds, hday, htime, hzero]
  · rw [formatTime_hour]
    have hday : s / 3600 * 3600 / 86400 = s / 86400 := by omega
    have hhour : s / 3600 * 3600 % 86400 / 3600 = s % 86400 / 3600 := by omega
    have hsecond : s / 3600 * 3600 % 86400 % 60 = 0 := by omega
    simp [Instant.clockText, ClockFields.ofSeconds, hday, hhour, hsecond, hzero]

/-- The instant is the start of an hour or of a day. -/
def IsStart (granularity : String) (start : Instant) : Prop := period granularity ∣ start.nanos

theorem periodStart_isStart (granularity : String) (t : Instant) :
    IsStart granularity (periodStart granularity t) :=
  Nat.dvd_mul_left ..

theorem IsStart.nanosecond {granularity : String} {start : Instant}
    (h : IsStart granularity start) :
    start.nanosecond = 0 :=
  Nat.mod_eq_zero_of_dvd ((Nat.dvd_mul_left ..).trans h)

theorem Instant.ext_iff {t u : Instant} : t = u ↔ t.nanos = u.nanos := by
  cases t
  cases u
  exact Instant.mk.injEq ..  ▸ Iff.rfl

theorem IsStart.inPeriod_iff {granularity : String} {start t : Instant}
    (h : IsStart granularity start) :
    InPeriod granularity start t ↔ periodStart granularity t = start := by
  have hpos := period_pos granularity
  obtain ⟨k, hk⟩ := h
  have hdiv : InPeriod granularity start t ↔ t.nanos / period granularity = k := by
    rw [InPeriod, hk, Nat.div_eq_iff hpos, Nat.mul_comm k]
    generalize period granularity * k = first
    omega
  rw [hdiv, Instant.ext_iff, hk]
  show _ ↔ t.nanos / period granularity * period granularity = _
  rw [Nat.mul_comm (period granularity), Nat.mul_left_inj (by omega)]

/-- Texts of times of whole seconds are in the order of the times. -/
theorem Instant.text_lt_of_whole {t u : Instant} (ht : t.nanosecond = 0) (hu : u.nanosecond = 0) :
    t.text < u.text ↔ t < u := by
  refine text_lt_iff ?_
  rintro ⟨hne, hsec, -⟩
  exact hne (eq_iff.mpr ⟨hsec, ht.trans hu.symm⟩)

theorem Instant.text_inj_of_whole {t u : Instant} (ht : t.nanosecond = 0) (hu : u.nanosecond = 0) :
    t.text = u.text ↔ t = u := by
  refine ⟨fun h => ?_, fun h => h ▸ rfl⟩
  have htu : ¬ t < u := (text_lt_of_whole ht hu).not.mp (h ▸ String.lt_irrefl _)
  have hut : ¬ u < t := (text_lt_of_whole hu ht).not.mp (h ▸ String.lt_irrefl _)
  rw [lt_def] at htu hut
  exact ext_iff.mpr (by omega)

/-! ### The points -/

section Points

variable {like : String → String → Bool} {strftime : String → String → Option String}
variable {t : Logs} {f : LogFilter} {granularity : String} {sorted : List (Option String)}

theorem ReadsTimes.bucketOf_eq (htimes : ReadsTimes strftime t) (granularity : String)
    {row : RequestLog} (hrow : row ∈ t) :
    bucketOf strftime granularity row = some (periodStart granularity row.timestamp).text := by
  rw [bucketOf, htimes row hrow, formatTime_timeFmt]

/-- The point of the hour or day that starts at this instant. -/
def pointAt (like : String → String → Bool) (t : Logs) (f : LogFilter) (granularity : String)
    (start : Instant) : TimeSeriesPoint :=
  let s := statsOf ((t.rows.filter (admits like f)).filter fun row =>
    periodStart granularity row.timestamp = start)
  { timestamp := start
    requests := s.totalRequests
    promptTokens := s.promptTokens
    completionTokens := s.completionTokens
    totalTokens := s.totalTokens }

@[simp] theorem pointAt_timestamp (start : Instant) :
    (pointAt like t f granularity start).timestamp = start := rfl

theorem scanPoint_start (htimes : ReadsTimes strftime t) {start : Instant}
    (hstart : IsStart granularity start) :
    scanPoint (some start.text) (bucketRows like strftime t f granularity (some start.text)) =
      .ok (pointAt like t f granularity start) := by
  have hrows : bucketRows like strftime t f granularity (some start.text) =
      (t.rows.filter (admits like f)).filter fun row =>
        periodStart granularity row.timestamp = start := by
    refine List.filter_congr fun row hrow => ?_
    rw [decide_eq_decide, htimes.bucketOf_eq granularity (List.mem_of_mem_filter hrow),
      Option.some_inj]
    exact Instant.text_inj_of_whole (periodStart_isStart ..).nanosecond hstart.nanosecond
  simp only [scanPoint, parseRFC3339_text hstart.nanosecond, Option.getD_some, hrows, pointAt]

/-- The starts of the hours or days of the admitted rows, in their order. -/
structure Starts (like : String → String → Bool) (t : Logs) (f : LogFilter) (granularity : String)
    (starts : List Instant) : Prop where
  isStart : ∀ start ∈ starts, IsStart granularity start
  covers : ∀ row ∈ t.rows.filter (admits like f), periodStart granularity row.timestamp ∈ starts
  increasing : starts.Pairwise (· < ·)

theorem Starts.nodup {starts : List Instant} (h : Starts like t f granularity starts) :
    starts.Nodup :=
  h.increasing.imp fun hlt heq => absurd (heq ▸ hlt) (Nat.lt_irrefl _)

theorem BucketListing.starts (h : BucketListing like strftime t f granularity sorted)
    (htimes : ReadsTimes strftime t) :
    ∃ starts, sorted = starts.map (fun start => some start.text) ∧
      Starts like t f granularity starts := by
  have hmem (bucket : Option String) : bucket ∈ sorted ↔ ∃ row ∈ t.rows.filter (admits like f),
      bucketOf strftime granularity row = bucket := by
    rw [h.perm.mem_iff, buckets, List.mem_dedup, List.mem_map]
  have hrange : sorted ∈ Set.range (List.map fun u => some (periodStart granularity u).text) := by
    rw [Set.range_list_map]
    intro bucket hbucket
    obtain ⟨row, hrow, rfl⟩ := (hmem bucket).mp hbucket
    exact ⟨row.timestamp, (htimes.bucketOf_eq granularity (List.mem_of_mem_filter hrow)).symm⟩
  obtain ⟨us, rfl⟩ := hrange
  refine ⟨us.map (periodStart granularity), by rw [List.map_map]; rfl, ?_, fun row hrow => ?_, ?_⟩
  · simpa using fun u _ => periodStart_isStart granularity u
  · have hbucket := htimes.bucketOf_eq granularity (List.mem_of_mem_filter hrow)
    obtain ⟨u, hu, htext⟩ := List.mem_map.mp ((hmem _).mpr ⟨row, hrow, hbucket⟩)
    have hsame :=
      (Instant.text_inj_of_whole (periodStart_nanosecond ..) (periodStart_nanosecond ..)).mp
      (Option.some_inj.mp htext)
    exact List.mem_map.mpr ⟨u, hu, hsame⟩
  · have hnodup : (us.map fun u => some (periodStart granularity u).text).Nodup :=
      h.perm.nodup_iff.mpr (List.nodup_dedup _)
    rw [List.pairwise_map]
    refine (List.pairwise_map.mp (h.sorted.and hnodup)).imp fun {u v} huv => ?_
    obtain ⟨hle, hne⟩ := huv
    obtain ⟨text, htext, hnot⟩ := hle _ rfl
    obtain rfl := Option.some.inj htext
    rw [Instant.text_lt_of_whole (periodStart_nanosecond ..) (periodStart_nanosecond ..),
      Instant.lt_def] at hnot
    have hdiff : (periodStart granularity u).nanos ≠ (periodStart granularity v).nanos :=
      fun heq => hne (by rw [Instant.ext_iff.mpr heq])
    exact Instant.lt_def.mpr (by omega)

theorem statsTimeSeries_starts (htimes : ReadsTimes strftime t) {starts : List Instant}
    (h : ∀ start ∈ starts, IsStart granularity start) :
    statsTimeSeries like strftime t f granularity (starts.map fun start => some start.text) =
      .ok (starts.map (pointAt like t f granularity)) := by
  induction starts with
  | nil => rfl
  | cons start rest ih =>
    obtain ⟨hstart, hrest⟩ := List.forall_mem_cons.mp h
    have hih : List.mapM _ _ = _ := ih hrest
    rw [statsTimeSeries, List.map_cons, List.mapM_cons, scanPoint_start htimes hstart, hih]
    rfl

theorem exists_bucketListing (htimes : ReadsTimes strftime t) (f : LogFilter)
    (granularity : String) :
    ∃ sorted, BucketListing like strftime t f granularity sorted := by
  obtain ⟨sorted, hperm, hsorted⟩ := exists_orderedBy (fun bucket : Option String => bucket.getD "")
    (buckets like strftime t f granularity)
  refine ⟨sorted, hperm, hsorted.imp_of_mem fun {a b} _ hb hle => ?_⟩
  have hmem := hperm.mem_iff.mp hb
  rw [buckets, List.mem_dedup, List.mem_map] at hmem
  obtain ⟨row, hrow, rfl⟩ := hmem
  rw [htimes.bucketOf_eq granularity (List.mem_of_mem_filter hrow)] at hle ⊢
  rintro text rfl
  exact ⟨_, rfl, not_lt.mpr hle⟩

end Points

/-! ### The same rows on three ways -/

/-- What the points of a time series promise, beside the other two queries. -/
structure Agrees (like : String → String → Bool) (t : Logs) (f : LogFilter) (granularity : String)
    (points : List TimeSeriesPoint) : Prop where
  queried : ∃ out, QueryLogs like t f out (stats like t f).totalRequests
  total : ∀ out total, QueryLogs like t f out total → total = (stats like t f).totalRequests
  requests : (points.map (·.requests)).sum = (stats like t f).totalRequests
  promptTokens : (points.map (·.promptTokens)).sum = (stats like t f).promptTokens
  completionTokens : (points.map (·.completionTokens)).sum = (stats like t f).completionTokens
  totalTokens : (points.map (·.totalTokens)).sum = (stats like t f).totalTokens
  increasing : points.Pairwise (·.timestamp < ·.timestamp)
  isStart : ∀ p ∈ points, IsStart granularity p.timestamp
  counted : ∀ p ∈ points,
    (⟨p.requests, p.promptTokens, p.completionTokens, p.totalTokens⟩ : LogStats) =
    statsOf ((t.rows.filter (admits like f)).filter fun row =>
      InPeriod granularity p.timestamp row.timestamp)
  placed : ∀ row ∈ t, admits like f row = true →
    ∃! p, p ∈ points ∧ InPeriod granularity p.timestamp row.timestamp

variable {like : String → String → Bool}

theorem exists_queryLogs (t : Logs) (f : LogFilter) :
    ∃ out, QueryLogs like t f out (stats like t f).totalRequests := by
  obtain ⟨sorted, hperm, hsorted⟩ := exists_orderedBy (fun row : RequestLog => row.timestamp.text)
    (t.rows.filter (admits like f))
  refine ⟨_, rfl, sorted.reverse, ⟨(List.reverse_perm sorted).trans hperm, ?_⟩, rfl⟩
  exact List.pairwise_reverse.mpr (hsorted.imp not_lt.mpr)

theorem Starts.agrees {t : Logs} {f : LogFilter} {granularity : String} {starts : List Instant}
    (h : Starts like t f granularity starts) :
    Agrees like t f granularity (starts.map (pointAt like t f granularity)) := by
  have hsum {M : Type} [AddCommMonoid M] (g : RequestLog → M) :
      ((starts.map fun start => (((t.rows.filter (admits like f)).filter
        fun row => periodStart granularity row.timestamp = start).map g).sum)).sum =
        ((t.rows.filter (admits like f)).map g).sum :=
    sum_groups (fun row : RequestLog => periodStart granularity row.timestamp) g h.nodup h.covers
  constructor
  · exact exists_queryLogs t f
  · rintro out total ⟨htotal, -⟩
    exact htotal
  · have hcount := hsum fun _ => 1
    simp only [List.map_const', List.sum_replicate_nat, Nat.mul_one] at hcount
    rw [List.map_map]
    exact hcount
  · rw [List.map_map]
    exact hsum _
  · rw [List.map_map]
    exact hsum _
  · rw [List.map_map]
    exact hsum _
  · exact List.pairwise_map.mpr h.increasing
  · simpa using h.isStart
  · intro p hp
    obtain ⟨start, hstart, rfl⟩ := List.mem_map.mp hp
    have hrows : (t.rows.filter (admits like f)).filter
          (fun row => periodStart granularity row.timestamp = start) =
        (t.rows.filter (admits like f)).filter fun row =>
          InPeriod granularity start row.timestamp :=
      List.filter_congr fun row _ => decide_eq_decide.mpr (h.isStart start hstart).inPeriod_iff.symm
    rw [pointAt_timestamp, ← hrows]
    rfl
  · intro row hrow hadmits
    have hstart := h.covers row (List.mem_filter.mpr ⟨hrow, hadmits⟩)
    refine ⟨pointAt like t f granularity (periodStart granularity row.timestamp),
      ⟨List.mem_map.mpr ⟨_, hstart, rfl⟩, ?_⟩, ?_⟩
    · exact (periodStart_isStart ..).inPeriod_iff.mpr rfl
    · rintro p ⟨hp, hin⟩
      obtain ⟨start, hmem, rfl⟩ := List.mem_map.mp hp
      rw [(h.isStart start hmem).inPeriod_iff.mp hin]

/-- For every table whose times SQLite can read, filter and granularity the points can be computed,
and they agree with the count of `QueryLogs` and with `Stats`: each admitted row is counted in the
one point for its hour or day. -/
theorem dashboards_agree (like : String → String → Bool)
    {strftime : String → String → Option String} (t : Logs) (htimes : ReadsTimes strftime t)
    (f : LogFilter) (granularity : String) :
    (∃ sorted, BucketListing like strftime t f granularity sorted) ∧
      ∀ sorted, BucketListing like strftime t f granularity sorted →
        ∃ points, statsTimeSeries like strftime t f granularity sorted = .ok points ∧
          Agrees like t f granularity points := by
  refine ⟨exists_bucketListing htimes f granularity, fun sorted hsorted => ?_⟩
  obtain ⟨starts, rfl, hstarts⟩ := hsorted.starts htimes
  exact ⟨_, statsTimeSeries_starts htimes hstarts.isStart, hstarts.agrees⟩

/-- Two requests, one half a second after the other. -/
theorem dashboards_agree_two :
    ∃ t : Logs, ReadsTimes plainStrftime t ∧
      ∃ sorted points, BucketListing plainLike plainStrftime t {} "hour" sorted ∧
        statsTimeSeries plainLike plainStrftime t {} "hour" sorted = .ok points ∧
        Agrees plainLike t {} "hour" points ∧
        (points.map (·.requests)).sum = 2 ∧ (points.map (·.totalTokens)).sum = 7 := by
  let t : Logs := {
    rows := [
      { id := "a", timestamp := startOfDay, totalTokens := 3 },
      { id := "b", timestamp := halfSecondLater, totalTokens := 4 }]
    nodup := by simp }
  have htimes : ReadsTimes plainStrftime t := readsTimes_plain t
  obtain ⟨⟨sorted, hsorted⟩, hagree⟩ :=
    dashboards_agree plainLike t htimes {} "hour"
  obtain ⟨points, hpoints, hagrees⟩ := hagree sorted hsorted
  refine ⟨t, htimes, sorted, points, hsorted, hpoints, hagrees, ?_, ?_⟩
  · rw [hagrees.requests, stats_unrestricted]
    rfl
  · rw [hagrees.totalTokens, stats_unrestricted]
    rfl

end Storage

end LlmProxy
