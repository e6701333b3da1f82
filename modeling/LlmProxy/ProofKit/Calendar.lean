import Mathlib.Algebra.Order.Ring.Nat
import Mathlib.Data.List.GetD
import Mathlib.Data.Nat.Find
import Mathlib.Order.Monotone.Basic

/-! The Gregorian calendar from the year 0 on: the date of a day, counted from the first day of that
year, and that later days have later dates.  A year and a month are found in the same way, as the
last step of a staircase that starts at or before the day. -/

namespace LlmProxy.ProofKit.Calendar

/-! ### Staircases -/

section Stairs

variable {start : Nat → Nat} {i j d e : Nat}

/-- The day `d` is on the step `i`. -/
def OnStep (start : Nat → Nat) (i d : Nat) : Prop := start i ≤ d ∧ d < start (i + 1)

/-- Days are ordered by their steps, and on one step by their distance from its start. -/
theorem OnStep.lt_iff (hmono : Monotone start) (hd : OnStep start i d) (he : OnStep start j e) :
    d < e ↔ i < j ∨ i = j ∧ d - start i < e - start j := by
  obtain ⟨hi, hi'⟩ := hd
  obtain ⟨hj, hj'⟩ := he
  constructor
  · intro hlt
    rcases Nat.lt_trichotomy i j with hij | rfl | hji
    · exact .inl hij
    · exact .inr ⟨rfl, by omega⟩
    · have := hmono (show j + 1 ≤ i by omega)
      omega
  · rintro (hij | ⟨rfl, hlt⟩)
    · have := hmono (show i + 1 ≤ j by omega)
      omega
    · omega

/-- The last step up to `bound` that starts at or before the day. -/
def lastStep (start : Nat → Nat) (bound d : Nat) : Nat := Nat.findGreatest (start · ≤ d) bound

theorem lastStep_onStep {bound : Nat} (hzero : start 0 = 0)
    (hbound : ∀ i, start i ≤ d → i ≤ bound) :
    OnStep start (lastStep start bound d) d := by
  constructor
  · exact Nat.findGreatest_spec (P := fun i => start i ≤ d) (Nat.zero_le bound) (by omega)
  · by_contra hle
    have hnext := not_lt.mp hle
    have := Nat.le_findGreatest (P := fun i => start i ≤ d) (hbound _ hnext) hnext
    unfold lastStep at this
    omega

end Stairs

/-! ### Years and months -/

def isLeap (year : Nat) : Bool := year % 4 = 0 ∧ (year % 100 ≠ 0 ∨ year % 400 = 0)

/-- The first day of a year: 365 days for each year before it, and one for each leap year. -/
def yearStart (year : Nat) : Nat :=
  365 * year + (year + 3) / 4 - (year + 99) / 100 + (year + 399) / 400

/-- The day of the year on which a month starts, where January is 0; the 12th month is the next
year. -/
def monthStart (leap : Bool) (month : Nat) : Nat :=
  [0, 31, 59, 90, 120, 151, 181, 212, 243, 273, 304, 334].getD month 365 +
    if leap && decide (2 ≤ month) then 1 else 0

structure Date where
  year : Nat
  month : Nat
  day : Nat

def yearOf (d : Nat) : Nat := lastStep yearStart (d / 365) d

def dayOfYear (d : Nat) : Nat := d - yearStart (yearOf d)

def monthOf (d : Nat) : Nat := lastStep (monthStart (isLeap (yearOf d))) 11 (dayOfYear d)

/-- The date of a day. -/
def date (d : Nat) : Date where
  year := yearOf d
  month := monthOf d + 1
  day := dayOfYear d - monthStart (isLeap (yearOf d)) (monthOf d) + 1

theorem monthStart_twelve (leap : Bool) : monthStart leap 12 = 365 + if leap then 1 else 0 := by
  cases leap <;> rfl

/-- One more year is a multiple of `k + 1` or is not. -/
theorem multiples_succ (year k : Nat) :
    (year + 1 + k) / (k + 1) = (year + k) / (k + 1) + if year % (k + 1) = 0 then 1 else 0 := by
  have hsum : year + 1 + k = year + k + 1 := by omega
  have hdvd : k + 1 ∣ year + k + 1 ↔ year % (k + 1) = 0 := by
    rw [Nat.add_assoc, Nat.dvd_add_self_right, Nat.dvd_iff_mod_eq_zero]
  rw [hsum, Nat.succ_div]
  simp only [hdvd]

/-- A leap year is a multiple of 4, and a century that is one is a multiple of 400. -/
theorem isLeap_count (year : Nat) :
    (if isLeap year then 1 else 0) + (if year % 100 = 0 then 1 else 0) =
      (if year % 4 = 0 then 1 else 0) + if year % 400 = 0 then 1 else 0 := by
  have hfour : year % 100 = 0 → year % 4 = 0 := by omega
  have hcentury : year % 400 = 0 → year % 100 = 0 := by omega
  unfold isLeap
  by_cases h4 : year % 4 = 0 <;> by_cases h100 : year % 100 = 0 <;>
    by_cases h400 : year % 400 = 0 <;> simp_all

theorem yearStart_succ (year : Nat) :
    yearStart (year + 1) = yearStart year + monthStart (isLeap year) 12 := by
  have h4 := multiples_succ year 3
  have h100 := multiples_succ year 99
  have h400 := multiples_succ year 399
  have hle : (year + 99) / 100 ≤ 365 * year + (year + 3) / 4 := by omega
  have hleap := isLeap_count year
  have hone : (if year % 100 = 0 then 1 else 0) ≤ 1 := by split <;> omega
  rw [yearStart, yearStart, h4, h100, h400, monthStart_twelve]
  clear h4 h100 h400
  generalize (if isLeap year = true then 1 else 0) = leap at hleap ⊢
  generalize (if year % 4 = 0 then 1 else 0) = four at hleap ⊢
  generalize (if year % 100 = 0 then 1 else 0) = hundred at hleap hone ⊢
  generalize (if year % 400 = 0 then 1 else 0) = fourHundred at hleap ⊢
  omega

theorem le_yearStart (year : Nat) : 365 * year ≤ yearStart year := by
  unfold yearStart
  omega

theorem yearStart_mono : Monotone yearStart := by
  apply monotone_nat_of_le_succ
  intro year
  rw [yearStart_succ]
  omega

theorem monthStart_succ (leap : Bool) (month : Nat) :
    monthStart leap month ≤ monthStart leap (month + 1) ∧
      monthStart leap (month + 1) ≤ monthStart leap month + 31 := by
  by_cases hmonth : month < 12
  · have hall : ∀ leap : Bool, ∀ month < 12, monthStart leap month ≤ monthStart leap (month + 1) ∧
        monthStart leap (month + 1) ≤ monthStart leap month + 31 := by decide
    exact hall leap month hmonth
  · have hpast (k : Nat) (hk : 12 ≤ k) : monthStart leap k = 365 + if leap then 1 else 0 := by
      have : 2 ≤ k := by omega
      rw [monthStart, List.getD_eq_default _ _ (by simpa using hk)]
      simp [this]
    rw [hpast month (by omega), hpast (month + 1) (by omega)]
    omega

theorem monthStart_mono (leap : Bool) : Monotone (monthStart leap) :=
  monotone_nat_of_le_succ fun month => (monthStart_succ leap month).1

theorem yearOf_onStep (d : Nat) : OnStep yearStart (yearOf d) d := by
  refine lastStep_onStep rfl fun year hyear => ?_
  have := le_yearStart year
  omega

theorem dayOfYear_lt (d : Nat) : dayOfYear d < monthStart (isLeap (yearOf d)) 12 := by
  obtain ⟨hle, hlt⟩ := yearOf_onStep d
  rw [yearStart_succ] at hlt
  unfold dayOfYear
  omega

theorem monthOf_onStep (d : Nat) :
    OnStep (monthStart (isLeap (yearOf d))) (monthOf d) (dayOfYear d) := by
  refine lastStep_onStep (by cases isLeap (yearOf d) <;> rfl) fun month hmonth => ?_
  by_contra hlarge
  have := monthStart_mono (isLeap (yearOf d)) (show 12 ≤ month by omega)
  have := dayOfYear_lt d
  omega

theorem monthOf_lt (d : Nat) : monthOf d < 12 :=
  Nat.lt_succ_of_le (show lastStep _ 11 _ ≤ 11 from Nat.findGreatest_le 11)

theorem day_le (d : Nat) : (date d).day ≤ 31 := by
  obtain ⟨-, hlt⟩ := monthOf_onStep d
  have := (monthStart_succ (isLeap (yearOf d)) (monthOf d)).2
  unfold date
  simp only
  omega

/-! ### Days from dates -/

/-- The day with this date. -/
def Date.dayNumber (date : Date) : Nat :=
  yearStart date.year + monthStart (isLeap date.year) (date.month - 1) + (date.day - 1)

/-- A date of the calendar. -/
def Date.Valid (date : Date) : Prop :=
  1 ≤ date.month ∧ date.month ≤ 12 ∧ 1 ≤ date.day ∧
    monthStart (isLeap date.year) (date.month - 1) + date.day ≤
      monthStart (isLeap date.year) date.month

instance (date : Date) : Decidable date.Valid := inferInstanceAs (Decidable (_ ∧ _))

theorem dayNumber_date (d : Nat) : (date d).dayNumber = d := by
  have hyear := (yearOf_onStep d).1
  have hmonth := (monthOf_onStep d).1
  show yearStart (yearOf d) + monthStart (isLeap (yearOf d)) (monthOf d + 1 - 1) +
    (dayOfYear d - monthStart (isLeap (yearOf d)) (monthOf d) + 1 - 1) = d
  unfold dayOfYear at hmonth ⊢
  simp only [Nat.add_sub_cancel]
  omega

theorem date_valid (d : Nat) : (date d).Valid := by
  have hmonth := monthOf_lt d
  obtain ⟨hle, hlt⟩ := monthOf_onStep d
  refine ⟨Nat.le_add_left 1 _, hmonth, Nat.le_add_left 1 _, ?_⟩
  show monthStart (isLeap (yearOf d)) (monthOf d + 1 - 1) +
    (dayOfYear d - monthStart (isLeap (yearOf d)) (monthOf d) + 1) ≤
      monthStart (isLeap (yearOf d)) (monthOf d + 1)
  rw [Nat.add_sub_cancel]
  omega

/-! ### The order of dates -/

/-- Dates compared by year, month and day. -/
def Date.Before (a b : Date) : Prop :=
  a.year < b.year ∨ a.year = b.year ∧
    (a.month < b.month ∨ a.month = b.month ∧ a.day < b.day)

theorem date_before_iff {d e : Nat} : (date d).Before (date e) ↔ d < e := by
  rw [(yearOf_onStep d).lt_iff yearStart_mono (yearOf_onStep e)]
  refine or_congr_right (and_congr_right fun (hyear : yearOf d = yearOf e) => ?_)
  have hmonth := (monthOf_onStep d).lt_iff (monthStart_mono _) (hyear ▸ monthOf_onStep e)
  rw [show d - yearStart (yearOf d) = dayOfYear d from rfl,
    show e - yearStart (yearOf e) = dayOfYear e from rfl, hmonth]
  simp only [date, hyear, Nat.add_lt_add_iff_right, Nat.add_right_cancel_iff]

theorem date_eq_iff {d e : Nat} :
    ((date d).year = (date e).year ∧ (date d).month = (date e).month ∧
      (date d).day = (date e).day) ↔
      d = e := by
  constructor
  · rintro ⟨hyear, hmonth, hday⟩
    have hde := date_before_iff (d := d) (e := e)
    have hed := date_before_iff (d := e) (e := d)
    simp only [Date.Before, hyear, hmonth, hday, Nat.lt_irrefl, and_false, or_false, false_iff,
      not_lt] at hde hed
    omega
  · rintro rfl
    exact ⟨rfl, rfl, rfl⟩

/-- The comparison of two dates that goes on with something else on the same day. -/
theorem date_lex_iff {d e : Nat} {P : Prop} :
    ((date d).year < (date e).year ∨ (date d).year = (date e).year ∧
      ((date d).month < (date e).month ∨ (date d).month = (date e).month ∧
        ((date d).day < (date e).day ∨ (date d).day = (date e).day ∧ P))) ↔ d < e ∨ d = e ∧ P := by
  rw [← date_before_iff (d := d) (e := e), ← date_eq_iff (d := d) (e := e), Date.Before]
  simp only [and_or_left, or_assoc, and_assoc]

theorem year_lt {d year : Nat} (h : d < yearStart year) : (date d).year < year := by
  show yearOf d < year
  by_contra hle
  have := yearStart_mono (not_lt.mp hle)
  have := (yearOf_onStep d).1
  exact absurd h (by omega)

end LlmProxy.ProofKit.Calendar
