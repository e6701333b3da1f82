import LlmProxy.ProofKit.Calendar
import LlmProxy.ProofKit.FixedWidth

/-! The text of a time in the log tables: `t.UTC().Format(time.RFC3339Nano)`.  SQLite compares these
texts byte by byte.  The fraction of the second is printed without the zeros at its end, and left
out if it is zero, so that the texts of two times within one second may compare the wrong way
round. -/

namespace LlmProxy.Storage

open ProofKit

/-- An instant of the years 0000 to 9999, in nanoseconds since the first of January 0000. -/
structure Instant where
  nanos : Nat
  inRange : nanos < Calendar.yearStart 10000 * 86400 * 10 ^ 9
  deriving DecidableEq

namespace Instant

instance : LT Instant := ⟨fun t u => t.nanos < u.nanos⟩

instance : LE Instant := ⟨fun t u => t.nanos ≤ u.nanos⟩

theorem lt_def {t u : Instant} : t < u ↔ t.nanos < u.nanos := Iff.rfl

theorem le_def {t u : Instant} : t ≤ u ↔ t.nanos ≤ u.nanos := Iff.rfl

instance (t u : Instant) : Decidable (t < u) := inferInstanceAs (Decidable (t.nanos < u.nanos))

instance (t u : Instant) : Decidable (t ≤ u) := inferInstanceAs (Decidable (t.nanos ≤ u.nanos))

def seconds (t : Instant) : Nat := t.nanos / 10 ^ 9

/-- `Nanosecond()`: the part of the instant within its second. -/
def nanosecond (t : Instant) : Nat := t.nanos % 10 ^ 9

theorem nanosecond_lt (t : Instant) : t.nanosecond < 10 ^ 9 := Nat.mod_lt _ (by decide)

theorem lt_iff {t u : Instant} :
    t < u ↔ t.seconds < u.seconds ∨ t.seconds = u.seconds ∧ t.nanosecond < u.nanosecond :=
  lt_iff_div_mod _

theorem eq_iff {t u : Instant} :
    t = u ↔ t.seconds = u.seconds ∧ t.nanosecond = u.nanosecond := by
  constructor
  · rintro rfl
    exact ⟨rfl, rfl⟩
  · rintro ⟨hsec, hnano⟩
    have hnanos : t.nanos = u.nanos := by
      rw [← Nat.div_add_mod t.nanos (10 ^ 9), ← Nat.div_add_mod u.nanos (10 ^ 9)]
      exact congrArg₂ (fun s n => 10 ^ 9 * s + n) hsec hnano
    cases t
    cases u
    simpa using hnanos

/-- The date and the time of the day, up to the seconds. -/
def clockText (seconds : Nat) : List Char :=
  let date := Calendar.date (seconds / 86400)
  let time := seconds % 86400
  pad 4 date.year ++ '-' :: (pad 2 date.month ++ '-' :: (pad 2 date.day ++ 'T' ::
    (pad 2 (time / 3600) ++ ':' :: (pad 2 (time % 3600 / 60) ++ ':' :: pad 2 (time % 60)))))

def fraction (nanosecond : Nat) : List Char :=
  match fractionDigits 9 nanosecond with
  | [] => []
  | digits => '.' :: digits

/-- `t.UTC().Format(time.RFC3339Nano)`. -/
def text (t : Instant) : String :=
  String.ofList (clockText t.seconds ++ (fraction t.nanosecond ++ ['Z']))

/-! ### The order of the texts -/

theorem field_lt_iff {width m n : Nat} (hm : m < 10 ^ width) (hn : n < 10 ^ width) (c : Char)
    (xs ys : List Char) :
    pad width m ++ c :: xs < pad width n ++ c :: ys ↔ m < n ∨ m = n ∧ xs < ys := by
  rw [append_lt_append_iff (by simp), pad_lt_iff hm hn, pad_inj hm hn, List.cons_lt_cons_iff]
  simp

theorem length_clockText (seconds : Nat) : (clockText seconds).length = 19 := by
  simp [clockText]

/-- Times of the day compared by hour, minute and second. -/
theorem time_lex_iff {a b : Nat} :
    (a / 3600 < b / 3600 ∨ a / 3600 = b / 3600 ∧
      (a % 3600 / 60 < b % 3600 / 60 ∨ a % 3600 / 60 = b % 3600 / 60 ∧ a % 60 < b % 60)) ↔
        a < b := by
  constructor
  · rintro (hlt | ⟨heq, hlt | ⟨heq', hlt⟩⟩) <;> omega
  · omega

theorem clockText_lt_iff {s s' : Nat} (hs : s < Calendar.yearStart 10000 * 86400)
    (hs' : s' < Calendar.yearStart 10000 * 86400) : clockText s < clockText s' ↔ s < s' := by
  have hyear {s : Nat} (hs : s < Calendar.yearStart 10000 * 86400) :
      (Calendar.date (s / 86400)).year < 10 ^ 4 :=
    Calendar.year_lt (Nat.div_lt_of_lt_mul (by rwa [Nat.mul_comm]))
  have hmonth (d : Nat) : (Calendar.date d).month < 10 ^ 2 := by
    have := Calendar.monthOf_lt d
    show Calendar.monthOf d + 1 < 10 ^ 2
    omega
  have hday (d : Nat) : (Calendar.date d).day < 10 ^ 2 := by
    have := Calendar.day_le d
    omega
  rw [clockText, clockText, field_lt_iff (hyear hs) (hyear hs'),
    field_lt_iff (hmonth _) (hmonth _), field_lt_iff (hday _) (hday _),
    field_lt_iff (by omega) (by omega), field_lt_iff (by omega) (by omega),
    pad_lt_iff (by omega) (by omega)]
  rw [Calendar.date_lex_iff, time_lex_iff]
  exact (lt_iff_div_mod _).symm

theorem clockText_inj {s s' : Nat} (hs : s < Calendar.yearStart 10000 * 86400)
    (hs' : s' < Calendar.yearStart 10000 * 86400) : clockText s = clockText s' ↔ s = s' :=
  inj_of_lt_iff (clockText_lt_iff hs hs') (clockText_lt_iff hs' hs)

theorem seconds_lt (t : Instant) : t.seconds < Calendar.yearStart 10000 * 86400 :=
  Nat.div_lt_of_lt_mul (by rw [Nat.mul_comm]; exact t.inRange)

/-- The text of a fraction that is not zero. -/
theorem fraction_cons {n : Nat} (hn : n < 10 ^ 9) (hne : n ≠ 0) :
    ∃ d < 10, ∃ digits, fractionDigits 9 n = Nat.digitChar d :: digits ∧
      fraction n = '.' :: Nat.digitChar d :: digits := by
  have hcons : fractionDigits 9 n = _ := fractionDigits_cons hn hne
  exact ⟨_, div_lt_ten hn, _, hcons, by rw [fraction, hcons]⟩

theorem fraction_zero : fractionDigits 9 0 = [] ∧ fraction 0 = [] := by decide

/-- The point before a fraction does not matter: like a digit, it comes before the `Z`. -/
theorem fraction_text_lt_iff {m n : Nat} (hm : m < 10 ^ 9) (hn : n < 10 ^ 9) :
    fraction m ++ ['Z'] < fraction n ++ ['Z'] ↔
      fractionDigits 9 m ++ ['Z'] < fractionDigits 9 n ++ ['Z'] := by
  obtain ⟨hzero, hzero'⟩ := fraction_zero
  have hstop : ∀ d < 10, Nat.digitChar d < 'Z' ∧ ¬ 'Z' < Nat.digitChar d ∧
      'Z' ≠ Nat.digitChar d := by
    decide
  by_cases hm0 : m = 0
  · subst hm0
    by_cases hn0 : n = 0
    · subst hn0
      rw [hzero, hzero']
    · obtain ⟨d, hd, digits, hdigits, htext⟩ := fraction_cons hn hn0
      rw [hzero, hzero', hdigits, htext]
      simp [List.cons_lt_cons_iff, (hstop d hd).2]
  · obtain ⟨d, hd, digits, hdigits, htext⟩ := fraction_cons hm hm0
    by_cases hn0 : n = 0
    · subst hn0
      rw [hzero, hzero', hdigits, htext]
      simp [List.cons_lt_cons_iff, (hstop d hd).1]
    · obtain ⟨d', hd', digits', hdigits', htext'⟩ := fraction_cons hn hn0
      rw [hdigits, htext, hdigits', htext']
      simp [List.cons_lt_cons_iff]

/-- Two instants within a second, where the digits of one fraction go on after those of the
other. -/
def Confusable (t u : Instant) : Prop :=
  t ≠ u ∧ t.seconds = u.seconds ∧
    (fractionDigits 9 t.nanosecond <+: fractionDigits 9 u.nanosecond ∨
      fractionDigits 9 u.nanosecond <+: fractionDigits 9 t.nanosecond)

instance (t u : Instant) : Decidable (Confusable t u) := inferInstanceAs (Decidable (_ ∧ _))

theorem text_lt_iff_seconds {t u : Instant} :
    t.text < u.text ↔ t.seconds < u.seconds ∨ t.seconds = u.seconds ∧
      fractionDigits 9 t.nanosecond ++ ['Z'] < fractionDigits 9 u.nanosecond ++ ['Z'] := by
  rw [text, text, String.lt_iff, String.toList_ofList, String.toList_ofList,
    append_lt_append_iff (by rw [length_clockText, length_clockText]),
    clockText_lt_iff t.seconds_lt u.seconds_lt, clockText_inj t.seconds_lt u.seconds_lt,
    fraction_text_lt_iff t.nanosecond_lt u.nanosecond_lt]

/-- The texts of instants that cannot be confused are in the order of time. -/
theorem text_lt_iff {t u : Instant} (h : ¬ Confusable t u) : t.text < u.text ↔ t < u := by
  by_cases heq : t = u
  · subst heq
    simp [lt_def]
  rw [text_lt_iff_seconds, lt_iff]
  refine or_congr_right (and_congr_right fun hsec => ?_)
  refine fraction_lt_iff t.nanosecond_lt u.nanosecond_lt (fun htu => ?_) fun hut => ?_
  · exact h ⟨heq, hsec, .inl htu⟩
  · exact h ⟨heq, hsec, .inr hut⟩

/-- The texts of instants that can be confused are in the opposite order. -/
theorem text_lt_iff_of_confusable {t u : Instant} (h : Confusable t u) : t.text < u.text ↔
    u < t := by
  obtain ⟨hne, hsec, hdigits⟩ := h
  have hnano : t.nanosecond ≠ u.nanosecond := fun heq => hne (eq_iff.mpr ⟨hsec, heq⟩)
  have hstop : ∀ d < 10, Nat.digitChar d < 'Z' := by decide
  rw [text_lt_iff_seconds, lt_iff]
  simp only [hsec, Nat.lt_irrefl, true_and, false_or]
  rcases hdigits with htu | hut
  · obtain ⟨hlt, htext⟩ := fraction_cut_short hstop t.nanosecond_lt u.nanosecond_lt hnano htu
    exact iff_of_false (fun h => List.lt_irrefl _ (List.lt_trans h htext)) (by omega)
  · obtain ⟨hlt, htext⟩ := fraction_cut_short hstop u.nanosecond_lt t.nanosecond_lt hnano.symm hut
    exact iff_of_true htext hlt

end Instant

end LlmProxy.Storage
