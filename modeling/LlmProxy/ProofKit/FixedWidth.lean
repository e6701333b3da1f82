import Mathlib.Algebra.Order.Ring.Nat
import Mathlib.Data.List.Basic

/-! Decimal numerals of a fixed width, compared as texts.  Among numerals of one width the order of
the texts is that of the numbers.  Without the zeros at its end, as in a decimal fraction, a numeral
may be cut short before another one goes on; what follows the numeral then decides. -/

namespace LlmProxy.ProofKit

/-- Texts are compared at the first place where they differ. -/
theorem append_lt_append_iff {xs ys xs' ys' : List Char} (h : xs.length = ys.length) :
    xs ++ xs' < ys ++ ys' ↔ xs < ys ∨ xs = ys ∧ xs' < ys' := by
  induction xs generalizing ys with
  | nil =>
    obtain rfl : ys = [] := by simpa using h.symm
    simp
  | cons x xs ih =>
    cases ys with
    | nil => simp at h
    | cons y ys =>
      have hlength : xs.length = ys.length := by simpa using h
      simp only [List.cons_append, List.cons_lt_cons_iff, ih hlength, List.cons.injEq]
      tauto

/-- The last `width` digits of a number. -/
def pad : (width : Nat) → Nat → List Char
  | 0, _ => []
  | width + 1, n => Nat.digitChar (n / 10 ^ width % 10) :: pad width n

@[simp] theorem length_pad (width n : Nat) : (pad width n).length = width := by
  induction width with
  | zero => rfl
  | succ width ih => simp [pad, ih]

theorem pad_mod (width n : Nat) {k : Nat} (hk : width ≤ k) :
    pad width (n % 10 ^ k) = pad width n := by
  induction width with
  | zero => rfl
  | succ width ih =>
    rw [pad, pad, ih (by omega)]
    congr 2
    obtain ⟨d, rfl⟩ : ∃ d, k = width + (d + 1) := ⟨k - width - 1, by omega⟩
    rw [pow_add, Nat.mod_mul_right_div_self, pow_succ', Nat.mod_mul_right_mod]

theorem digitChar_lt_iff {m n : Nat} (hm : m < 10) (hn : n < 10) :
    Nat.digitChar m < Nat.digitChar n ↔ m < n := by
  have hall : ∀ m < 10, ∀ n < 10, Nat.digitChar m < Nat.digitChar n ↔ m < n := by decide
  exact hall m hm n hn

theorem digitChar_inj {m n : Nat} (hm : m < 10) (hn : n < 10) :
    Nat.digitChar m = Nat.digitChar n ↔ m = n := by
  have hall : ∀ m < 10, ∀ n < 10, Nat.digitChar m = Nat.digitChar n ↔ m = n := by decide
  exact hall m hm n hn

/-- Numbers are compared by quotient and remainder. -/
theorem lt_iff_div_mod {m n : Nat} (k : Nat) :
    m < n ↔ m / k < n / k ∨ m / k = n / k ∧ m % k < n % k := by
  have hm := Nat.div_add_mod m k
  have hn := Nat.div_add_mod n k
  constructor
  · intro h
    rcases Nat.lt_or_eq_of_le (Nat.div_le_div_right (c := k) h.le) with hlt | heq
    · exact .inl hlt
    · rw [heq] at hm
      exact .inr ⟨heq, by omega⟩
  · rintro (hlt | ⟨heq, hlt⟩)
    · by_contra hle
      exact absurd (Nat.div_le_div_right (c := k) (not_lt.mp hle)) (not_le.mpr hlt)
    · rw [heq] at hm
      omega

theorem div_lt_ten {width n : Nat} (h : n < 10 ^ (width + 1)) : n / 10 ^ width < 10 := by
  rw [Nat.div_lt_iff_lt_mul (Nat.pow_pos (by decide))]
  rwa [pow_succ'] at h

theorem pad_lt_iff {width m n : Nat} (hm : m < 10 ^ width) (hn : n < 10 ^ width) :
    pad width m < pad width n ↔ m < n := by
  induction width generalizing m n with
  | zero =>
    simp only [pow_zero] at hm hn
    obtain rfl : m = n := by omega
    simp [pad]
  | succ width ih =>
    have hpos : 0 < 10 ^ width := Nat.pow_pos (by decide)
    have hm' := div_lt_ten hm
    have hn' := div_lt_ten hn
    rw [pad, pad, List.cons_lt_cons_iff, Nat.mod_eq_of_lt hm', Nat.mod_eq_of_lt hn',
      digitChar_lt_iff hm' hn', digitChar_inj hm' hn', ← pad_mod width m le_rfl,
      ← pad_mod width n le_rfl, ih (Nat.mod_lt _ hpos) (Nat.mod_lt _ hpos)]
    exact (lt_iff_div_mod _).symm

/-- Texts that are in the order of the numbers tell the numbers apart. -/
theorem inj_of_lt_iff {f : Nat → List Char} {m n : Nat} (hmn : f m < f n ↔ m < n)
    (hnm : f n < f m ↔ n < m) : f m = f n ↔ m = n := by
  refine ⟨fun h => ?_, fun h => h ▸ rfl⟩
  rcases Nat.lt_trichotomy m n with hlt | heq | hgt
  · exact absurd (hmn.mpr hlt) (h ▸ List.lt_irrefl _)
  · exact heq
  · exact absurd (hnm.mpr hgt) (h ▸ List.lt_irrefl _)

theorem pad_inj {width m n : Nat} (hm : m < 10 ^ width) (hn : n < 10 ^ width) :
    pad width m = pad width n ↔ m = n :=
  inj_of_lt_iff (pad_lt_iff hm hn) (pad_lt_iff hn hm)

/-! ### Reading -/

/-- The number that the first `width` characters are the digits of, and what follows them. -/
def readPad : (width : Nat) → List Char → Option (Nat × List Char)
  | 0, cs => some (0, cs)
  | _ + 1, [] => none
  | width + 1, c :: cs =>
    if c.isDigit then (readPad width cs).map fun (n, rest) =>
      ((c.toNat - '0'.toNat) * 10 ^ width + n, rest)
    else none

theorem digitChar_spec {d : Nat} (hd : d < 10) :
    (Nat.digitChar d).isDigit = true ∧ (Nat.digitChar d).toNat - '0'.toNat = d := by
  have hall : ∀ d < 10, (Nat.digitChar d).isDigit = true ∧
      (Nat.digitChar d).toNat - '0'.toNat = d := by
    decide
  exact hall d hd

theorem readPad_pad {width n : Nat} (hn : n < 10 ^ width) (rest : List Char) :
    readPad width (pad width n ++ rest) = some (n, rest) := by
  induction width generalizing n with
  | zero =>
    have : n = 0 := by simpa using hn
    simp [readPad, pad, this]
  | succ width ih =>
    have hpos : 0 < 10 ^ width := Nat.pow_pos (by decide)
    have hdigit := div_lt_ten hn
    obtain ⟨hisDigit, hvalue⟩ := digitChar_spec hdigit
    rw [pad, Nat.mod_eq_of_lt hdigit, List.cons_append, readPad, if_pos hisDigit, hvalue,
      ← pad_mod width n le_rfl, ih (Nat.mod_lt n hpos), Option.map_some, Nat.mul_comm]
    exact congrArg (fun m => some (m, rest)) (Nat.div_add_mod n _)

theorem isDigit_of_mem_pad {width n : Nat} {c : Char} (h : c ∈ pad width n) : c.isDigit = true := by
  induction width with
  | zero => cases h
  | succ width ih =>
    rcases List.mem_cons.mp h with rfl | h
    · exact (digitChar_spec (Nat.mod_lt _ (by decide))).1
    · exact ih h

/-! ### Without zeros at the end -/

def trimZeros : List Char → List Char
  | [] => []
  | c :: cs => if c = '0' ∧ trimZeros cs = [] then [] else c :: trimZeros cs

/-- The digits of a decimal fraction with `width` places. -/
def fractionDigits (width n : Nat) : List Char := trimZeros (pad width n)

theorem trimZeros_subset (cs : List Char) : trimZeros cs ⊆ cs := by
  induction cs with
  | nil => exact List.Subset.refl _
  | cons c cs ih =>
    rw [trimZeros]
    split
    · exact List.nil_subset _
    · exact List.cons_subset_cons c ih

variable {width m n : Nat}

theorem isDigit_of_mem_fractionDigits {c : Char} (h : c ∈ fractionDigits width n) :
    c.isDigit = true :=
  isDigit_of_mem_pad (trimZeros_subset _ h)

theorem digitChar_eq_zero_iff {d : Nat} (hd : d < 10) : Nat.digitChar d = '0' ↔ d = 0 :=
  digitChar_inj hd (show 0 < 10 by decide)

theorem fractionDigits_succ (hn : n < 10 ^ (width + 1)) :
    fractionDigits (width + 1) n =
      if n / 10 ^ width = 0 ∧ fractionDigits width (n % 10 ^ width) = [] then []
      else Nat.digitChar (n / 10 ^ width) :: fractionDigits width (n % 10 ^ width) := by
  have hdigit := div_lt_ten hn
  rw [fractionDigits, pad, trimZeros, Nat.mod_eq_of_lt hdigit, fractionDigits,
    pad_mod width n le_rfl]
  simp only [digitChar_eq_zero_iff hdigit]

theorem fractionDigits_eq_nil (hn : n < 10 ^ width) : fractionDigits width n = [] ↔ n = 0 := by
  induction width generalizing n with
  | zero =>
    have : n = 0 := by simpa using hn
    simp [fractionDigits, pad, trimZeros, this]
  | succ width ih =>
    have hrest := ih (Nat.mod_lt n (Nat.pow_pos (by decide) : 0 < 10 ^ width))
    have hsplit := Nat.div_add_mod n (10 ^ width)
    rw [fractionDigits_succ hn]
    constructor
    · intro h
      split at h
      · next hzero =>
        rw [hzero.1, hrest.mp hzero.2] at hsplit
        omega
      · cases h
    · rintro rfl
      rw [if_pos ⟨Nat.zero_div _, hrest.mpr (Nat.zero_mod _)⟩]

/-- The digits of a fraction that is not zero. -/
theorem fractionDigits_cons (hn : n < 10 ^ (width + 1)) (hne : n ≠ 0) :
    fractionDigits (width + 1) n =
      Nat.digitChar (n / 10 ^ width) :: fractionDigits width (n % 10 ^ width) := by
  have hsome : fractionDigits (width + 1) n ≠ [] := fun h => hne ((fractionDigits_eq_nil hn).mp h)
  rw [fractionDigits_succ hn] at hsome ⊢
  split at hsome
  · exact absurd rfl hsome
  · next h => rw [if_neg h]

/-- Where the digits of one fraction go on after those of another, the first is the greater one, and
its text is the smaller one if what follows the digits comes after every digit. -/
theorem fraction_cut_short {stop : Char} (hstop : ∀ d < 10, Nat.digitChar d < stop)
    (hm : m < 10 ^ width) (hn : n < 10 ^ width) (hne : m ≠ n)
    (h : fractionDigits width m <+: fractionDigits width n) :
    m < n ∧ fractionDigits width n ++ [stop] < fractionDigits width m ++ [stop] := by
  induction width generalizing m n with
  | zero =>
    simp only [pow_zero] at hm hn
    omega
  | succ width ih =>
    have hpos : 0 < 10 ^ width := Nat.pow_pos (by decide)
    by_cases hzero : m = 0
    · subst hzero
      have hn0 : n ≠ 0 := fun h => hne h.symm
      rw [(fractionDigits_eq_nil hm).mpr rfl, fractionDigits_cons hn hn0]
      refine ⟨Nat.pos_of_ne_zero hn0, ?_⟩
      simp only [List.cons_append, List.nil_append, List.cons_lt_cons_iff]
      exact .inl (hstop _ (div_lt_ten hn))
    · have hn0 : n ≠ 0 := by
        rintro rfl
        rw [(fractionDigits_eq_nil hn).mpr rfl, List.prefix_nil, fractionDigits_eq_nil hm] at h
        exact hzero h
      rw [fractionDigits_cons hm hzero, fractionDigits_cons hn hn0] at h ⊢
      obtain ⟨hdigit, hrest⟩ := List.cons_prefix_cons.mp h
      have hquot : m / 10 ^ width = n / 10 ^ width :=
        (digitChar_inj (div_lt_ten hm) (div_lt_ten hn)).mp hdigit
      have hmod : m % 10 ^ width ≠ n % 10 ^ width := fun hmod => hne (by
        rw [← Nat.div_add_mod m (10 ^ width), ← Nat.div_add_mod n (10 ^ width), hquot, hmod])
      obtain ⟨hlt, htext⟩ := ih (Nat.mod_lt _ hpos) (Nat.mod_lt _ hpos) hmod hrest
      refine ⟨(lt_iff_div_mod _).mpr (.inr ⟨hquot, hlt⟩), ?_⟩
      rw [hdigit, List.cons_append, List.cons_append, List.cons_lt_cons_iff]
      exact .inr ⟨rfl, htext⟩

/-- Where the digits of two fractions differ before either ends, the order of the texts is that of
the fractions. -/
theorem fraction_lt_iff {stop : Char} (hm : m < 10 ^ width) (hn : n < 10 ^ width)
    (hmn : ¬ fractionDigits width m <+: fractionDigits width n)
    (hnm : ¬ fractionDigits width n <+: fractionDigits width m) :
    fractionDigits width m ++ [stop] < fractionDigits width n ++ [stop] ↔ m < n := by
  induction width generalizing m n with
  | zero =>
    simp only [pow_zero] at hm hn
    obtain rfl : m = n := by omega
    exact absurd (List.prefix_refl _) hmn
  | succ width ih =>
    have hpos : 0 < 10 ^ width := Nat.pow_pos (by decide)
    have hm0 : m ≠ 0 := by
      rintro rfl
      rw [(fractionDigits_eq_nil hm).mpr rfl] at hmn
      exact hmn List.nil_prefix
    have hn0 : n ≠ 0 := by
      rintro rfl
      rw [(fractionDigits_eq_nil hn).mpr rfl] at hnm
      exact hnm List.nil_prefix
    rw [fractionDigits_cons hm hm0, fractionDigits_cons hn hn0] at hmn hnm ⊢
    rw [List.cons_append, List.cons_append, List.cons_lt_cons_iff,
      digitChar_lt_iff (div_lt_ten hm) (div_lt_ten hn),
      digitChar_inj (div_lt_ten hm) (div_lt_ten hn)]
    refine (or_congr_right (and_congr_right fun hquot => ?_)).trans (lt_iff_div_mod _).symm
    rw [hquot, List.cons_prefix_cons] at hmn hnm
    exact ih (Nat.mod_lt _ hpos) (Nat.mod_lt _ hpos) (fun h => hmn ⟨rfl, h⟩) fun h => hnm ⟨rfl, h⟩

end LlmProxy.ProofKit
