import Mathlib.Tactic.NormNum
import Mathlib.Tactic.Positivity

/-! Signed 64-bit integers and their decimal text, as Go's `int64` and its package `strconv` have
them: `FormatInt(_, 10)` is the text of an integer, and `ParseInt(_, 10, 64)` reads it back. -/

namespace LlmProxy.ProofKit

/-- The integers of type `int64`. -/
def FitsInt64 (x : Int) : Prop := -2 ^ 63 ≤ x ∧ x < 2 ^ 63

instance (x : Int) : Decidable (FitsInt64 x) := inferInstanceAs (Decidable (_ ∧ _))

/-- The value of type `int64` that an operation with the exact result `x` gives. -/
def wrapInt64 (x : Int) : Int := x.bmod (2 ^ 64)

theorem wrapInt64_of_fits {x : Int} (h : FitsInt64 x) : wrapInt64 x = x := by
  obtain ⟨hlow, hhigh⟩ := h
  apply Int.bmod_eq_of_le
  · norm_num
    omega
  · norm_num
    omega

theorem wrapInt64_fits (x : Int) : FitsInt64 (wrapInt64 x) := by
  have hlow : -(((2 ^ 64 : Nat) : Int) / 2) ≤ wrapInt64 x := Int.le_bmod (by norm_num)
  have hhigh : wrapInt64 x < (((2 ^ 64 : Nat) : Int) + 1) / 2 := Int.bmod_lt (by norm_num)
  constructor <;> omega

/-- What is left of a number where negative values count as 0. -/
theorem toNat_wrapInt64 (x : Int) :
    ((wrapInt64 x).toNat : Int) = if x % 2 ^ 64 < 2 ^ 63 then x % 2 ^ 64 else 0 := by
  rw [wrapInt64, Int.bmod_def]
  norm_num
  split <;> omega

/-- One more and one less is no change, also across the end of the range. -/
theorem wrapInt64_succ_pred {x : Int} (h : FitsInt64 x) :
    wrapInt64 (wrapInt64 (x + 1) + -1) = x := by
  rw [wrapInt64, wrapInt64, Int.bmod_add_bmod, Int.add_neg_cancel_right]
  exact wrapInt64_of_fits h

theorem wrapInt64_succ_ne (x : Int) : wrapInt64 (x + 1) ≠ x := by
  intro h
  have hmod : (x + 1) % ((2 ^ 64 : Nat) : Int) = x % ((2 ^ 64 : Nat) : Int) := by
    rw [← Int.bmod_emod, show (x + 1).bmod (2 ^ 64) = x from h]
  omega

def formatInt (x : Int) : String := x.repr

/-- The loop of `ParseUint` over the digits of a number, of which `n` is the part already read.  An
overflow ends it with the greatest value of the type, whatever follows, a character that is no
digit with `none`. -/
def scanDigits : List Char → Nat → Option Nat
  | [], n => some n
  | c :: rest, n =>
    if c.isDigit then
      if 2 ^ 64 ≤ 10 * n + (c.toNat - '0'.toNat) then some (2 ^ 64 - 1)
      else scanDigits rest (10 * n + (c.toNat - '0'.toNat))
    else none

def parseUint (digits : List Char) : Option Nat :=
  if digits = [] then none else scanDigits digits 0

/-- The value of type `int64` nearest to a number that is read with the given sign, 0 where no
number was read. -/
def clampInt64 (negative : Bool) : Option Nat → Int
  | none => 0
  | some n => if negative then -Int.ofNat (min n (2 ^ 63)) else Int.ofNat (min n (2 ^ 63 - 1))

/-- The value that `ParseInt(_, 10, 64)` returns, also beside an error. -/
def parseInt (text : String) : Int :=
  match text.toList with
  | '-' :: digits => clampInt64 true (parseUint digits)
  | '+' :: digits => clampInt64 false (parseUint digits)
  | digits => clampInt64 false (parseUint digits)

theorem clampInt64_fits (negative : Bool) (n : Option Nat) : FitsInt64 (clampInt64 negative n) := by
  cases n with
  | none => exact ⟨by norm_num [clampInt64], by norm_num [clampInt64]⟩
  | some n =>
    simp only [clampInt64]
    split
    · constructor <;> simp only [Int.ofNat_eq_natCast] <;> omega
    · constructor <;> simp only [Int.ofNat_eq_natCast] <;> omega

theorem parseInt_fits (text : String) : FitsInt64 (parseInt text) := by
  unfold parseInt
  split <;> exact clampInt64_fits _ _

theorem scanDigits_of_lt {digits : List Char} {n : Nat} (hdigit : ∀ c ∈ digits, c.isDigit)
    (hfits : Nat.ofDigitChars 10 digits n < 2 ^ 64) :
    scanDigits digits n = some (Nat.ofDigitChars 10 digits n) := by
  induction digits generalizing n with
  | nil => rfl
  | cons c rest ih =>
    rw [Nat.ofDigitChars_cons] at hfits ⊢
    have hgrows : ∀ m, m ≤ Nat.ofDigitChars 10 rest m := by
      intro m
      rw [Nat.ofDigitChars_eq_ofDigitChars_zero]
      have : m ≤ 10 ^ rest.length * m := Nat.le_mul_of_pos_left _ (by positivity)
      omega
    have hsmall := hgrows (10 * n + (c.toNat - '0'.toNat))
    rw [scanDigits, if_pos (hdigit c (by simp)), if_neg (by omega)]
    exact ih (fun d hd => hdigit d (by simp [hd])) hfits

theorem isDigit_of_mem_digits {n : Nat} {c : Char} (h : c ∈ Nat.toDigits 10 n) : c.isDigit :=
  Nat.isDigit_of_mem_toDigits (by decide) (by decide) h

theorem parseUint_toDigits {n : Nat} (h : n < 2 ^ 64) : parseUint (Nat.toDigits 10 n) = some n := by
  rw [parseUint, if_neg Nat.toDigits_ne_nil,
    scanDigits_of_lt (fun c hc => isDigit_of_mem_digits hc) (by simpa using h)]
  simp

theorem formatInt_toList (x : Int) :
    (formatInt x).toList =
      if 0 ≤ x then Nat.toDigits 10 x.toNat else '-' :: Nat.toDigits 10 (-x).toNat := by
  rw [formatInt, Int.repr_eq_if]
  split <;> simp

theorem parseInt_formatInt {x : Int} (h : FitsInt64 x) : parseInt (formatInt x) = x := by
  obtain ⟨hlow, hhigh⟩ := h
  have htext := formatInt_toList x
  unfold parseInt
  by_cases hx : 0 ≤ x
  · rw [if_pos hx] at htext
    have hsign {c : Char} {digits : List Char} (h : (formatInt x).toList = c :: digits) :
        c.isDigit :=
      isDigit_of_mem_digits (n := x.toNat) (by simp [← htext, h])
    split
    case h_1 heq => exact absurd (hsign heq) (by decide)
    case h_2 heq => exact absurd (hsign heq) (by decide)
    case h_3 =>
      rw [htext, parseUint_toDigits (by omega)]
      simp only [clampInt64, Bool.false_eq_true, if_false, Int.ofNat_eq_natCast]
      omega
  · rw [if_neg hx] at htext
    rw [htext]
    simp only [parseUint_toDigits (show (-x).toNat < 2 ^ 64 by omega), clampInt64, if_true,
      Int.ofNat_eq_natCast]
    omega

/-- The value that `ParseInt(_, 10, 64)` returns without an error. -/
def parseInt? (text : String) : Option Int :=
  let read (negative : Bool) (digits : List Char) : Option Int :=
    if digits ≠ [] ∧ digits.all Char.isDigit then
      let n : Int := Nat.ofDigitChars 10 digits 0
      let x := if negative then -n else n
      if FitsInt64 x then some x else none
    else none
  match text.toList with
  | '-' :: digits => read true digits
  | '+' :: digits => read false digits
  | digits => read false digits

theorem parseInt?_fits {text : String} {x : Int} (h : parseInt? text = some x) : FitsInt64 x := by
  have hread {digits : List Char} {y : Int}
      (hy : (if digits ≠ [] ∧ digits.all Char.isDigit then
        if FitsInt64 y then some y else none else none) = some x) : FitsInt64 x := by
    split at hy
    · split at hy
      · next hfits => exact Option.some.inj hy ▸ hfits
      · cases hy
    · cases hy
  unfold parseInt? at h
  split at h
  · exact hread h
  · exact hread h
  · exact hread h

/-- The text of a number that is not negative is read as digits. -/
theorem parseInt?_formatInt {n : Nat} (h : n < 2 ^ 63) :
    parseInt? (formatInt n) = some (n : Int) := by
  have htext : (formatInt n).toList = Nat.toDigits 10 n := by
    rw [formatInt_toList, if_pos (by omega), Int.toNat_natCast]
  have hsign {c : Char} {digits : List Char} (h : (formatInt n).toList = c :: digits) : c.isDigit :=
    isDigit_of_mem_digits (n := n) (by simp [← htext, h])
  have hfits : FitsInt64 n := ⟨by omega, by omega⟩
  unfold parseInt?
  split
  case h_1 heq => exact absurd (hsign heq) (by decide)
  case h_2 heq => exact absurd (hsign heq) (by decide)
  case h_3 =>
    have hdigits : (Nat.toDigits 10 n).all Char.isDigit = true :=
      List.all_eq_true.mpr fun c hc => isDigit_of_mem_digits hc
    simp [htext, hdigits, hfits]

/-- The text of every integer of the type is read back. -/
theorem parseInt?_formatInt_of_fits {x : Int} (h : FitsInt64 x) :
    parseInt? (formatInt x) = some x := by
  obtain ⟨hlow, hhigh⟩ := id h
  by_cases hx : 0 ≤ x
  · have hread := parseInt?_formatInt (n := x.toNat) (by omega)
    rwa [Int.toNat_of_nonneg hx] at hread
  · have htext : (formatInt x).toList = '-' :: Nat.toDigits 10 (-x).toNat := by
      rw [formatInt_toList, if_neg hx]
    have hdigits : (Nat.toDigits 10 (-x).toNat).all Char.isDigit = true :=
      List.all_eq_true.mpr fun c hc => isDigit_of_mem_digits hc
    have hvalue : -((-x).toNat : Int) = x := by omega
    have hne : Nat.toDigits 10 (-x).toNat ≠ [] := Nat.toDigits_ne_nil
    simp only [parseInt?, htext, hdigits, hne, ne_eq, not_false_eq_true, and_self, if_true,
      Nat.ofDigitChars_toDigits (show 1 < 10 by decide) (show 10 ≤ 10 by decide), hvalue, h]

/-- A number that is not zero starts with a digit that is not zero. -/
theorem toDigits_head {n : Nat} (h : n ≠ 0) :
    ∃ d < 10, d ≠ 0 ∧ ∃ rest, Nat.toDigits 10 n = Nat.digitChar d :: rest := by
  induction n using Nat.strongRecOn with
  | ind n ih =>
    rw [Nat.toDigits_eq_if (by decide)]
    split
    · next hsmall => exact ⟨n, hsmall, h, [], rfl⟩
    · next hlarge =>
      obtain ⟨d, hd, hne, rest, hrest⟩ := ih (n / 10) (by omega) (by omega)
      exact ⟨d, hd, hne, rest ++ [Nat.digitChar (n % 10)], by rw [hrest]; rfl⟩

/-- No number is read from a text with a character that is neither a digit nor a sign. -/
theorem parseInt?_eq_none {text : String} {c : Char} (hc : c ∈ text.toList) (hdigit : ¬ c.isDigit)
    (hminus : c ≠ '-') (hplus : c ≠ '+') : parseInt? text = none := by
  have hread {digits : List Char} (hmem : c ∈ digits) :
      ¬ (digits ≠ [] ∧ digits.all Char.isDigit = true) :=
    fun h => hdigit (List.all_eq_true.mp h.2 c hmem)
  unfold parseInt?
  split
  case h_1 digits htext =>
    rw [htext] at hc
    exact if_neg (hread ((List.mem_cons.mp hc).resolve_left hminus))
  case h_2 digits htext =>
    rw [htext] at hc
    exact if_neg (hread ((List.mem_cons.mp hc).resolve_left hplus))
  case h_3 => exact if_neg (hread hc)

theorem formatInt_injective : Function.Injective formatInt := by
  intro x y h
  have hlist := congrArg String.toList h
  rw [formatInt_toList, formatInt_toList] at hlist
  have hdigits {m n : Nat} (h : Nat.toDigits 10 m = Nat.toDigits 10 n) : m = n := by
    simpa using congrArg (Nat.ofDigitChars 10 · 0) h
  have hsign {m n : Nat} (h : Nat.toDigits 10 m = '-' :: Nat.toDigits 10 n) : False := by
    have := isDigit_of_mem_digits (n := m) (c := '-') (by simp [h])
    contradiction
  split at hlist <;> split at hlist
  · have := hdigits hlist
    omega
  · exact (hsign hlist).elim
  · exact (hsign hlist.symm).elim
  · have := hdigits (List.cons.inj hlist).2
    omega

theorem formatInt_ne_nil (x : Int) : (formatInt x).toList ≠ [] := by
  rw [formatInt_toList]
  split
  · exact Nat.toDigits_ne_nil
  · exact List.cons_ne_nil _ _

/-- The text of an integer has digits, and perhaps a sign. -/
theorem notMem_formatInt (x : Int) {c : Char} (hdigit : ¬ c.isDigit) (hminus : c ≠ '-') :
    c ∉ (formatInt x).toList := by
  rw [formatInt_toList]
  intro h
  split at h
  · exact hdigit (isDigit_of_mem_digits h)
  · rcases List.mem_cons.mp h with h | h
    · exact hminus h
    · exact hdigit (isDigit_of_mem_digits h)

theorem colon_notMem_formatInt (x : Int) : ':' ∉ (formatInt x).toList :=
  notMem_formatInt x (by decide) (by decide)

end LlmProxy.ProofKit
