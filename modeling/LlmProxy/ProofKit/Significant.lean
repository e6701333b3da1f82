import Mathlib.Data.Nat.Log
import Mathlib.Tactic.NormNum

/-! Integers with a bounded number of significant bits, as a binary floating-point format has them,
and rounding to the nearest one of them. -/

namespace LlmProxy.ProofKit

/-- The exponent with which an integer has so many significant bits. -/
def unitExponent (bits n : Nat) : Nat := Nat.log2 n + 1 - bits

/-- Rounding to the nearest integer with so many significant bits, of two the one with an even
significand. -/
def roundNat (bits n : Nat) : Nat :=
  let unit := 2 ^ unitExponent bits n
  let up := unit < 2 * (n % unit) ∨ 2 * (n % unit) = unit ∧ n / unit % 2 = 1
  (if up then n / unit + 1 else n / unit) * unit

def roundInt (bits : Nat) (z : Int) : Int := z.sign * roundNat bits z.natAbs

/-- An integer with at most so many significant bits. -/
def Significant (bits : Nat) (z : Int) : Prop := ∃ m e, z.natAbs = m * 2 ^ e ∧ m < 2 ^ bits

theorem roundNat_eq_self_iff {bits n : Nat} : roundNat bits n = n ↔
    2 ^ unitExponent bits n ∣ n := by
  have hpos : 0 < 2 ^ unitExponent bits n := by positivity
  simp only [roundNat]
  generalize 2 ^ unitExponent bits n = unit at hpos
  constructor
  · intro h
    exact ⟨_, by rw [Nat.mul_comm]; exact h.symm⟩
  · intro h
    have hmod : n % unit = 0 := Nat.mod_eq_zero_of_dvd h
    rw [if_neg (by omega), Nat.div_mul_cancel h]

theorem unit_dvd_iff {bits n : Nat} :
    2 ^ unitExponent bits n ∣ n ↔ ∃ m e, n = m * 2 ^ e ∧ m < 2 ^ bits := by
  by_cases hzero : n = 0
  · subst hzero
    exact iff_of_true (Nat.dvd_zero _) ⟨0, 0, rfl, by positivity⟩
  constructor
  · intro h
    refine ⟨n / 2 ^ unitExponent bits n, unitExponent bits n, (Nat.div_mul_cancel h).symm, ?_⟩
    rw [Nat.div_lt_iff_lt_mul (by positivity), ← Nat.pow_add, ← Nat.log2_lt hzero]
    unfold unitExponent
    omega
  · rintro ⟨m, e, hn, hm⟩
    have hlt : n < 2 ^ (bits + e) := by
      rw [hn, Nat.pow_add]
      exact Nat.mul_lt_mul_of_pos_right hm (by positivity)
    have hexp : unitExponent bits n ≤ e := by
      have hlog := (Nat.log2_lt hzero).mpr hlt
      unfold unitExponent
      omega
    exact (Nat.pow_dvd_pow 2 hexp).trans ⟨m, by rw [Nat.mul_comm]; exact hn⟩

theorem roundInt_eq_self_iff {bits : Nat} {z : Int} : roundInt bits z = z ↔ Significant bits z := by
  rw [Significant, ← unit_dvd_iff, ← roundNat_eq_self_iff, roundInt]
  by_cases hzero : z = 0
  · subst hzero
    simp [roundNat]
  constructor
  · intro h
    have habs := congrArg Int.natAbs h
    rwa [Int.natAbs_mul, Int.natAbs_sign_of_ne_zero hzero, Nat.one_mul, Int.natAbs_natCast] at habs
  · intro h
    rw [h, Int.sign_mul_natAbs]

example : roundInt 53 (2 ^ 53 + 1) = 2 ^ 53 ∧
    roundInt 53 (-(2 ^ 53 + 3)) = -(2 ^ 53 + 4) := by decide

end LlmProxy.ProofKit
