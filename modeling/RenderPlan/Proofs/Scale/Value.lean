import Mathlib.Algebra.Order.Field.Basic
import Mathlib.Data.Rat.Cast.Order
import Mathlib.Tactic.NormNum
import Mathlib.Tactic.Positivity
import RenderPlan.Scale.Basic
/-!
The numbers that scales stand for. Every scale is positive, and none is larger than the largest
finite number of binary32.
-/
namespace RenderPlan.Scale

/-- The number that a scale stands for. -/
def value (s : Scale) : ℚ := s.steps / stepsInOne

/-- The largest finite number of binary32: a significand of 24 ones. -/
def largest : ℚ := (2 ^ 24 - 1) * 2 ^ 104

theorem stepsInOne_pos : 0 < (stepsInOne : ℚ) := by
  exact_mod_cast Nat.two_pow_pos 149

theorem steps_le (s : Scale) : s.steps ≤ (2 ^ 24 - 1) * 2 ^ 253 := by
  obtain ⟨_, hs, he, _⟩ := s.canonical
  have hsig : s.significand ≤ 2 ^ 24 - 1 := by
    simp only [fullSignificand] at hs
    omega
  have hpow : 2 ^ s.exponent ≤ 2 ^ 253 := Nat.pow_le_pow_right (by decide) he
  exact Nat.mul_le_mul hsig hpow

/-- Whether a scale stands for a positive finite number of binary32. -/
def InRange (s : Scale) : Prop := 0 < s.value ∧ s.value ≤ largest

theorem value_pos (s : Scale) : 0 < s.value :=
  div_pos (by exact_mod_cast s.steps_pos) stepsInOne_pos

theorem value_le_largest (s : Scale) : s.value ≤ largest := by
  rw [value, div_le_iff₀ stepsInOne_pos]
  have hs : (s.steps : ℚ) ≤ ((2 ^ 24 - 1) * 2 ^ 253 : ℕ) := by exact_mod_cast s.steps_le
  refine hs.trans ?_
  norm_num [largest, stepsInOne]

theorem inRange (s : Scale) : s.InRange := ⟨s.value_pos, s.value_le_largest⟩

instance (s : Scale) : Decidable s.InRange := isTrue s.inRange

end RenderPlan.Scale
