import RenderPlan.Scale.Rounding
/-!
Scales: positive numbers of binary32, held exactly. A scale is `significand * 2 ^ exponent` steps,
a step being `2 ^ -149`. The form is canonical, so two scales are equal exactly if they are the same
number: a significand of less than 24 bits occurs only with the exponent 0. A quotient of natural
numbers is rounded once, to the nearest scale, a half going to the even significand.
-/
namespace RenderPlan

/-- The least significand of full length, which is `2 ^ 23`. -/
def Scale.fullSignificand : Nat := 8388608

/-- The number of steps that make up 1. -/
def Scale.stepsInOne : Nat := Nat.pow 2 149

/-- The pairs that stand for a positive finite number of binary32. -/
def Scale.Canonical (significand exponent : Nat) : Prop :=
  0 < significand ∧ significand < 2 * fullSignificand ∧ exponent ≤ 253
    ∧ (exponent = 0 ∨ fullSignificand ≤ significand)

instance (s e : Nat) : Decidable (Scale.Canonical s e) := by
  unfold Scale.Canonical; infer_instance

structure Scale where
  significand : Nat
  exponent : Nat
  canonical : Scale.Canonical significand exponent
  deriving DecidableEq

namespace Scale

/-- The number of steps in the scale. -/
def steps (s : Scale) : Nat := s.significand * Nat.pow 2 s.exponent

/-- The scale 1, which a texture has where none is given. -/
def one : Scale := ⟨fullSignificand, 126, by decide⟩

def make? (significand exponent : Nat) : Option Scale :=
  if h : Canonical significand exponent then some ⟨significand, exponent, h⟩ else none

/-- The exponent at which the significand of `n / d` has its 24 bits, or 0 for smaller quotients. -/
def exponentOf (n d : Nat) : Nat := Nat.log2 (n * stepsInOne / d) - 23

/-- The scale nearest to `n / d`; none if that is zero or too large for a scale. -/
def ofRatio? (n d : Nat) : Option Scale :=
  let e := exponentOf n d
  let s := roundDiv .even (n * stepsInOne) (d * Nat.pow 2 e)
  if s = 2 * fullSignificand then make? fullSignificand (e + 1) else make? s e

@[simp] theorem steps_one : one.steps = stepsInOne := by decide

theorem make?_eq_some_iff {s e : Nat} {x : Scale} :
    make? s e = some x ↔ x.significand = s ∧ x.exponent = e := by
  unfold make?
  constructor
  · intro h
    split at h
    · cases h; exact ⟨rfl, rfl⟩
    · cases h
  · rintro ⟨rfl, rfl⟩
    simp [x.canonical]

theorem steps_pos (s : Scale) : 0 < s.steps :=
  Nat.mul_pos s.canonical.1 (Nat.two_pow_pos _)

end Scale
end RenderPlan
