import Mathlib.Tactic.FieldSimp
import Mathlib.Tactic.Linarith
import Mathlib.Tactic.Ring
import RenderPlan.Proofs.Scale.Value
/-!
Rounding to the nearest scale. A quotient is rounded on the grid on which its significand has 24
bits, or on that of single steps. No number of binary32 is nearer to it, even one of another grid,
and of two that are equally near the result is the one with the even significand. A quotient has a
nearest scale exactly between half a step and half a grid step below the power that comes next to
the largest number; at either end the tie goes to zero or beyond.
-/
namespace RenderPlan

section Quotient

variable {n d : ℕ} (hd : 0 < d)

include hd

theorem ratio_eq (n : ℕ) : (n / d : ℚ) = (n / d : ℕ) + (n % d : ℕ) / d := by
  have hd' : (d : ℚ) ≠ 0 := by exact_mod_cast hd.ne'
  have h : (n : ℚ) = d * (n / d : ℕ) + (n % d : ℕ) := by exact_mod_cast (Nat.div_add_mod n d).symm
  rw [eq_comm, eq_div_iff hd', add_mul, div_mul_cancel₀ _ hd', mul_comm]
  exact h.symm

/-- A rounded quotient is at most half a unit off, and only where there is a tie that much. -/
theorem roundDiv_error (tie : Tie) (n : ℕ) :
    |(n / d : ℚ) - roundDiv tie n d| ≤ 1 / 2 ∧
      (|(n / d : ℚ) - roundDiv tie n d| = 1 / 2 → 2 * (n % d) = d) := by
  have hd' : (0 : ℚ) < d := by exact_mod_cast hd
  have hr : ((n % d : ℕ) : ℚ) / d * d = (n % d : ℕ) := div_mul_cancel₀ _ hd'.ne'
  have h0 : (0 : ℚ) ≤ (n % d : ℕ) / d := by positivity
  rw [ratio_eq hd, roundDiv]
  generalize ((n % d : ℕ) : ℚ) / d = t at hr h0
  split
  · next h =>
    have ht : t < 1 / 2 := by
      have : 2 * ((n % d : ℕ) : ℚ) < d := by exact_mod_cast h
      nlinarith
    rw [add_sub_cancel_left, abs_of_nonneg h0]
    exact ⟨ht.le, fun he => absurd he ht.ne⟩
  · split
    · next h =>
      have ht : 1 / 2 < t := by
        have : (d : ℚ) < 2 * (n % d : ℕ) := by exact_mod_cast h
        nlinarith
      have ht' : t < 1 := by
        have : ((n % d : ℕ) : ℚ) < d := by exact_mod_cast Nat.mod_lt n hd
        nlinarith
      rw [show ((n / d : ℕ) : ℚ) + t - (n / d + 1 : ℕ) = -(1 - t) by push_cast; ring, abs_neg,
        abs_of_pos (by linarith)]
      exact ⟨by linarith, fun he => absurd he (by linarith)⟩
    · next hlt hgt =>
      have htie : 2 * (n % d) = d := by omega
      have ht : t = 1 / 2 := by
        have : 2 * ((n % d : ℕ) : ℚ) = d := by exact_mod_cast htie
        nlinarith
      refine ⟨?_, fun _ => htie⟩
      have hstep : (tie.step (n / d) : ℚ) ≤ 1 := by exact_mod_cast tie.step_le_one (n / d)
      have hpos : (0 : ℚ) ≤ tie.step (n / d) := by positivity
      rw [ht, abs_le]
      push_cast
      constructor <;> linarith

/-- No whole number is nearer to a quotient than the rounded one, and if another one is as near,
the rounded one is even. -/
theorem roundDiv_nearest (n : ℕ) (k : ℤ) :
    |(n / d : ℚ) - roundDiv .even n d| ≤ |(n / d : ℚ) - k| ∧
      (k ≠ roundDiv .even n d → |(n / d : ℚ) - k| = |(n / d : ℚ) - roundDiv .even n d| →
        roundDiv .even n d % 2 = 0) := by
  obtain ⟨herror, htie⟩ := roundDiv_error hd .even n
  by_cases hk : k = roundDiv .even n d
  · exact ⟨by rw [hk]; rfl, fun h => absurd hk h⟩
  have hgap : 1 ≤ |((roundDiv .even n d : ℕ) : ℚ) - k| := by
    exact_mod_cast Int.one_le_abs (sub_ne_zero.mpr (Ne.symm hk))
  have htri := abs_sub_le ((roundDiv .even n d : ℕ) : ℚ) (n / d : ℚ) k
  rw [abs_sub_comm _ (n / d : ℚ)] at htri
  exact ⟨by linarith, fun _ he => roundDiv_even_tie (htie (by linarith))⟩

end Quotient

/-- A quotient is rounded to 0 up to one half. -/
theorem roundDiv_even_eq_zero_iff {n d : ℕ} (hd : 0 < d) : roundDiv .even n d = 0 ↔ 2 * n ≤ d := by
  have hdiv := Nat.div_add_mod n d
  have hmod := Nat.mod_lt n hd
  simp only [roundDiv, Tie.step]
  cases hq : n / d with
  | zero =>
    rw [hq] at hdiv
    split <;> (try split) <;> omega
  | succ q =>
    have hle : d ≤ n := by
      rw [← hdiv, hq]
      exact Nat.le_add_right_of_le (Nat.le_mul_of_pos_right d (Nat.succ_pos q))
    split <;> (try split) <;> omega

/-- A quotient is rounded to an even number or more from half a unit below it on. -/
theorem le_roundDiv_even_iff {n d k : ℕ} (hd : 0 < d) (hk : k % 2 = 0) :
    k ≤ roundDiv .even n d ↔ 2 * k * d ≤ 2 * n + d := by
  have hdiv := Nat.div_add_mod n d
  have hmod := Nat.mod_lt n hd
  have hbounds := roundDiv_bounds .even n d
  generalize hq : n / d = q at hdiv hbounds
  rcases Nat.lt_trichotomy k (q + 1) with hlt | rfl | hgt
  · have hmul : d * k ≤ d * q := Nat.mul_le_mul_left d (by omega)
    have hcomm : 2 * k * d = 2 * (d * k) := by ring
    omega
  · have hmul : 2 * (q + 1) * d = 2 * (d * q) + 2 * d := by ring
    simp only [roundDiv, Tie.step, hq]
    split <;> (try split) <;> omega
  · have hmul : d * (q + 2) ≤ d * k := Nat.mul_le_mul_left d (by omega)
    have hexpand : d * (q + 2) = d * q + 2 * d := by ring
    have hcomm : 2 * k * d = 2 * (d * k) := by ring
    omega

namespace Scale

/-- The finite numbers of binary32: at most 24 bits of significand, and the exponents of scales. -/
def IsFinite (v : ℚ) : Prop := ∃ (m : ℤ) (e : ℕ), |m| < 2 ^ 24 ∧ e ≤ 253 ∧ v = m * 2 ^ e / 2 ^ 149

/-- A scale is the number of binary32 that is nearest to `q`, and the even one of two such. -/
structure IsNearest (s : Scale) (q : ℚ) : Prop where
  nearest : ∀ v, IsFinite v → |q - s.value| ≤ |q - v|
  even : ∀ v, IsFinite v → v ≠ s.value → |q - v| = |q - s.value| → s.significand % 2 = 0

@[simp] theorem cast_stepsInOne : (stepsInOne : ℚ) = 2 ^ 149 := by norm_num [stepsInOne]

theorem isFinite_value (s : Scale) : IsFinite s.value := by
  obtain ⟨_, hs, he, _⟩ := s.canonical
  refine ⟨s.significand, s.exponent, ?_, he, ?_⟩
  · rw [Nat.abs_cast]
    simp only [fullSignificand] at hs
    norm_num
    omega
  · simp only [value, steps, cast_stepsInOne, Nat.pow_eq]
    push_cast
    rfl

section Grid

variable {n d : ℕ}

/-- The quotient `n / d` in units of the grid on which it is rounded. -/
def gridRatio (n d : ℕ) : ℚ := (n * stepsInOne : ℕ) / (d * Nat.pow 2 (exponentOf n d) : ℕ)

/-- The point of the grid that `n / d` is rounded to. -/
def gridPoint (n d : ℕ) : ℕ := roundDiv .even (n * stepsInOne) (d * Nat.pow 2 (exponentOf n d))

variable (hd : 0 < d)

include hd

theorem ratio_eq_gridRatio :
    (n / d : ℚ) = gridRatio n d * (2 ^ exponentOf n d / 2 ^ 149) := by
  have hd' : (d : ℚ) ≠ 0 := by exact_mod_cast hd.ne'
  rw [gridRatio, Nat.cast_mul, cast_stepsInOne, Nat.pow_eq]
  push_cast
  field_simp

theorem steps_lt : n * stepsInOne < Nat.pow 2 24 * (d * Nat.pow 2 (exponentOf n d)) := by
  have hfloor : n * stepsInOne / d < 2 ^ (exponentOf n d + 24) := by
    refine Nat.lt_log2_self.trans_le (Nat.pow_le_pow_right (by decide) ?_)
    rw [exponentOf]
    omega
  rw [Nat.div_lt_iff_lt_mul hd, Nat.pow_add] at hfloor
  calc n * stepsInOne < 2 ^ exponentOf n d * 2 ^ 24 * d := hfloor
    _ = Nat.pow 2 24 * (d * Nat.pow 2 (exponentOf n d)) := by simp only [Nat.pow_eq]; ring

theorem le_steps (he : exponentOf n d ≠ 0) :
    Nat.pow 2 23 * (d * Nat.pow 2 (exponentOf n d)) ≤ n * stepsInOne := by
  have hlog : Nat.log2 (n * stepsInOne / d) = exponentOf n d + 23 := by
    rw [exponentOf] at he ⊢
    omega
  have hne : n * stepsInOne / d ≠ 0 := by
    intro h
    rw [h, Nat.log2_zero] at hlog
    omega
  have hfloor : 2 ^ (exponentOf n d + 23) ≤ n * stepsInOne / d := hlog ▸ Nat.log2_self_le hne
  rw [Nat.le_div_iff_mul_le hd, Nat.pow_add] at hfloor
  calc Nat.pow 2 23 * (d * Nat.pow 2 (exponentOf n d)) = 2 ^ exponentOf n d * 2 ^ 23 * d := by
        simp only [Nat.pow_eq]; ring
    _ ≤ n * stepsInOne := hfloor

theorem le_gridRatio (he : exponentOf n d ≠ 0) : 2 ^ 23 ≤ gridRatio n d := by
  have hpos : (0 : ℚ) < (d * Nat.pow 2 (exponentOf n d) : ℕ) := by
    exact_mod_cast Nat.mul_pos hd (Nat.two_pow_pos _)
  rw [gridRatio, le_div_iff₀ hpos]
  exact_mod_cast le_steps hd he

/-- The grid has 24 bits of significand, the power that comes next included. -/
theorem gridPoint_le : gridPoint n d ≤ 2 * fullSignificand := by
  have hpos : 0 < d * Nat.pow 2 (exponentOf n d) := Nat.mul_pos hd (Nat.two_pow_pos _)
  have hfloor := (Nat.div_lt_iff_lt_mul hpos).mpr (steps_lt (n := n) hd)
  have hbounds := (roundDiv_bounds .even (n * stepsInOne) (d * Nat.pow 2 (exponentOf n d))).2
  rw [gridPoint]
  simp only [Nat.pow_eq, fullSignificand] at *
  omega

theorem le_gridPoint (he : exponentOf n d ≠ 0) : fullSignificand ≤ gridPoint n d := by
  have hpos : 0 < d * Nat.pow 2 (exponentOf n d) := Nat.mul_pos hd (Nat.two_pow_pos _)
  have hfloor := (Nat.le_div_iff_mul_le hpos).mpr (le_steps hd he)
  have hbounds := (roundDiv_bounds .even (n * stepsInOne) (d * Nat.pow 2 (exponentOf n d))).1
  exact hfloor.trans hbounds

/-- No number of binary32, on whatever grid, is nearer to a quotient than its point. A number of
a finer grid is less than the least quotient of 24 bits on this grid. -/
theorem gridPoint_nearest {m : ℤ} (hm : |m| < 2 ^ 24) (e : ℕ) {w : ℚ}
    (hw : w = m * 2 ^ e / 2 ^ exponentOf n d) :
    |gridRatio n d - gridPoint n d| ≤ |gridRatio n d - w| ∧
      (w ≠ gridPoint n d → |gridRatio n d - w| = |gridRatio n d - gridPoint n d| →
        gridPoint n d % 2 = 0) := by
  have hpos : 0 < d * Nat.pow 2 (exponentOf n d) := Nat.mul_pos hd (Nat.two_pow_pos _)
  have hnear := roundDiv_nearest hpos (n * stepsInOne)
  change ∀ k : ℤ, |gridRatio n d - gridPoint n d| ≤ |gridRatio n d - k| ∧ (k ≠ gridPoint n d →
    |gridRatio n d - k| = |gridRatio n d - gridPoint n d| → gridPoint n d % 2 = 0) at hnear
  have hpow : (0 : ℚ) < 2 ^ exponentOf n d := by positivity
  rcases Nat.lt_or_ge e (exponentOf n d) with hlt | hge
  · have hratio : 2 ^ 23 ≤ gridRatio n d := le_gridRatio hd (by omega)
    have hsmall : w < 2 ^ 23 := by
      have hm' : (m : ℚ) < 2 ^ 24 := by exact_mod_cast (abs_lt.mp hm).2
      have he : (2 : ℚ) ^ e * 2 ≤ 2 ^ exponentOf n d := by
        rw [← pow_succ]
        exact pow_le_pow_right₀ (by norm_num) hlt
      have hpe : (0 : ℚ) < 2 ^ e := by positivity
      rw [hw, div_lt_iff₀ hpow]
      nlinarith
    have hfull := (hnear (2 ^ 23)).1
    rw [Int.cast_pow, Int.cast_ofNat] at hfull
    rw [abs_of_nonneg (sub_nonneg.mpr hratio)] at hfull
    rw [abs_of_pos (sub_pos.mpr (hsmall.trans_le hratio))]
    exact ⟨by linarith, fun _ h => absurd h (by linarith)⟩
  · have hint : w = (m * 2 ^ (e - exponentOf n d) : ℤ) := by
      rw [hw, div_eq_iff hpow.ne']
      push_cast
      rw [mul_assoc, ← pow_add, Nat.sub_add_cancel hge]
    rw [hint]
    have hk := hnear (m * 2 ^ (e - exponentOf n d))
    exact ⟨hk.1, fun hne => hk.2 (by exact_mod_cast hne)⟩

end Grid

/-- What a rounded quotient is: the point of its grid, or the power that comes next. -/
theorem of_ofRatio?_eq_some {n d : ℕ} {s : Scale} (h : ofRatio? n d = some s) :
    s.value = gridPoint n d * (2 ^ exponentOf n d / 2 ^ 149) ∧
      (gridPoint n d % 2 = 0 → s.significand % 2 = 0) := by
  have hvalue : s.value = s.significand * 2 ^ s.exponent / 2 ^ 149 := by
    simp only [value, steps, cast_stepsInOne, Nat.pow_eq]
    push_cast
    rfl
  unfold ofRatio? at h
  change (if gridPoint n d = 2 * fullSignificand then _ else _) = _ at h
  split at h
  · next hfull =>
    obtain ⟨hs, he⟩ := make?_eq_some_iff.mp h
    rw [hvalue, hs, he, hfull, pow_succ]
    refine ⟨?_, fun _ => by decide⟩
    push_cast
    ring
  · obtain ⟨hs, he⟩ := make?_eq_some_iff.mp h
    rw [hvalue, hs, he, mul_div_assoc]
    exact ⟨rfl, id⟩

/-- A quotient is rounded to the nearest number of binary32. -/
theorem isNearest_of_ofRatio? {n d : ℕ} (hd : 0 < d) {s : Scale} (h : ofRatio? n d = some s) :
    s.IsNearest (n / d) := by
  obtain ⟨hvalue, heven⟩ := of_ofRatio?_eq_some h
  have hunit : (0 : ℚ) < 2 ^ exponentOf n d / 2 ^ 149 := by positivity
  have hscaled (x y : ℚ) : |x * (2 ^ exponentOf n d / 2 ^ 149) - y * (2 ^ exponentOf n d / 2 ^ 149)|
      = |x - y| * (2 ^ exponentOf n d / 2 ^ 149) := by
    rw [← sub_mul, abs_mul, abs_of_pos hunit]
  have hgrid : ∀ v, IsFinite v → ∃ w, v = w * (2 ^ exponentOf n d / 2 ^ 149) ∧
      |gridRatio n d - gridPoint n d| ≤ |gridRatio n d - w| ∧ (w ≠ gridPoint n d →
        |gridRatio n d - w| = |gridRatio n d - gridPoint n d| → gridPoint n d % 2 = 0) := by
    rintro v ⟨m, e, hm, -, rfl⟩
    refine ⟨_, ?_, gridPoint_nearest hd hm e rfl⟩
    field_simp
  constructor
  · intro v hv
    obtain ⟨w, rfl, hnear, -⟩ := hgrid v hv
    rw [ratio_eq_gridRatio hd, hvalue, hscaled, hscaled]
    exact mul_le_mul_of_nonneg_right hnear hunit.le
  · intro v hv hne htie
    obtain ⟨w, rfl, -, hw⟩ := hgrid v hv
    rw [ratio_eq_gridRatio hd, hvalue, hscaled, hscaled] at htie
    refine heven (hw ?_ (mul_right_cancel₀ hunit.ne' htie))
    rintro rfl
    exact hne hvalue.symm

theorem isSome_make?_iff {s e : ℕ} : (make? s e).isSome ↔ Canonical s e := by
  unfold make?
  split <;> simp [*]

section Range

variable {n d : ℕ} (hd : 0 < d)

include hd

theorem isSome_ofRatio?_iff_gridPoint : (ofRatio? n d).isSome ↔ 0 < gridPoint n d ∧
    (exponentOf n d ≤ 252 ∨ exponentOf n d = 253 ∧ gridPoint n d < 2 * fullSignificand) := by
  have hle := gridPoint_le (n := n) hd
  have hfull := le_gridPoint (n := n) hd
  have hcond : (ofRatio? n d).isSome ↔ if gridPoint n d = 2 * fullSignificand then
      Canonical fullSignificand (exponentOf n d + 1) else
      Canonical (gridPoint n d) (exponentOf n d) := by
    unfold ofRatio?
    change (if gridPoint n d = 2 * fullSignificand then _ else _ : Option Scale).isSome = true ↔ _
    split <;> exact isSome_make?_iff
  rw [hcond]
  split <;> simp only [Canonical, fullSignificand] at * <;> omega

/-- A quotient is rounded up from zero if it is more than half a step. -/
theorem gridPoint_pos_iff : 0 < gridPoint n d ↔ d < 2 * (n * stepsInOne) := by
  by_cases he : exponentOf n d = 0
  · have hzero := roundDiv_even_eq_zero_iff (n := n * stepsInOne) hd
    rw [gridPoint, he, show Nat.pow 2 0 = 1 from rfl, Nat.mul_one]
    omega
  · have hpoint := le_gridPoint hd he
    have hsteps := le_steps hd he
    have hpow : d ≤ d * Nat.pow 2 (exponentOf n d) := Nat.le_mul_of_pos_right d (Nat.two_pow_pos _)
    simp only [fullSignificand, Nat.pow_eq] at *
    omega

theorem lt_beyond_iff : (exponentOf n d ≤ 252 ∨ exponentOf n d = 253 ∧
    gridPoint n d < 2 * fullSignificand) ↔ n * stepsInOne < (2 ^ 25 - 1) * (2 ^ 252 * d) := by
  have hpow : 0 < d * Nat.pow 2 (exponentOf n d) := Nat.mul_pos hd (Nat.two_pow_pos _)
  rcases Nat.lt_trichotomy (exponentOf n d) 253 with hlt | heq | hgt
  · have hsteps := steps_lt (n := n) hd
    have hle : d * Nat.pow 2 (exponentOf n d) ≤ d * 2 ^ 252 :=
      Nat.mul_le_mul_left d (Nat.pow_le_pow_right (by decide) (by omega))
    simp only [Nat.pow_eq] at *
    omega
  · have hround : 2 * fullSignificand ≤ gridPoint n d ↔ _ :=
      le_roundDiv_even_iff (n := n * stepsInOne) hpow (by decide)
    rw [heq] at hround ⊢
    simp only [fullSignificand, Nat.pow_eq, true_and] at *
    omega
  · have hsteps := le_steps (n := n) hd (by omega)
    have hle : d * 2 ^ 254 ≤ d * Nat.pow 2 (exponentOf n d) :=
      Nat.mul_le_mul_left d (Nat.pow_le_pow_right (by decide) (by omega))
    simp only [Nat.pow_eq] at *
    omega

/-- A quotient has a nearest scale exactly between the two ties at the ends. -/
theorem isSome_ofRatio?_iff : (ofRatio? n d).isSome ↔
    1 / 2 ^ 150 < (n / d : ℚ) ∧ (n / d : ℚ) < 2 ^ 128 - 2 ^ 103 := by
  have hd' : (0 : ℚ) < d := by exact_mod_cast hd
  have hlow : 1 / 2 ^ 150 < (n / d : ℚ) ↔ d < 2 * (n * stepsInOne) := by
    rw [div_lt_div_iff₀ (by positivity) hd', ← Nat.cast_lt (α := ℚ)]
    push_cast
    rw [cast_stepsInOne]
    constructor <;> intro h <;> linarith
  have hhigh : (n / d : ℚ) < 2 ^ 128 - 2 ^ 103 ↔ n * stepsInOne < (2 ^ 25 - 1) * (2 ^ 252 * d) := by
    rw [div_lt_iff₀ hd', ← Nat.cast_lt (α := ℚ)]
    push_cast
    rw [cast_stepsInOne]
    constructor <;> intro h <;> linarith
  rw [isSome_ofRatio?_iff_gridPoint hd, gridPoint_pos_iff hd, lt_beyond_iff hd, hlow, hhigh]

end Range

end Scale
end RenderPlan
