import RenderPlan.Proofs.Text.Trim
import RenderPlan.Scale.Decimal
/-!
Scales written exactly. A step is `5 ^ 149 * 10 ^ -149`, so every scale is a whole number of units
of the decimal grid `10 ^ -149`. A quotient that is a scale is rounded to that scale, and therefore
the numeral that counts the units reads back as the scale.
-/
namespace RenderPlan

/-- A quotient that is a whole number is not changed by rounding. -/
theorem roundDiv_mul (tie : Tie) (n : Nat) {d : Nat} (hd : 0 < d) : roundDiv tie (n * d) d = n := by
  simp [roundDiv, Nat.mul_div_cancel n hd, hd]

namespace Scale

theorem log2_steps (s : Scale) : Nat.log2 s.steps - 23 = s.exponent := by
  obtain ⟨hpos, hlt, _, hfull⟩ := s.canonical
  have hne : s.steps ≠ 0 := Nat.ne_of_gt s.steps_pos
  simp only [fullSignificand] at hlt hfull
  rcases hfull with he | hfull
  · -- a scale of less than full length, or just of it, is counted in single steps
    have hs : s.steps < 2 ^ 24 := by
      rw [steps, he]
      change s.significand * 1 < 2 ^ 24
      omega
    have := (Nat.log2_lt hne).mpr hs
    omega
  · have hlog : s.steps.log2 = s.exponent + 23 := by
      rw [Nat.log2_eq_iff hne, steps]
      change 2 ^ (s.exponent + 23) ≤ s.significand * 2 ^ s.exponent ∧
        s.significand * 2 ^ s.exponent < 2 ^ (s.exponent + 23 + 1)
      constructor
      · rw [Nat.pow_add, Nat.mul_comm]
        exact Nat.mul_le_mul_right _ hfull
      · rw [Nat.add_assoc, Nat.pow_add, Nat.mul_comm (2 ^ s.exponent)]
        exact Nat.mul_lt_mul_of_pos_right hlt (Nat.two_pow_pos _)
    omega

/-- A quotient that is a scale is rounded to that scale. -/
theorem ofRatio?_of_eq {s : Scale} {n d : Nat} (hd : 0 < d)
    (h : n * stepsInOne = s.steps * d) : ofRatio? n d = some s := by
  have he : exponentOf n d = s.exponent := by
    rw [exponentOf, h, Nat.mul_div_cancel _ hd, log2_steps]
  have hs : roundDiv .even (n * stepsInOne) (d * Nat.pow 2 s.exponent) = s.significand := by
    rw [h, steps, Nat.mul_assoc, Nat.mul_comm (Nat.pow 2 s.exponent) d]
    exact roundDiv_mul .even _ (Nat.mul_pos hd (Nat.two_pow_pos _))
  have hne : s.significand ≠ 2 * fullSignificand := Nat.ne_of_lt s.canonical.2.1
  simp only [ofRatio?, he, hs, hne, if_false]
  exact make?_eq_some_iff.mpr ⟨rfl, rfl⟩

/-- The number of units of `10 ^ -149` in a scale. -/
def units (s : Scale) : Nat := Nat.pow 5 149 * s.steps

/-- A power of five has more than two bits for each factor. -/
theorem two_mul_le_log2 {k n : Nat} (h : Nat.pow 5 k ≤ n) : 2 * k ≤ Nat.log2 n := by
  have hpow : Nat.pow 2 (2 * k) = Nat.pow 4 k := Nat.pow_mul 2 2 k
  have hle : Nat.pow 4 k ≤ Nat.pow 5 k := Nat.pow_le_pow_left (by decide) k
  have hne : n ≠ 0 := Nat.ne_of_gt (Nat.lt_of_lt_of_le (Nat.pow_pos (by decide)) h)
  exact (Nat.le_log2 hne).mpr (Nat.le_trans (Nat.le_of_eq hpow) (Nat.le_trans hle h))

/-- Every scale lies on the decimal grid of `10 ^ -149` and is read back from there. -/
theorem toScale?_units (s : Scale) : Decimal.toScale? ⟨s.units, -149⟩ = some s := by
  have hlog : ¬ Nat.log2 s.units + 151 ≤ 3 * (148 + 1) := by
    have := two_mul_le_log2 (show Nat.pow 5 149 ≤ s.units from
      Nat.le_mul_of_pos_right _ s.steps_pos)
    omega
  have hexact : s.units * stepsInOne = s.steps * Nat.pow 10 (148 + 1) := by
    rw [units, Nat.mul_comm (Nat.pow 5 149), Nat.mul_assoc]
    rfl
  change (if Nat.log2 s.units + 151 ≤ 3 * (148 + 1) then none
    else ofRatio? s.units (Nat.pow 10 (148 + 1))) = some s
  rw [if_neg hlog]
  exact ofRatio?_of_eq (Nat.pow_pos (by decide)) hexact

/-- The numeral that says exactly what a scale is. -/
def numeral (s : Scale) : List Char := Nat.toDigits 10 s.units ++ ['e', '-', '1', '4', '9']

theorem isDigit_of_mem_toDigits {n : Nat} : ∀ c ∈ Nat.toDigits 10 n, Decimal.isDigit c = true := by
  intro c hc
  have h := Nat.isDigit_of_mem_toDigits (by decide) (by decide) hc
  simpa [Char.isDigit, Decimal.isDigit, UInt32.le_iff_toNat_le] using h

/-- A numeral holds digits and the characters of its exponent only. -/
theorem of_mem_numeral {s : Scale} :
    ∀ c ∈ s.numeral, Decimal.isDigit c = true ∨ c ∈ ['e', '-'] := by
  intro c hc
  rcases List.mem_append.mp hc with hc | hc
  · exact .inl (isDigit_of_mem_toDigits c hc)
  · simp only [List.mem_cons, List.not_mem_nil, or_false] at hc
    rcases hc with rfl | rfl | rfl | rfl | rfl <;> decide

theorem isBlank_of_isDigit {c : Char} (h : Decimal.isDigit c = true) : Text.isBlank c = false := by
  simp [Decimal.isDigit] at h
  simp [Text.isBlank, Text.blankRanges]
  omega

theorem isBlank_of_mem_numeral {s : Scale} : ∀ c ∈ s.numeral, Text.isBlank c = false := by
  intro c hc
  rcases of_mem_numeral c hc with h | h
  · exact isBlank_of_isDigit h
  · simp only [List.mem_cons, List.not_mem_nil, or_false] at h
    rcases h with rfl | rfl <;> decide

/-- Digits are taken as far as they go. -/
theorem takeDigits_append {ds r : List Char} (hd : ∀ c ∈ ds, Decimal.isDigit c = true)
    (hr : ∀ c ∈ r.head?, Decimal.isDigit c = false) : Decimal.takeDigits (ds ++ r) = (ds, r) := by
  obtain ⟨htake, hdrop⟩ := Text.scan_append hd hr
  rw [Decimal.takeDigits, htake, hdrop]

theorem readUnsigned?_numeral (s : Scale) :
    Decimal.readUnsigned? s.numeral = some ⟨s.units, -149⟩ := by
  have hne : (Nat.toDigits 10 s.units).isEmpty = false := by simp
  have hvalue : Decimal.ofDigits (Nat.toDigits 10 s.units) = s.units :=
    Nat.ofDigitChars_ten_toDigits
  have hexp : Decimal.readExponent? ['e', '-', '1', '4', '9'] = some (-149) := by decide
  rw [Decimal.readUnsigned?, numeral, takeDigits_append isDigit_of_mem_toDigits (by simp; decide)]
  simp [hne, hvalue, hexp]

/-- A text that does not start with a sign is read as it stands. -/
theorem read?_of_head {t : List Char} (h : t.head? ≠ some '+') :
    Decimal.read? t = Decimal.readUnsigned? t := by
  unfold Decimal.read?
  split
  · simp at h
  · rfl

/-- Every scale has a text. -/
theorem read?_numeral (s : Scale) : read? s.numeral = some s := by
  have hhead : s.numeral.head? ≠ some '+' := by
    intro h
    have := of_mem_numeral '+' (List.mem_of_mem_head? h)
    simp [Decimal.isDigit] at this
  rw [read?, Text.trim_of_all_solid isBlank_of_mem_numeral, read?_of_head hhead,
    readUnsigned?_numeral, Option.bind_some, toScale?_units]

end Scale
end RenderPlan
