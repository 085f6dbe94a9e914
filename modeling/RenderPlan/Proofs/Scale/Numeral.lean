import Mathlib.Data.Nat.Digits.Defs
import RenderPlan.Proofs.Scale.Nearest
import RenderPlan.Proofs.Scale.Shortest
/-!
Numerals and the numbers that they denote. The grammar says where a sign, digits, a point and an
exponent may stand, and the exact number is that of the digits. Reading a text as a decimal accepts
exactly this grammar, with this number. A decimal is then rounded as one quotient; where the reading
stops short at the size of its exponent, there is no nearest scale.
-/
namespace RenderPlan
namespace Decimal

/-- The number that digits denote in base ten. -/
def digitsValue (ds : List Char) : ℕ :=
  Nat.ofDigits 10 (ds.reverse.map fun c => c.toNat - '0'.toNat)

/-- A text of digits with at most one point among or around them; the parts are the digits before
the point and those behind it. -/
inductive Mantissa : List Char → List Char → List Char → Prop
  | whole {ws : List Char} (hw : IsDigits ws) : Mantissa ws ws []
  | point {ws fs : List Char} (hw : IsDigits ws) (hf : ∀ c ∈ fs, isDigit c = true) :
      Mantissa (ws ++ '.' :: fs) ws fs
  | fraction {fs : List Char} (hf : IsDigits fs) : Mantissa ('.' :: fs) [] fs

/-- The exponent behind the digits, if there is one. -/
inductive Power : List Char → ℤ → Prop
  | none : Power [] 0
  | unsigned {mark : Char} {ds : List Char} (hm : mark = 'e' ∨ mark = 'E') (hd : IsDigits ds) :
      Power (mark :: ds) (digitsValue ds)
  | plus {mark : Char} {ds : List Char} (hm : mark = 'e' ∨ mark = 'E') (hd : IsDigits ds) :
      Power (mark :: '+' :: ds) (digitsValue ds)
  | minus {mark : Char} {ds : List Char} (hm : mark = 'e' ∨ mark = 'E') (hd : IsDigits ds) :
      Power (mark :: '-' :: ds) (-digitsValue ds)

/-- A numeral without a negative sign denotes a number. -/
inductive Denotes : List Char → ℚ → Prop
  | intro {sign mantissa ws fs power : List Char} {e : ℤ} (hs : sign = [] ∨ sign = ['+'])
      (hm : Mantissa mantissa ws fs) (hp : Power power e) :
      Denotes (sign ++ (mantissa ++ power))
        ((digitsValue ws + digitsValue fs / 10 ^ fs.length) * 10 ^ e)

theorem ofDigits_eq_digitsValue (ds : List Char) : ofDigits ds = digitsValue ds := by
  induction ds using List.reverseRecOn with
  | nil => rfl
  | append_singleton ds c ih =>
    have hlast : ofDigits (ds ++ [c]) = 10 * ofDigits ds + (c.toNat - '0'.toNat) := by
      simp [ofDigits]
    rw [hlast, ih, digitsValue, digitsValue, List.reverse_append, List.reverse_singleton,
      List.singleton_append, List.map_cons, Nat.ofDigits_cons, Nat.add_comm]

theorem digitsValue_append (ws fs : List Char) :
    digitsValue (ws ++ fs) = digitsValue ws * 10 ^ fs.length + digitsValue fs := by
  simp only [digitsValue, List.reverse_append, List.map_append, Nat.ofDigits_append,
    List.length_map, List.length_reverse]
  ring

theorem takeDigits_of_digits {ds : List Char} (h : ∀ c ∈ ds, isDigit c = true) :
    takeDigits ds = (ds, []) := by
  simpa using Scale.takeDigits_append h (r := []) (by simp)

/-- Digits are taken up to the first character that is none. -/
theorem of_takeDigits {s ds r : List Char} (h : takeDigits s = (ds, r)) :
    s = ds ++ r ∧ (∀ c ∈ ds, isDigit c = true) ∧ ∀ c ∈ r.head?, isDigit c = false := by
  cases h
  refine ⟨List.takeWhile_append_dropWhile.symm, List.all_eq_true.mp List.all_takeWhile, ?_⟩
  intro c hc
  have := List.head?_dropWhile_not isDigit s
  rw [Option.mem_def.mp hc] at this
  simpa using this

/-- Where digits to the end of a text are asked for, the text is digits. -/
theorem of_digitsOnly {r : List Char} {x e : ℤ}
    (h : (if (takeDigits r).1.isEmpty || !(takeDigits r).2.isEmpty then none else some x) =
      some e) : IsDigits r ∧ ofDigits (takeDigits r).1 = digitsValue r ∧ x = e := by
  generalize htake : takeDigits r = taken at h ⊢
  obtain ⟨ds, rest⟩ := taken
  obtain ⟨rfl, hdigits, -⟩ := of_takeDigits htake
  split at h
  · cases h
  · next hc =>
    simp only [Bool.or_eq_true, not_or, List.isEmpty_iff, Bool.not_eq_true',
      Bool.not_eq_false] at hc
    rw [hc.2, List.append_nil]
    exact ⟨⟨hc.1, hdigits⟩, ofDigits_eq_digitsValue ds, Option.some.inj h⟩

theorem power_of_readExponent? {p : List Char} {e : ℤ} (h : readExponent? p = some e) :
    Power p e := by
  cases p with
  | nil =>
    cases h
    exact .none
  | cons mark r =>
    simp only [readExponent?] at h
    split at h
    · next hmark =>
      split at h <;> obtain ⟨hd, hvalue, rfl⟩ := of_digitsOnly h <;> simp only [hvalue]
      · exact .minus hmark hd
      · exact .plus hmark hd
      · exact .unsigned hmark hd
    · cases h

theorem ne_of_isDigit {c x : Char} (hc : isDigit c = true) (hx : isDigit x = false) : c ≠ x := by
  rintro rfl
  exact absurd (hc.symm.trans hx) (by decide)

theorem readExponent?_of_power {p : List Char} {e : ℤ} (h : Power p e) :
    readExponent? p = some e := by
  cases h with
  | none => rfl
  | minus hm hd =>
    simp [readExponent?, hm, takeDigits_of_digits hd.2, hd.1, ofDigits_eq_digitsValue]
  | plus hm hd =>
    simp [readExponent?, hm, takeDigits_of_digits hd.2, hd.1, ofDigits_eq_digitsValue]
  | @unsigned mark ds hm hd =>
    obtain ⟨hne, hdigits⟩ := hd
    have htake := takeDigits_of_digits hdigits
    cases ds with
    | nil => exact absurd rfl hne
    | cons d ds =>
      have hminus : d ≠ '-' := ne_of_isDigit (hdigits d (by simp)) (by decide)
      have hplus : d ≠ '+' := ne_of_isDigit (hdigits d (by simp)) (by decide)
      simp [readExponent?, hm, hminus, hplus, htake, ofDigits_eq_digitsValue]

/-- An exponent begins with its mark. -/
theorem Power.head {p : List Char} {e : ℤ} (h : Power p e) :
    ∀ c ∈ p.head?, isDigit c = false ∧ c ≠ '.' := by
  have hmark (c : Char) (hc : c = 'e' ∨ c = 'E') : isDigit c = false ∧ c ≠ '.' := by
    rcases hc with rfl | rfl <;> decide
  cases h <;> simp
  all_goals exact hmark _ ‹_›

/-- The digits that a mantissa and an exponent make up count the units of a decimal. -/
theorem readUnsigned?_of_mantissa {m ws fs p : List Char} {e : ℤ} (hm : Mantissa m ws fs)
    (hp : Power p e) :
    readUnsigned? (m ++ p) = some ⟨ofDigits (ws ++ fs), e - fs.length⟩ := by
  have hexp := readExponent?_of_power hp
  cases hm with
  | whole hw =>
    rw [readUnsigned?_whole hw hp.head, hexp]
    simp
  | point hw hf =>
    rw [List.append_assoc, List.cons_append,
      readUnsigned?_point hw hf fun c hc => (hp.head c hc).1, hexp]
    rfl
  | fraction hf =>
    have htake := Scale.takeDigits_append hf.2 fun c hc => (hp.head c hc).1
    have hpoint : takeDigits ('.' :: (fs ++ p)) = ([], '.' :: (fs ++ p)) := rfl
    simp [readUnsigned?, hpoint, htake, hf.1, hexp]

theorem exists_of_readUnsigned? {s : List Char} {d : Decimal} (h : readUnsigned? s = some d) :
    ∃ m ws fs p e, s = m ++ p ∧ Mantissa m ws fs ∧ Power p e ∧
      d = ⟨ofDigits (ws ++ fs), e - fs.length⟩ := by
  unfold readUnsigned? at h
  generalize hwhole : takeDigits s = taken at h
  obtain ⟨ws, r⟩ := taken
  obtain ⟨rfl, hw, -⟩ := of_takeDigits hwhole
  simp only at h
  split at h
  next r' =>
    generalize hfraction : takeDigits r' = taken at h
    obtain ⟨fs, p⟩ := taken
    obtain ⟨rfl, hf, -⟩ := of_takeDigits hfraction
    split at h
    · cases h
    · next hsome =>
      obtain ⟨e, he, rfl⟩ := Option.map_eq_some_iff.mp h
      have hp := power_of_readExponent? he
      by_cases hws : ws = []
      · subst hws
        have hfs : fs ≠ [] := by simpa using hsome
        exact ⟨'.' :: fs, [], fs, p, e, rfl, .fraction ⟨hfs, hf⟩, hp, rfl⟩
      · exact ⟨ws ++ '.' :: fs, ws, fs, p, e, by simp, .point ⟨hws, hw⟩ hf, hp, rfl⟩
  next =>
    split at h
    · cases h
    · next hsome =>
      obtain ⟨e, he, rfl⟩ := Option.map_eq_some_iff.mp h
      have hws : ws ≠ [] := by simpa using hsome
      exact ⟨ws, ws, [], r, e, rfl, .whole ⟨hws, hw⟩, power_of_readExponent? he, rfl⟩

/-- The number of a decimal. -/
def value (d : Decimal) : ℚ := d.coefficient * 10 ^ d.exponent

/-- Digits before and behind a point count units of the last place. -/
theorem value_of_digits (ws fs : List Char) (e : ℤ) :
    value ⟨ofDigits (ws ++ fs), e - fs.length⟩ =
      (digitsValue ws + digitsValue fs / 10 ^ fs.length) * 10 ^ e := by
  have h10 : (10 : ℚ) ^ fs.length ≠ 0 := by positivity
  rw [value, ofDigits_eq_digitsValue, digitsValue_append, zpow_sub₀ (by norm_num), zpow_natCast]
  push_cast
  field_simp

/-- A mantissa has a digit, and begins with one or with the point. -/
theorem Mantissa.digits {m ws fs : List Char} (h : Mantissa m ws fs) :
    (∃ c ∈ m, isDigit c = true) ∧ ∀ r, ∀ c ∈ (m ++ r).head?, isDigit c = true ∨ c = '.' := by
  have hdigits {ds : List Char} (hd : IsDigits ds) :
      ∃ d ∈ ds, isDigit d = true ∧ ∀ r, (ds ++ r).head? = some d := by
    obtain ⟨hne, hall⟩ := hd
    cases ds with
    | nil => exact absurd rfl hne
    | cons d ds => exact ⟨d, by simp, hall d (by simp), fun _ => rfl⟩
  cases h with
  | whole hw =>
    obtain ⟨d, hmem, hd, hhead⟩ := hdigits hw
    refine ⟨⟨d, hmem, hd⟩, fun r c hc => .inl ?_⟩
    rw [hhead] at hc
    exact Option.some.inj hc ▸ hd
  | point hw _ =>
    obtain ⟨d, hmem, hd, hhead⟩ := hdigits hw
    refine ⟨⟨d, by simp [hmem], hd⟩, fun r c hc => .inl ?_⟩
    rw [List.append_assoc, hhead] at hc
    exact Option.some.inj hc ▸ hd
  | fraction hf =>
    obtain ⟨d, hmem, hd, -⟩ := hdigits hf
    exact ⟨⟨d, by simp [hmem], hd⟩, fun r c hc => .inr (Option.some.inj hc).symm⟩

/-- Reading a decimal accepts the grammar, and gives the number that the numeral denotes. -/
theorem denotes_iff_read? {t : List Char} {q : ℚ} :
    Denotes t q ↔ ∃ d, read? t = some d ∧ d.value = q := by
  constructor
  · rintro ⟨hs, hm, hp⟩
    have hread := readUnsigned?_of_mantissa hm hp
    refine ⟨_, ?_, value_of_digits _ _ _⟩
    rcases hs with rfl | rfl
    · rw [List.nil_append, Scale.read?_of_head]
      · exact hread
      · exact fun h => absurd (hm.digits.2 _ '+' h) (by decide)
    · exact hread
  · rintro ⟨d, hd, rfl⟩
    unfold read? at hd
    split at hd <;> obtain ⟨m, ws, fs, p, e, rfl, hm, hp, rfl⟩ := exists_of_readUnsigned? hd <;>
      rw [value_of_digits]
    · exact .intro (.inr rfl) hm hp
    · exact .intro (.inl rfl) hm hp

/-- A numeral denotes one number. -/
theorem Denotes.unique {t : List Char} {q q' : ℚ} (h : Denotes t q) (h' : Denotes t q') :
    q = q' := by
  obtain ⟨d, hd, rfl⟩ := denotes_iff_read?.mp h
  obtain ⟨d', hd', rfl⟩ := denotes_iff_read?.mp h'
  rw [Option.some.inj (hd.symm.trans hd')]

/-- Neither a negative number nor a word is a numeral. -/
theorem Denotes.digits {t : List Char} {q : ℚ} (h : Denotes t q) :
    (∃ c ∈ t, isDigit c = true) ∧ t.head? ≠ some '-' := by
  obtain ⟨hs, hm, hp⟩ := h
  obtain ⟨⟨d, hmem, hd⟩, hhead⟩ := hm.digits
  refine ⟨⟨d, by simp [hmem], hd⟩, ?_⟩
  rcases hs with rfl | rfl
  · exact fun h => absurd (hhead _ '-' h) (by decide)
  · simp

/-- A power of ten from `10 ^ 39` on is too large for a scale. -/
theorem ofRatio?_of_large (c : ℕ) {k : ℕ} (hk : 39 ≤ k) :
    Scale.ofRatio? (c * Nat.pow 10 k) 1 = none := by
  rw [← Option.not_isSome_iff_eq_none, Scale.isSome_ofRatio?_iff Nat.one_pos]
  rintro ⟨hlow, hhigh⟩
  have hpow : (10 : ℚ) ^ 39 ≤ 10 ^ k := pow_le_pow_right₀ (by norm_num) hk
  rw [Nat.cast_one, div_one, Nat.cast_mul, Nat.pow_eq, Nat.cast_pow, Nat.cast_ofNat] at hlow hhigh
  cases c with
  | zero => norm_num at hlow
  | succ c =>
    have hle : (10 : ℚ) ^ k ≤ (c + 1 : ℕ) * 10 ^ k :=
      le_mul_of_one_le_left (by positivity) (by exact_mod_cast Nat.succ_pos c)
    have hlarge : (2 : ℚ) ^ 128 - 2 ^ 103 ≤ 10 ^ 39 := by norm_num
    exact absurd (hhigh.trans_le hlarge) (not_lt.mpr (hpow.trans hle))

/-- A power of ten has more than three bits for each factor. -/
theorem ofRatio?_of_small {c k : ℕ} (h : Nat.log2 c + 151 ≤ 3 * k) :
    Scale.ofRatio? c (Nat.pow 10 k) = none := by
  have hpos : 0 < Nat.pow 10 k := Nat.pow_pos (by decide)
  rw [← Option.not_isSome_iff_eq_none, Scale.isSome_ofRatio?_iff hpos]
  rintro ⟨hlow, -⟩
  have hsteps : c * 2 ^ 150 ≤ Nat.pow 10 k :=
    calc c * 2 ^ 150 ≤ 2 ^ (Nat.log2 c + 1) * 2 ^ 150 :=
          Nat.mul_le_mul_right _ Nat.lt_log2_self.le
      _ = 2 ^ (Nat.log2 c + 151) := by rw [← Nat.pow_add]
      _ ≤ 2 ^ (3 * k) := Nat.pow_le_pow_right (by decide) h
      _ = 8 ^ k := by rw [Nat.pow_mul]
      _ ≤ Nat.pow 10 k := Nat.pow_le_pow_left (by decide) k
  have hcast : (c : ℚ) * 2 ^ 150 ≤ (Nat.pow 10 k : ℕ) := by exact_mod_cast hsteps
  rw [div_lt_div_iff₀ (by positivity) (by exact_mod_cast hpos)] at hlow
  linarith

/-- A decimal is rounded as a quotient, also where its exponent alone decides. -/
theorem exists_ratio (d : Decimal) :
    ∃ n m : ℕ, 0 < m ∧ d.value = n / m ∧ d.toScale? = Scale.ofRatio? n m := by
  obtain ⟨c, e⟩ := d
  cases e with
  | ofNat k =>
    refine ⟨c * Nat.pow 10 k, 1, Nat.one_pos, ?_, ?_⟩
    · rw [value, Int.ofNat_eq_natCast, zpow_natCast, Nat.pow_eq]
      push_cast
      rw [div_one]
    · simp only [toScale?]
      split
      · next hk => rw [ofRatio?_of_large c hk]
      · rfl
  | negSucc k =>
    refine ⟨c, Nat.pow 10 (k + 1), Nat.pow_pos (by decide), ?_, ?_⟩
    · rw [value, zpow_negSucc, Nat.pow_eq]
      push_cast
      rw [← div_eq_mul_inv]
    · simp only [toScale?]
      split
      · next hk => rw [ofRatio?_of_small hk]
      · rfl

theorem isSome_toScale?_iff {d : Decimal} :
    d.toScale?.isSome ↔ 1 / 2 ^ 150 < d.value ∧ d.value < 2 ^ 128 - 2 ^ 103 := by
  obtain ⟨n, m, hm, hvalue, hscale⟩ := d.exists_ratio
  rw [hvalue, hscale, Scale.isSome_ofRatio?_iff hm]

/-- A decimal is rounded to the nearest scale. -/
theorem isNearest_of_toScale? {d : Decimal} {s : Scale} (h : d.toScale? = some s) :
    s.IsNearest d.value := by
  obtain ⟨n, m, hm, hvalue, hscale⟩ := d.exists_ratio
  rw [hvalue]
  exact Scale.isNearest_of_ofRatio? hm (hscale ▸ h)

end Decimal

namespace Scale

theorem isSome_read?_iff {text : List Char} : (read? text).isSome ↔
    ∃ q, Decimal.Denotes (Text.trim text) q ∧ 1 / 2 ^ 150 < q ∧ q < 2 ^ 128 - 2 ^ 103 := by
  rw [read?]
  constructor
  · intro h
    obtain ⟨s, hs⟩ := Option.isSome_iff_exists.mp h
    obtain ⟨d, hd, hscale⟩ := Option.bind_eq_some_iff.mp hs
    exact ⟨d.value, Decimal.denotes_iff_read?.mpr ⟨d, hd, rfl⟩,
      Decimal.isSome_toScale?_iff.mp (Option.isSome_of_eq_some hscale)⟩
  · rintro ⟨q, hq, hrange⟩
    obtain ⟨d, hd, rfl⟩ := Decimal.denotes_iff_read?.mp hq
    rw [hd, Option.bind_some]
    exact Decimal.isSome_toScale?_iff.mpr hrange

/-- A text is read as the nearest scale to the number that it denotes. -/
theorem isNearest_of_read? {text : List Char} {s : Scale} {q : ℚ} (h : read? text = some s)
    (hq : Decimal.Denotes (Text.trim text) q) : s.IsNearest q := by
  obtain ⟨d, hd, rfl⟩ := Decimal.denotes_iff_read?.mp hq
  rw [read?, hd, Option.bind_some] at h
  exact Decimal.isNearest_of_toScale? h

end Scale
end RenderPlan
