import RenderPlan.Proofs.Scale.Exact
import RenderPlan.Scale.Style
/-!
Texts of scales. In every style, the text of a scale is read back as the scale: the shortest decimal
denotes the scale, and the text spells this decimal, except that a plain text of a whole number
counts tenths. So scales with the same text are the same.
-/
namespace RenderPlan

/-- Numerator and denominator may have a factor in common. -/
theorem roundDiv_mul_right (tie : Tie) (n d : Nat) {k : Nat} (hk : 0 < k) :
    roundDiv tie (n * k) (d * k) = roundDiv tie n d := by
  have hlt (a b : Nat) : a * k < b * k ↔ a < b := Nat.mul_lt_mul_right hk
  simp only [roundDiv, Nat.mul_div_mul_right n d hk, Nat.mul_mod_mul_right, ← Nat.mul_assoc, hlt]

namespace Scale

theorem ofRatio?_mul_right (n d : Nat) {k : Nat} (hk : 0 < k) :
    ofRatio? (n * k) (d * k) = ofRatio? n d := by
  have he : exponentOf (n * k) (d * k) = exponentOf n d := by
    rw [exponentOf, exponentOf, Nat.mul_right_comm, Nat.mul_div_mul_right _ _ hk]
  simp only [ofRatio?, he, Nat.mul_right_comm _ k, roundDiv_mul_right _ _ _ hk]

/-- The shortest decimal of a scale denotes the scale. -/
theorem toScale?_shortest (tie : Tie) (s : Scale) : (s.shortest tie).toScale? = some s := by
  rw [shortest]
  cases h : grids.findSome? (onGrid? tie s) with
  | none =>
    rw [Option.getD_none, Nat.mul_comm]
    exact toScale?_units s
  | some p =>
    obtain ⟨k, -, hk⟩ := List.exists_of_findSome?_eq_some h
    exact toScale?_of_onGrid? hk

/-- A whole number may be counted in tenths. -/
theorem toScale?_tenths {c k : Nat} {s : Scale} (h : Decimal.toScale? ⟨c, k⟩ = some s) :
    Decimal.toScale? ⟨c * Nat.pow 10 k * 10, -1⟩ = some s := by
  have hratio : ofRatio? (c * Nat.pow 10 k) 1 = some s := by
    change (if 39 ≤ k then none else ofRatio? (c * Nat.pow 10 k) 1) = some s at h
    split at h
    · cases h
    · exact h
  change (if Nat.log2 (c * Nat.pow 10 k * 10) + 151 ≤ 3 * (0 + 1) then none
    else ofRatio? (c * Nat.pow 10 k * 10) (1 * 10)) = some s
  rw [if_neg (by omega), ofRatio?_mul_right _ _ (by decide), hratio]

end Scale

namespace Decimal

/-- A text of digits only, and not without any. -/
def IsDigits (ds : List Char) : Prop := ds ≠ [] ∧ ∀ c ∈ ds, isDigit c = true

theorem isDigits_toDigits (n : Nat) : IsDigits (Nat.toDigits 10 n) :=
  ⟨Nat.toDigits_ne_nil, Scale.isDigit_of_mem_toDigits⟩

theorem isDigits_zero : IsDigits ['0'] :=
  ⟨List.cons_ne_nil _ _, List.all_eq_true.mp (by decide)⟩

theorem ofDigits_toDigits (n : Nat) : ofDigits (Nat.toDigits 10 n) = n :=
  Nat.ofDigitChars_ten_toDigits

theorem ofDigits_append_zeros (ds : List Char) (k : Nat) :
    ofDigits (ds ++ List.replicate k '0') = ofDigits ds * Nat.pow 10 k := by
  change Nat.ofDigitChars 10 _ 0 = Nat.ofDigitChars 10 ds 0 * Nat.pow 10 k
  rw [Nat.ofDigitChars_append, Nat.ofDigitChars_replicate_zero]
  exact Nat.mul_comm (Nat.pow 10 k) _

theorem ofDigits_zeros_append (k : Nat) (ds : List Char) :
    ofDigits (List.replicate k '0' ++ ds) = ofDigits ds := by
  change Nat.ofDigitChars 10 _ 0 = Nat.ofDigitChars 10 ds 0
  rw [Nat.ofDigitChars_append, Nat.ofDigitChars_replicate_zero, Nat.mul_zero]

theorem readUnsigned?_point {whole fraction tail : List Char} (hw : IsDigits whole)
    (hf : ∀ c ∈ fraction, isDigit c = true) (ht : ∀ c ∈ tail.head?, isDigit c = false) :
    readUnsigned? (whole ++ '.' :: (fraction ++ tail)) =
      (readExponent? tail).map fun e => ⟨ofDigits (whole ++ fraction), e - fraction.length⟩ := by
  have hempty : whole.isEmpty = false := by simpa using hw.1
  have hpoint : ∀ c ∈ ('.' :: (fraction ++ tail)).head?, isDigit c = false := by
    simp
    decide
  rw [readUnsigned?, Scale.takeDigits_append hw.2 hpoint]
  simp [Scale.takeDigits_append hf ht, hempty]

theorem readUnsigned?_whole {whole tail : List Char} (hw : IsDigits whole)
    (ht : ∀ c ∈ tail.head?, isDigit c = false ∧ c ≠ '.') :
    readUnsigned? (whole ++ tail) =
      (readExponent? tail).map fun e => ⟨ofDigits whole, e⟩ := by
  have hempty : whole.isEmpty = false := by simpa using hw.1
  rw [readUnsigned?, Scale.takeDigits_append hw.2 fun c hc => (ht c hc).1]
  cases tail with
  | nil => simp [hempty]
  | cons c r =>
    have hc : c ≠ '.' := (ht c rfl).2
    simp [hempty, hc]

/-- The sign of an exponent as a text writes it. -/
def signText (plus : Bool) (magnitude : Int) : List Char :=
  if magnitude ≤ 0 then ['-'] else if plus then ['+'] else []

/-- The exponent of a numeral with one digit before the point. -/
def exponentTail (plus : Bool) (magnitude : Int) : List Char :=
  'e' :: signText plus magnitude ++ Nat.toDigits 10 (magnitude - 1).natAbs

theorem readExponent?_exponentTail (plus : Bool) (magnitude : Int) :
    readExponent? (exponentTail plus magnitude) = some (magnitude - 1) := by
  rw [exponentTail]
  generalize hn : (magnitude - 1).natAbs = n
  obtain ⟨hne, hdigits⟩ := isDigits_toDigits n
  have htake : takeDigits (Nat.toDigits 10 n) = (Nat.toDigits 10 n, []) := by
    simpa using Scale.takeDigits_append hdigits (r := []) (by simp)
  have hvalue := ofDigits_toDigits n
  by_cases hm : magnitude ≤ 0
  · simp [signText, hm, readExponent?, htake, hvalue]
    omega
  · cases plus with
    | true =>
      simp [signText, hm, readExponent?, htake, hvalue]
      omega
    | false =>
      -- No sign stands before the digits, and the first digit is none either.
      generalize hds : Nat.toDigits 10 n = ds at *
      cases ds with
      | nil => exact absurd rfl hne
      | cons d ds =>
        have hd : isDigit d = true := hdigits d (by simp)
        have hminus : d ≠ '-' := by
          rintro rfl
          cases hd
        have hplus : d ≠ '+' := by
          rintro rfl
          cases hd
        simp [signText, hm, readExponent?, hminus, hplus, htake, hvalue]
        omega

end Decimal

namespace Scale

open Decimal

variable {ds : List Char}

theorem isDigits_take (hds : IsDigits ds) {n : Nat} (hn : n ≠ 0) : IsDigits (ds.take n) := by
  refine ⟨?_, fun c hc => hds.2 c (List.mem_of_mem_take hc)⟩
  rw [Ne, List.take_eq_nil_iff, not_or]
  exact ⟨hn, hds.1⟩

theorem exponentText_singleton (plus : Bool) (d : Char) (magnitude : Int) :
    exponentText plus [d] magnitude = [d] ++ exponentTail plus magnitude := rfl

theorem exponentText_cons (plus : Bool) (d c : Char) (r : List Char) (magnitude : Int) :
    exponentText plus (d :: c :: r) magnitude =
      [d] ++ '.' :: ((c :: r) ++ exponentTail plus magnitude) := by
  simp [exponentText, exponentTail, signText]

/-- The magnitude is not positive: zeros stand between the point and the digits. -/
theorem readUnsigned?_fraction (hds : IsDigits ds) {e : Int} (hm : ds.length + e ≤ 0) :
    readUnsigned? (plainText ds (ds.length + e)) = some ⟨ofDigits ds, e⟩ := by
  generalize hk : (-(ds.length + e)).toNat = k
  have htext : plainText ds (ds.length + e) =
      ['0'] ++ '.' :: ((List.replicate k '0' ++ ds) ++ []) := by
    rw [plainText, if_pos hm, hk, List.append_nil]
    rfl
  have hfraction : ∀ c ∈ List.replicate k '0' ++ ds, isDigit c = true := by
    intro c hc
    rcases List.mem_append.mp hc with hc | hc
    · rw [List.eq_of_mem_replicate hc]
      decide
    · exact hds.2 c hc
  have hvalue : ofDigits (['0'] ++ (List.replicate k '0' ++ ds)) = ofDigits ds :=
    ofDigits_zeros_append (k + 1) ds
  rw [htext, readUnsigned?_point isDigits_zero hfraction (by simp), hvalue]
  simp [readExponent?]
  omega

/-- The point stands behind all digits: the decimal is a whole number, and the text its tenths. -/
theorem readUnsigned?_tenths (hds : IsDigits ds) (k : Nat) :
    readUnsigned? (plainText ds (ds.length + k)) = some ⟨ofDigits ds * Nat.pow 10 k * 10, -1⟩ := by
  have hlen : 0 < ds.length := List.length_pos_iff.mpr hds.1
  have hn : ((ds.length : Int) + k).toNat = ds.length + k := by omega
  have htext : plainText ds (ds.length + k) =
      (ds ++ List.replicate k '0') ++ '.' :: (['0'] ++ []) := by
    rw [plainText, if_neg (by omega), hn, if_pos (by omega), Nat.add_sub_cancel_left]
    rfl
  have hwhole : IsDigits (ds ++ List.replicate k '0') := by
    refine ⟨by simp [hds.1], fun c hc => ?_⟩
    rcases List.mem_append.mp hc with hc | hc
    · exact hds.2 c hc
    · rw [List.eq_of_mem_replicate hc]
      decide
  have hvalue : ofDigits (ds ++ List.replicate k '0' ++ ['0']) =
      ofDigits ds * Nat.pow 10 k * 10 := by
    have hzeros := ofDigits_append_zeros ds (k + 1)
    rw [List.replicate_succ', ← List.append_assoc] at hzeros
    exact hzeros.trans (Nat.mul_assoc _ _ _).symm
  rw [htext, readUnsigned?_point hwhole isDigits_zero.2 (by simp), hvalue]
  rfl

/-- The point stands among the digits. -/
theorem readUnsigned?_split (hds : IsDigits ds) {e : Int} (hm : 0 < ds.length + e) (he : e < 0) :
    readUnsigned? (plainText ds (ds.length + e)) = some ⟨ofDigits ds, e⟩ := by
  generalize hn : ((ds.length : Int) + e).toNat = n
  have htext : plainText ds (ds.length + e) = ds.take n ++ '.' :: (ds.drop n ++ []) := by
    rw [plainText, if_neg (by omega), hn, if_neg (by omega), List.append_nil]
  have hwhole : IsDigits (ds.take n) := isDigits_take hds (by omega)
  rw [htext, readUnsigned?_point hwhole (fun c hc => hds.2 c (List.mem_of_mem_drop hc)) (by simp),
    List.take_append_drop]
  simp [readExponent?]
  omega

/-- One digit stands before the point. -/
theorem readUnsigned?_exponentText (hds : IsDigits ds) (plus : Bool) (e : Int) :
    readUnsigned? (exponentText plus ds (ds.length + e)) = some ⟨ofDigits ds, e⟩ := by
  have hexp := readExponent?_exponentTail plus (ds.length + e)
  have hmark : ∀ c ∈ (exponentTail plus (ds.length + e)).head?, isDigit c = false ∧ c ≠ '.' := by
    simp [exponentTail]
    decide
  match ds, hds with
  | [], hds => exact absurd rfl hds.1
  | [d], hds =>
    have hexponent : ([d].length : Int) + e - 1 = e := by
      rw [List.length_singleton]
      omega
    rw [exponentText_singleton, readUnsigned?_whole hds hmark, hexp, Option.map_some, hexponent]
  | d :: c :: r, hds =>
    have hd : IsDigits [d] := isDigits_take hds (n := 1) (by decide)
    have hexponent : ((d :: c :: r).length : Int) + e - 1 - (c :: r).length = e := by
      simp only [List.length_cons]
      omega
    rw [exponentText_cons, readUnsigned?_point hd
      (fun x hx => hds.2 x (List.mem_cons_of_mem d hx)) (fun x hx => (hmark x hx).1), hexp,
      Option.map_some, hexponent]
    rfl

/-- A plain text denotes what the decimal does that it spells. -/
theorem exists_of_plainText (hds : IsDigits ds) {e : Int} {s : Scale}
    (h : toScale? ⟨ofDigits ds, e⟩ = some s) :
    ∃ p, readUnsigned? (plainText ds (ds.length + e)) = some p ∧ p.toScale? = some s := by
  by_cases hm : ds.length + e ≤ 0
  · exact ⟨_, readUnsigned?_fraction hds hm, h⟩
  · by_cases he : e < 0
    · exact ⟨_, readUnsigned?_split hds (by omega) he, h⟩
    · obtain ⟨k, rfl⟩ := Int.eq_ofNat_of_zero_le (by omega : 0 ≤ e)
      exact ⟨_, readUnsigned?_tenths hds k, toScale?_tenths h⟩

/-- The characters of numerals. -/
def inNumeral (c : Char) : Bool := isDigit c || ['.', 'e', '+', '-'].contains c

theorem inNumeral_of_isDigit {c : Char} (h : isDigit c = true) : inNumeral c = true := by
  simp [inNumeral, h]

theorem isBlank_of_inNumeral {c : Char} (h : inNumeral c = true) : Text.isBlank c = false := by
  simp only [inNumeral, Bool.or_eq_true] at h
  rcases h with h | h
  · exact isBlank_of_isDigit h
  · simp only [List.contains_eq_mem, List.mem_cons, List.not_mem_nil, or_false,
      decide_eq_true_eq] at h
    rcases h with rfl | rfl | rfl | rfl <;> decide

/-- A text that begins with a digit and goes on as numerals do. -/
def IsNumeral (t : List Char) : Prop :=
  (∃ c ∈ t.head?, isDigit c = true) ∧ ∀ c ∈ t, inNumeral c = true

theorem isNumeral_of_isDigits (h : IsDigits ds) : IsNumeral ds := by
  refine ⟨?_, fun c hc => inNumeral_of_isDigit (h.2 c hc)⟩
  cases ds with
  | nil => exact absurd rfl h.1
  | cons d ds => exact ⟨d, rfl, h.2 d (by simp)⟩

theorem IsNumeral.append {t r : List Char} (h : IsNumeral t) (hr : ∀ c ∈ r, inNumeral c = true) :
    IsNumeral (t ++ r) := by
  obtain ⟨⟨c, hc, hdigit⟩, hall⟩ := h
  refine ⟨⟨c, ?_, hdigit⟩, List.forall_mem_append.mpr ⟨hall, hr⟩⟩
  rw [List.head?_append, Option.mem_def.mp hc]
  rfl

theorem inNumeral_of_mem_zeros {k : Nat} : ∀ c ∈ List.replicate k '0', inNumeral c = true := by
  intro c hc
  rw [List.eq_of_mem_replicate hc]
  decide

theorem isNumeral_plainText (hds : IsDigits ds) (magnitude : Int) :
    IsNumeral (plainText ds magnitude) := by
  have hin : ∀ c ∈ ds, inNumeral c = true := fun c hc => inNumeral_of_isDigit (hds.2 c hc)
  have hpoint : inNumeral '.' = true := by decide
  simp only [plainText]
  split
  · exact (isNumeral_of_isDigits isDigits_zero).append (List.forall_mem_cons.mpr
      ⟨hpoint, List.forall_mem_append.mpr ⟨inNumeral_of_mem_zeros, hin⟩⟩)
  · split
    · rw [List.append_assoc]
      exact (isNumeral_of_isDigits hds).append
        (List.forall_mem_append.mpr ⟨inNumeral_of_mem_zeros, List.all_eq_true.mp (by decide)⟩)
    · have htake : IsDigits (ds.take magnitude.toNat) := isDigits_take hds (by omega)
      exact (isNumeral_of_isDigits htake).append (List.forall_mem_cons.mpr
        ⟨hpoint, fun c hc => hin c (List.mem_of_mem_drop hc)⟩)

theorem inNumeral_of_mem_exponentTail {plus : Bool} {magnitude : Int} :
    ∀ c ∈ exponentTail plus magnitude, inNumeral c = true := by
  have hsign : ∀ c ∈ signText plus magnitude, inNumeral c = true := by
    unfold signText
    split
    · exact List.all_eq_true.mp (by decide)
    · split <;> exact List.all_eq_true.mp (by decide)
  exact List.forall_mem_cons.mpr ⟨by decide, List.forall_mem_append.mpr
    ⟨hsign, fun c hc => inNumeral_of_isDigit (isDigit_of_mem_toDigits c hc)⟩⟩

theorem isNumeral_exponentText (hds : IsDigits ds) (plus : Bool) (magnitude : Int) :
    IsNumeral (exponentText plus ds magnitude) := by
  match ds, hds with
  | [], hds => exact absurd rfl hds.1
  | [d], hds =>
    rw [exponentText_singleton]
    exact (isNumeral_of_isDigits hds).append inNumeral_of_mem_exponentTail
  | d :: c :: r, hds =>
    have hd : IsDigits [d] := isDigits_take hds (n := 1) (by decide)
    have hr : ∀ x ∈ c :: r, inNumeral x = true :=
      fun x hx => inNumeral_of_isDigit (hds.2 x (List.mem_cons_of_mem d hx))
    rw [exponentText_cons]
    exact (isNumeral_of_isDigits hd).append (List.forall_mem_cons.mpr
      ⟨by decide, List.forall_mem_append.mpr ⟨hr, inNumeral_of_mem_exponentTail⟩⟩)

theorem isNumeral_write (style : Style) (s : Scale) : IsNumeral (style.write s).toList := by
  have hds := isDigits_toDigits (s.shortest style.tie).coefficient
  simp only [Style.write, String.toList_ofList]
  split
  · exact isNumeral_plainText hds _
  · exact isNumeral_exponentText hds _ _

theorem read?_of_isNumeral {t : List Char} (h : IsNumeral t) :
    Scale.read? t = (readUnsigned? t).bind toScale? := by
  obtain ⟨⟨c, hc, hdigit⟩, hall⟩ := h
  have hhead : t.head? ≠ some '+' := by
    rw [Option.mem_def.mp hc]
    rintro ⟨⟩
    cases hdigit
  rw [Scale.read?, Text.trim_of_all_solid fun c hc => isBlank_of_inNumeral (hall c hc),
    read?_of_head hhead]

/-- In every style, the text of a scale is read back as the scale. -/
theorem read?_write (style : Style) (s : Scale) : Scale.read? (style.write s).toList = some s := by
  have hscale := toScale?_shortest style.tie s
  rw [read?_of_isNumeral (isNumeral_write style s)]
  simp only [Style.write, String.toList_ofList]
  generalize s.shortest style.tie = d at hscale ⊢
  obtain ⟨c, e⟩ := d
  have hds := isDigits_toDigits c
  rw [← ofDigits_toDigits c] at hscale
  split
  · obtain ⟨p, hp, hs⟩ := exists_of_plainText hds hscale
    rw [hp]
    exact hs
  · rw [readUnsigned?_exponentText hds]
    exact hscale

/-- Different scales have different texts. -/
theorem write_inj {style : Style} {s t : Scale} (h : style.write s = style.write t) : s = t := by
  have hs := read?_write style s
  rw [h, read?_write] at hs
  exact (Option.some.inj hs).symm

end Scale
end RenderPlan
