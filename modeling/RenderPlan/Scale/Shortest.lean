import RenderPlan.Scale.Decimal
/-!
The shortest decimal of a scale: the point of the coarsest decimal grid that reads back as the
scale, and of two such points the nearer one. A point in the middle between two is chosen by the tie
rule. Every scale lies itself on the grid of `10 ^ -149`, so the search cannot fail.
-/
namespace RenderPlan.Scale

/-- Numerator and denominator of `s / 10 ^ k`. -/
def inUnits (s : Scale) : Int → Nat × Nat
  | .ofNat k => (s.steps, stepsInOne * Nat.pow 10 k)
  | .negSucc k => (s.steps * Nat.pow 10 (k + 1), stepsInOne)

/-- The nearest point of the grid `10 ^ k` that reads back as `s`, among the two next to `s`. -/
def onGrid? (tie : Tie) (s : Scale) (k : Int) : Option Decimal :=
  let (n, d) := s.inUnits k
  let near := roundDiv tie n d
  let far := 2 * (n / d) + 1 - near
  [Decimal.mk near k, Decimal.mk far k].find? fun p => p.toScale? = some s

/-- The grids from the coarsest that a scale can meet to the one on which all scales lie. -/
def grids : List Int := (List.range 188).map fun (i : Nat) => 38 - (i : Int)

/-- The decimal of a scale with no digit to spare. -/
def shortest (tie : Tie) (s : Scale) : Decimal :=
  (grids.findSome? (onGrid? tie s)).getD ⟨s.steps * Nat.pow 5 149, -149⟩

/-- Every decimal that the search finds reads back. -/
theorem toScale?_of_onGrid? {tie : Tie} {s : Scale} {k : Int} {p : Decimal}
    (h : onGrid? tie s k = some p) : p.toScale? = some s := by
  have := List.find?_some h
  simpa using this

end RenderPlan.Scale
