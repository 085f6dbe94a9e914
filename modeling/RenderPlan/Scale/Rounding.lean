/-!
Rounding a quotient of natural numbers to a whole number: to the nearest one, and of two equally
near ones to the one that the tie rule names. A result is never more than half a unit off.
-/
namespace RenderPlan

/-- Where a quotient goes that lies in the middle between two whole numbers. -/
inductive Tie where
  | even | up
  deriving DecidableEq, Repr

/-- What a tie adds to the lower neighbour `q`. -/
def Tie.step : Tie → Nat → Nat
  | .even, q => q % 2
  | .up, _ => 1

/-- The whole number nearest to `n / d`. -/
def roundDiv (tie : Tie) (n d : Nat) : Nat :=
  let q := n / d
  let r := n % d
  if 2 * r < d then q else if d < 2 * r then q + 1 else q + tie.step q

theorem Tie.step_le_one (tie : Tie) (q : Nat) : tie.step q ≤ 1 := by
  cases tie <;> simp only [Tie.step] <;> omega

/-- The rounded quotient is one of the two whole neighbours of the quotient. -/
theorem roundDiv_bounds (tie : Tie) (n d : Nat) :
    n / d ≤ roundDiv tie n d ∧ roundDiv tie n d ≤ n / d + 1 := by
  have := tie.step_le_one (n / d)
  simp only [roundDiv]
  split
  · omega
  · split <;> omega

@[simp] theorem roundDiv_one (tie : Tie) (n : Nat) : roundDiv tie n 1 = n := by
  simp [roundDiv, Nat.mod_one]

/-- A tie under the rule `even` ends in an even number. -/
theorem roundDiv_even_tie {n d : Nat} (h : 2 * (n % d) = d) : roundDiv .even n d % 2 = 0 := by
  simp only [roundDiv, h, Nat.lt_irrefl, if_false, Tie.step]
  omega

end RenderPlan
