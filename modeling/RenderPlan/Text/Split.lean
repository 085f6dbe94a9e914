/-!
Cutting a text. `cutAt` splits at the first occurrence of a character, `pieces` at every separator,
and `lines` at every line feed: a line feed ends a line, a carriage return directly before it is not
part of the line, and nothing after the last line feed is not a line. A cut loses only separators.
-/
namespace RenderPlan.Text

/-- The text before and the text after the first `c`, or nothing where `c` does not occur. -/
def cutAt (c : Char) : List Char → Option (List Char × List Char)
  | [] => none
  | d :: r => if d = c then some ([], r) else (cutAt c r).map fun (a, b) => (d :: a, b)

/-- The parts between separators, empty ones included. -/
def pieces (sep : Char → Bool) : List Char → List (List Char)
  | [] => [[]]
  | c :: r =>
    if sep c then [] :: pieces sep r
    else match pieces sep r with
      | [] => [[c]]
      | p :: ps => (c :: p) :: ps

/-- The parts between separators that are not empty. -/
def words (sep : Char → Bool) (s : List Char) : List (List Char) :=
  (pieces sep s).filter fun w => !w.isEmpty

/-- Drops one carriage return from the end of a text. -/
def dropReturn : List Char → List Char
  | [] => []
  | c :: r => if r.isEmpty && c == '\r' then [] else c :: dropReturn r

/-- Turns the parts between line feeds into lines: only the last part is not ended by one. -/
def settleLines : List (List Char) → List (List Char)
  | [] => []
  | [last] => if last.isEmpty then [] else [last]
  | l :: m :: ls => dropReturn l :: settleLines (m :: ls)

def lines (s : List Char) : List (List Char) := settleLines (pieces (· == '\n') s)

@[simp] theorem cutAt_nil (c : Char) : cutAt c [] = none := rfl

@[simp] theorem cutAt_self (c : Char) (r : List Char) : cutAt c (c :: r) = some ([], r) := by
  simp [cutAt]

/-- A cut takes out exactly one occurrence of its character, the first one. -/
theorem cutAt_eq_some_iff {c : Char} {s a b : List Char} :
    cutAt c s = some (a, b) ↔ s = a ++ c :: b ∧ c ∉ a := by
  induction s generalizing a with
  | nil => simp
  | cons d r ih =>
    by_cases h : d = c
    · subst h
      cases a with
      | nil => simp [cutAt]
      | cons x a =>
        simp only [cutAt, if_true, Option.some.injEq, Prod.mk.injEq, List.cons_append,
          List.cons.injEq, List.mem_cons, not_or]
        constructor
        · rintro ⟨⟨⟩, _⟩
        · rintro ⟨⟨rfl, _⟩, hx, _⟩
          exact absurd rfl hx
    · cases a with
      | nil => simp [cutAt, h]
      | cons x a =>
        simp only [cutAt, h, if_false, Option.map_eq_some_iff, Prod.mk.injEq, List.cons.injEq,
          Prod.exists, List.cons_append, List.mem_cons, not_or]
        constructor
        · rintro ⟨u, v, hc, ⟨rfl, rfl⟩, rfl⟩
          have := ih.1 hc
          exact ⟨⟨rfl, this.1⟩, fun e => h e.symm, this.2⟩
        · rintro ⟨⟨rfl, hr⟩, _, hn⟩
          exact ⟨a, b, ih.2 ⟨hr, hn⟩, ⟨rfl, rfl⟩, rfl⟩

theorem cutAt_eq_none_iff {c : Char} {s : List Char} : cutAt c s = none ↔ c ∉ s := by
  induction s with
  | nil => simp
  | cons d r ih =>
    by_cases h : d = c
    · simp [cutAt, h]
    · simp [cutAt, h, ih, Ne.symm h]

theorem pieces_ne_nil (sep : Char → Bool) (s : List Char) : pieces sep s ≠ [] := by
  cases s with
  | nil => simp [pieces]
  | cons c r => simp only [pieces]; split <;> (try split) <;> simp

end RenderPlan.Text
