import RenderPlan.Description.Line
/-!
Bracketed text that may run over several lines. What follows the opening bracket is taken up to the
first closing one; each further line is joined on with a line feed, and comment lines are left out.
-/
namespace RenderPlan.Description

open RenderPlan.Text

/-- The text after an opening bracket, as far as it has been read. -/
inductive Bracket where
  | unclosed (inner : List Char)
  | closed (inner rest : List Char)
  deriving DecidableEq, Repr

namespace Bracket

/-- The rest of the line that holds the opening bracket. -/
def start (opened : List Char) : Bracket :=
  match cutAt ']' opened with
  | none => .unclosed opened
  | some (inner, rest) => .closed inner rest

/-- One more line. -/
def extend (inner line : List Char) : Bracket :=
  match cutAt ']' line with
  | none => .unclosed (inner ++ '\n' :: line)
  | some (last, rest) => .closed (inner ++ '\n' :: last) rest

end Bracket
end RenderPlan.Description
