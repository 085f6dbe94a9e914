import RenderPlan.Description.Keyword
/-!
What can be wrong with a description. An error names one cause and the line it was found on; the
first one ends the reading. A cause quotes the text that is at fault exactly as it stands there.
-/
namespace RenderPlan.Description

/-- The kinds of bracketed lists. -/
inductive ListKind where
  | uniform | texture | input | output
  deriving DecidableEq, Repr

def ListKind.name : ListKind → String
  | .uniform => "uniform"
  | .texture => "texture"
  | .input => "input"
  | .output => "output"

inductive Cause where
  /-- A keyword that the current block does not take. -/
  | unknownKeyword (keyword : String)
  | missingColon (text : String)
  | notBoolean (field value : String)
  /-- A list that is not closed, or that holds something of the wrong form. -/
  | malformedList (kind : ListKind) (found : String)
  | malformedValue (field value : String)
  | missingFence (found : String)
  /-- A stage that ends without a source. -/
  | missingSource (stage : Stage)
  /-- The text ends before the source of a stage does. -/
  | unexpectedEnd
  deriving DecidableEq, Repr

structure Error where
  line : Nat
  cause : Cause
  deriving DecidableEq, Repr

def Cause.message : Cause → String
  | unknownKeyword k => "unknown token `" ++ k ++ "`"
  | missingColon t => "expected `keyword: value`, found `" ++ t ++ "`"
  | notBoolean f v => "`" ++ v ++ "` is not a boolean for `" ++ f ++ "`"
  | malformedList k t => "malformed " ++ k.name ++ " list at `" ++ t ++ "`"
  | malformedValue f v => "invalid value `" ++ v ++ "` for `" ++ f ++ "`"
  | missingFence t => "expected a backtick fence after `source:`, found `" ++ t ++ "`"
  | missingSource s => "`" ++ s.spelling ++ "` block has no `source:` field"
  | unexpectedEnd => "unexpected end of input in shader source"

def Error.message (e : Error) : String :=
  "line " ++ toString e.line ++ ": " ++ e.cause.message

end RenderPlan.Description
