import RenderPlan.Plan.Basic
import RenderPlan.ShaderType.Name
import RenderPlan.Text.Blank
import RenderPlan.Text.Split
/-!
Lists of variables. Entries end at commas and line feeds; blank entries do not count. An entry is a
name, a colon and a type, and may go on with an arrow and the source that supplies the variable.
Blank characters may stand around the colon and the arrow and nowhere else, so an entry has at most
one reading. The first entry of another form is reported as it stands.
-/
namespace RenderPlan.Description

open RenderPlan.Text

def endsVariable (c : Char) : Bool := c == ',' || c == '\n'

def inName (c : Char) : Bool := !isBlank c && c != ':'

def inType (c : Char) : Bool := !isBlank c && c != '<'

/-- What may follow the type of a variable: nothing, or an arrow and a source without blanks. -/
def readAutomatic? (r : List Char) : Option (List Char) :=
  if r.isEmpty then some []
  else match trimStart r with
    | '<' :: '-' :: r =>
      let automatic := trimStart r
      if automatic.isEmpty || automatic.any isBlank then none else some automatic
    | _ => none

def readVariable? (entry : List Char) : Option Variable :=
  match trimStart (entry.dropWhile inName) with
  | ':' :: r =>
    let name := entry.takeWhile inName
    let r := trimStart r
    let type := r.takeWhile inType
    if name.isEmpty || type.isEmpty then none
    else (readAutomatic? (r.dropWhile inType)).map fun automatic =>
      ⟨String.ofList name, .ofName (String.ofList type), String.ofList automatic⟩
  | _ => none

/-- The entries of a list of variables. -/
def variableEntries (inner : List Char) : List (List Char) :=
  ((pieces endsVariable inner).map trim).filter fun e => !e.isEmpty

/-- The variables of a list in order, or the first entry that is none. -/
def readVariables (inner : List Char) : Except (List Char) (List Variable) :=
  (variableEntries inner).mapM fun e =>
    match readVariable? e with
    | some v => .ok v
    | none => .error e

end RenderPlan.Description
