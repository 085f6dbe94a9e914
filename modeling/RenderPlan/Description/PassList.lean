import RenderPlan.Plan.Basic
import RenderPlan.Text.Blank
import RenderPlan.Text.Split
/-!
Lists of a pass. Names are separated by commas and blank characters. An input is two names with one
dot between them; the first one of another form is reported. An output is any name. The value of an
`outputs` field is a buffer, cut off at the first opening bracket if there is one.
-/
namespace RenderPlan.Description

open RenderPlan.Text

def endsName (c : Char) : Bool := c == ',' || isBlank c

/-- The input that a text of the form `buffer.texture` names. -/
def readInput? (text : List Char) : Option InputTexture :=
  match cutAt '.' text with
  | some (b, t) =>
    if b.isEmpty || t.isEmpty || t.contains '.' then none
    else some ⟨String.ofList b, String.ofList t⟩
  | none => none

/-- The inputs of a list in order, or the first name that is none. -/
def readInputs (inner : List Char) : Except (List Char) (List InputTexture) :=
  (words endsName inner).mapM fun w =>
    match readInput? w with
    | some i => .ok i
    | none => .error w

def readOutputs (inner : List Char) : List String := (words endsName inner).map String.ofList

/-- The buffer and the text of the list, opening bracket included, in the value of an `outputs`
field. -/
def splitOutputs (value : List Char) : List Char × Option (List Char) :=
  match cutAt '[' value with
  | some (b, opened) => (trim b, some ('[' :: opened))
  | none => (value, none)

/-- A text that can name the output buffer. -/
def isBufferName (text : List Char) : Bool := !text.isEmpty && !text.any isBlank

end RenderPlan.Description
