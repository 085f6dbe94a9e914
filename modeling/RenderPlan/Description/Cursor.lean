import RenderPlan.Description.Bracket
/-!
A cursor over the lines of a text. Its state is the lines that have not been consumed. Only peeking
passes over blank and comment lines; collecting a list and capturing a fenced body start at the very
line under the cursor, and consume everything where the text ends before the list or body does.
-/
namespace RenderPlan.Description

structure Cursor where
  remaining : List Line
  deriving DecidableEq, Repr

namespace Cursor

def ofText (source : List Char) : Cursor := ⟨linesOf source⟩

/-- The cursor before its next line that is neither blank nor a comment. -/
def skip (c : Cursor) : Cursor := ⟨c.remaining.dropWhile fun l => isIgnorable l.text⟩

/-- The line that the cursor finds when it has passed blank and comment lines. -/
def peek? (c : Cursor) : Option Line := c.skip.remaining.head?

def advance (c : Cursor) : Cursor := ⟨c.remaining.tail⟩

/-- Reads on from `inner` to the line that closes the bracket. -/
def closeBracket (inner : List Char) : List Line → Option (List Char × List Char) × Cursor
  | [] => (none, ⟨[]⟩)
  | l :: ls =>
    if isComment l.text then closeBracket inner ls
    else match Bracket.extend inner l.text with
      | .unclosed inner => closeBracket inner ls
      | .closed inner rest => (some (inner, rest), ⟨ls⟩)

/-- The text between brackets and the text behind them; `text` starts with the opening bracket. -/
def collect (c : Cursor) : List Char → Option (List Char × List Char) × Cursor
  | '[' :: opened =>
    match Bracket.start opened with
    | .unclosed inner => closeBracket inner c.remaining
    | .closed inner rest => (some (inner, rest), c)
  | _ => (none, c)

/-- The lines up to the next fence, each ended by a line feed, and the cursor behind the fence. -/
def captureFrom : List Line → Option (List Char) × Cursor
  | [] => (none, ⟨[]⟩)
  | l :: ls =>
    if isFence l.text then (some [], ⟨ls⟩)
    else
      let (captured, c) := captureFrom ls
      (captured.map fun t => l.text ++ '\n' :: t, c)

def capture (c : Cursor) : Option (List Char) × Cursor := captureFrom c.remaining

/-- A call on a cursor. -/
inductive Call where
  | peek | advance | capture
  | collect (text : List Char)
  deriving DecidableEq, Repr

/-- What a call answers. -/
inductive Answer where
  | nothing
  | line (found : Option Line)
  | captured (text : Option (List Char))
  | collected (text : Option (List Char × List Char))
  deriving DecidableEq, Repr

/-- The answer to a call and the cursor behind it; peeking consumes the lines that it passes. -/
def call (c : Cursor) : Call → Answer × Cursor
  | .peek => (.line c.peek?, c.skip)
  | .advance => (.nothing, c.advance)
  | .capture => c.capture.map .captured id
  | .collect text => (c.collect text).map .collected id

/-- The cursor behind calls made one after the other. -/
def after (c : Cursor) (calls : List Call) : Cursor := calls.foldl (fun c k => (c.call k).2) c

end Cursor
end RenderPlan.Description
