import RenderPlan.Text.Blank
import RenderPlan.Text.Split
/-!
Lines of a description. Each line carries its number, counted from 1. A line is a comment if its
first character that is not blank is a dash, and a fence if that character is a backtick. A field
line is cut at its first colon into a keyword and a value, both trimmed; whether it is indented
counts only for keywords that open a block.
-/
namespace RenderPlan.Description

open RenderPlan.Text

structure Line where
  number : Nat
  text : List Char
  deriving DecidableEq, Repr

/-- Texts numbered in order. -/
def numberFrom : Nat → List (List Char) → List Line
  | _, [] => []
  | n, t :: ts => ⟨n, t⟩ :: numberFrom (n + 1) ts

/-- The numbered lines of a text. -/
def linesOf (source : List Char) : List Line := numberFrom 1 (lines source)

/-- The character that fences the source of a stage. -/
def fenceMark : Char := '\x60'

/-- Whether the first character that is not blank is `c`. -/
def startsWith (c : Char) (text : List Char) : Bool := (trimStart text).head? == some c

def isComment (text : List Char) : Bool := startsWith '-' text

def isFence (text : List Char) : Bool := startsWith fenceMark text

/-- Blank and comment lines say nothing between fields. -/
def isIgnorable (text : List Char) : Bool := (trimStart text).isEmpty || isComment text

/-- A line of the form `keyword: value`. -/
structure Field where
  line : Nat
  keyword : List Char
  value : List Char
  atLineStart : Bool
  deriving DecidableEq, Repr

/-- Whether a text begins with a blank character. -/
def isIndented (text : List Char) : Bool := text.head?.any isBlank

def Field.read? (line : Nat) (text : List Char) : Option Field :=
  (cutAt ':' text).map fun (k, v) => ⟨line, trim k, trim v, !isIndented text⟩

def Line.field? (l : Line) : Option Field := Field.read? l.number l.text

/-- What follows the opening fence may only be a tag of ASCII letters, digits, `-`, `_` and `+`. -/
def isTagCharacter (c : Char) : Bool := c.isAlphanum || c == '-' || c == '_' || c == '+'

/-- Whether a text is an opening fence: backticks with nothing but a tag behind them. -/
def isOpeningFence (text : List Char) : Bool :=
  ((trim text).dropWhile (· == fenceMark)).all isTagCharacter

@[simp] theorem numberFrom_nil (n : Nat) : numberFrom n [] = [] := rfl
@[simp] theorem numberFrom_cons (n : Nat) (t : List Char) (ts : List (List Char)) :
    numberFrom n (t :: ts) = ⟨n, t⟩ :: numberFrom (n + 1) ts := rfl

@[simp] theorem length_numberFrom (n : Nat) (ts : List (List Char)) :
    (numberFrom n ts).length = ts.length := by
  induction ts generalizing n with
  | nil => rfl
  | cons t ts ih => simp [ih]

theorem numberFrom_append (n : Nat) (ts us : List (List Char)) :
    numberFrom n (ts ++ us) = numberFrom n ts ++ numberFrom (n + ts.length) us := by
  induction ts generalizing n with
  | nil => simp
  | cons t ts ih => simp [ih, Nat.add_assoc, Nat.add_comm 1]

end RenderPlan.Description
