import RenderPlan.Text.Printable
/-!
Outlines: trees of named records, written for reading. Every field of a record and every item of a
list has a line of its own, four blanks deeper than the brackets around it and ended by a comma; an
empty list is two brackets. Texts are quoted, and every character that cannot be seen by itself is
written by its code.
-/
namespace RenderPlan

open RenderPlan.Text

inductive Outline where
  /-- A word or numeral that is written as it is. -/
  | word (text : String)
  | text (text : String)
  | list (items : List Outline)
  | record (name : String) (fields : List (String × Outline))
  /-- A tree inside a named pair of parentheses. -/
  | wrapped (name : String) (inner : Outline)

namespace Outline

/-- A character inside quotes. -/
def escape (c : Char) : List Char :=
  if c = '\x00' then ['\\', '0']
  else if c = '\t' then ['\\', 't']
  else if c = '\r' then ['\\', 'r']
  else if c = '\n' then ['\\', 'n']
  else if c = '\x22' then ['\\', '\x22']
  else if c = '\\' then ['\\', '\\']
  else if isPrintable c then [c]
  else ['\\', 'u', '\x7b'] ++ Nat.toDigits 16 c.toNat ++ ['\x7d']

def quote (text : String) : List Char :=
  '\x22' :: text.toList.flatMap escape ++ ['\x22']

/-- The start of a line at a depth. -/
def newLine (depth : Nat) : List Char := '\n' :: List.replicate (4 * depth) ' '

mutual

/-- The text of a tree that stands at a depth. -/
def write (depth : Nat) : Outline → List Char
  | word t => t.toList
  | text t => quote t
  | list [] => ['[', ']']
  | list (v :: vs) => '[' :: writeItems (depth + 1) (v :: vs) ++ newLine depth ++ [']']
  | record name fields =>
    name.toList ++ ' ' :: '\x7b' :: writeFields (depth + 1) fields ++ newLine depth ++ ['\x7d']
  | wrapped name v =>
    name.toList ++ '(' :: newLine (depth + 1) ++ write (depth + 1) v ++ ',' :: newLine depth
      ++ [')']

def writeItems (depth : Nat) : List Outline → List Char
  | [] => []
  | v :: vs => newLine depth ++ write depth v ++ ',' :: writeItems depth vs

def writeFields (depth : Nat) : List (String × Outline) → List Char
  | [] => []
  | (k, v) :: fs =>
    newLine depth ++ k.toList ++ ':' :: ' ' :: write depth v ++ ',' :: writeFields depth fs

end

def pretty (o : Outline) : String := String.ofList (o.write 0)

end Outline
end RenderPlan
