/-!
Data trees and their text in JSON. Members of an object keep their order. Every item of a list and
every member of an object has a line of its own, two blanks deeper than the brackets around it; what
is empty is written as two brackets. A string is written as it is, save for quotes, backslashes and
the control characters below U+0020.
-/
namespace RenderPlan

inductive Json where
  | string (text : String)
  | flag (value : Bool)
  /-- A number by its numeral. -/
  | number (numeral : String)
  | list (items : List Json)
  | object (members : List (String × Json))

namespace Json

/-- The digit of a value below sixteen. -/
def hexDigit (n : Nat) : Char := if n < 10 then Char.ofNat (48 + n) else Char.ofNat (87 + n)

/-- A character inside quotes. -/
def escape (c : Char) : List Char :=
  if c = '\x22' then ['\\', '\x22']
  else if c = '\\' then ['\\', '\\']
  else if c = '\x08' then ['\\', 'b']
  else if c = '\x0c' then ['\\', 'f']
  else if c = '\n' then ['\\', 'n']
  else if c = '\r' then ['\\', 'r']
  else if c = '\t' then ['\\', 't']
  else if c.toNat < 32 then ['\\', 'u', '0', '0', hexDigit (c.toNat / 16), hexDigit (c.toNat % 16)]
  else [c]

def quote (text : String) : List Char :=
  '\x22' :: text.toList.flatMap escape ++ ['\x22']

/-- The start of a line at a depth. -/
def newLine (depth : Nat) : List Char := '\n' :: List.replicate (2 * depth) ' '

mutual

/-- The text of a tree that stands at a depth. -/
def write (depth : Nat) : Json → List Char
  | string t => quote t
  | flag true => ['t', 'r', 'u', 'e']
  | flag false => ['f', 'a', 'l', 's', 'e']
  | number n => n.toList
  | list [] => ['[', ']']
  | list (v :: vs) =>
    '[' :: newLine (depth + 1) ++ write (depth + 1) v ++ writeItems (depth + 1) vs
      ++ newLine depth ++ [']']
  | object [] => ['\x7b', '\x7d']
  | object ((k, v) :: ms) =>
    '\x7b' :: newLine (depth + 1) ++ quote k ++ ':' :: ' ' :: write (depth + 1) v
      ++ writeMembers (depth + 1) ms ++ newLine depth ++ ['\x7d']

/-- The items behind the first one. -/
def writeItems (depth : Nat) : List Json → List Char
  | [] => []
  | v :: vs => ',' :: newLine depth ++ write depth v ++ writeItems depth vs

/-- The members behind the first one. -/
def writeMembers (depth : Nat) : List (String × Json) → List Char
  | [] => []
  | (k, v) :: ms =>
    ',' :: newLine depth ++ quote k ++ ':' :: ' ' :: write depth v ++ writeMembers depth ms

end

def pretty (j : Json) : String := String.ofList (j.write 0)

end Json
end RenderPlan
