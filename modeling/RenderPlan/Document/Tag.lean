import RenderPlan.Document.Scalar
/-!
Tags of a YAML document and the directives before it. A tag has a handle, which is an exclamation
mark or a name between two of them, and an address, where the octets of a character may be written
with percent signs. A directive gives the version of the format or declares a handle.
-/
namespace RenderPlan.Document

def isNameChar (c : Char) : Bool := c.isAlphanum || c == '_' || c == '-'

/-- The characters that stand for themselves in an address, more of them if it is enclosed. -/
def isAddressChar (enclosed : Bool) (c : Char) : Bool :=
  isNameChar c || [';', '/', '?', ':', '@', '&', '=', '+', '$', '.', '!', '~', '*', '\x27', '(',
    ')'].contains c || (enclosed && [',', '[', ']'].contains c)

/-- How many octets follow the first one of a character in UTF-8. -/
def octetsBehind? (octet : Nat) : Option Nat :=
  if octet < 0x80 then some 0
  else if octet < 0xC0 then none
  else if octet < 0xE0 then some 1
  else if octet < 0xF0 then some 2
  else if octet < 0xF8 then some 3
  else none

/-- What follows the rest of an address. The character that is being read lacks `behind` octets. -/
def passAddress? (enclosed : Bool) (behind : Nat) : List Char → Option (List Char)
  | [] => if behind = 0 then some [] else none
  | '%' :: a :: b :: r => do
    let octet := 16 * (← hexValue? a) + (← hexValue? b)
    if behind = 0 then passAddress? enclosed (← octetsBehind? octet) r
    else if 0x80 ≤ octet ∧ octet < 0xC0 then passAddress? enclosed (behind - 1) r
    else none
  | c :: r =>
    if behind ≠ 0 ∨ c = '%' then none
    else if isAddressChar enclosed c then passAddress? enclosed 0 r
    else some (c :: r)

/-- What follows an address, which is not empty. -/
def takeAddress? (enclosed : Bool) (s : List Char) : Option (List Char) :=
  (passAddress? enclosed 0 s).filter (·.length < s.length)

/-- A handle of two exclamation marks, and what follows it. -/
def takeHandle? : List Char → Option (List Char × List Char)
  | '!' :: r =>
    let (name, left) := r.span isNameChar
    if left.head? = some '!' then some ('!' :: name ++ ['!'], left.drop 1) else none
  | _ => none

/-- The handle of a tag, and what follows the tag. One between angle brackets needs no handle; it
gets the one that is always declared, as does one that has only its first exclamation mark. -/
def takeTag? : List Char → Option (List Char × List Char)
  | '!' :: '<' :: r => do
    let left ← takeAddress? true r
    if left.head? = some '>' then some (['!'], left.drop 1) else none
  | s =>
    match takeHandle? s with
    | some (handle, r) => (takeAddress? false r).map fun left => (handle, left)
    | none => (takeAddress? false s).map fun left => (['!'], left)

inductive Directive where
  | version
  | handle (text : List Char)
  deriving DecidableEq, Repr

namespace Directive

/-- A number of at most nine digits, and what follows it. -/
def takeNumber? (s : List Char) : Option (Nat × List Char) :=
  let (digits, left) := s.span Char.isDigit
  if digits.isEmpty ∨ 9 < digits.length then none
  else some (digits.foldl (fun n c => 10 * n + (c.toNat - 48)) 0, left)

/-- The versions are 1.1 and 1.2. -/
def takeVersion? (s : List Char) : Option (Directive × List Char) := do
  let (major, r) ← takeNumber? s
  if r.head? ≠ some '.' then none
  else
    let (minor, left) ← takeNumber? (r.drop 1)
    if major = 1 ∧ (minor = 1 ∨ minor = 2) then some (version, left) else none

/-- A handle and the address for which it stands. -/
def takeDeclaration? (s : List Char) : Option (Directive × List Char) := do
  let (text, r) ← match takeHandle? s with
    | some h => some h
    | none => if s.head? = some '!' then some (['!'], s.drop 1) else none
  if !r.head?.any isSpace then none
  else
    let left ← takeAddress? true (r.dropWhile isSpace)
    if endsWord left then some (handle text, left) else none

/-- The directive on a line, which may go on with a comment. -/
def read? (line : List Char) : Option Directive := do
  let (word, r) := (line.drop 1).span isNameChar
  if !endsWord r then none
  else
    let value := r.dropWhile isSpace
    let (directive, left) ←
      if word = ['Y', 'A', 'M', 'L'] then takeVersion? value
      else if word = ['T', 'A', 'G'] then takeDeclaration? value
      else none
    if (left.dropWhile isSpace).head?.all (· == '#') then some directive else none

end Directive
end RenderPlan.Document
