import RenderPlan.Document.Place
/-!
Quoted and plain scalars of a YAML document. Where one goes on over several lines, a single line
break is a space, of more than one the first does not count, and neither do the blanks around them.
A plain scalar ends at a comment, at a colon that makes it a key, or, outside brackets, where the
indentation does; inside brackets, commas and brackets end it too.
-/
namespace RenderPlan.Document

/-- What stands between two words of a scalar. `first` is the break that ends the line, and is empty
if a backslash hides it; `more` are the breaks after it. -/
inductive Gap where
  | blanks (text : List Char)
  | breaks (first more : List Char)
  deriving DecidableEq, Repr

namespace Gap

def empty : Gap := .blanks []

def isEmpty (g : Gap) : Bool := g == .empty

def isBroken : Gap → Bool
  | .blanks _ => false
  | .breaks _ _ => true

def addBlank (c : Char) : Gap → Gap
  | .blanks s => .blanks (s ++ [c])
  | .breaks first more => .breaks first more

def addBreak (c : Char) : Gap → Gap
  | .blanks _ => .breaks [c] []
  | .breaks first more => .breaks first (more ++ [c])

/-- What a gap adds to the text of its scalar. -/
def text : Gap → List Char
  | .blanks s => s
  | .breaks first more =>
    if first ≠ ['\n'] then first ++ more else if more.isEmpty then [' '] else more

end Gap

def hexValue? (c : Char) : Option Nat :=
  if '0' ≤ c ∧ c ≤ '9' then some (c.toNat - 48)
  else if 'a' ≤ c ∧ c ≤ 'f' then some (c.toNat - 87)
  else if 'A' ≤ c ∧ c ≤ 'F' then some (c.toNat - 55)
  else none

/-- The character whose code point the first `n` characters write in hexadecimal digits. -/
def codePoint? (n : Nat) (s : List Char) : Option Char := do
  let digits ← (s.take n).mapM hexValue?
  let v := digits.foldl (fun v d => 16 * v + d) 0
  if digits.length = n ∧ (v < 0xD800 ∨ (0xDFFF < v ∧ v ≤ 0x10FFFF)) then some (Char.ofNat v)
  else none

/-- The character that a letter behind a backslash stands for. -/
def unescape? : Char → Option Char
  | '0' => some '\x00'
  | 'a' => some '\x07'
  | 'b' => some '\x08'
  | 't' => some '\t'
  | '\t' => some '\t'
  | 'n' => some '\n'
  | 'v' => some '\x0b'
  | 'f' => some '\x0c'
  | 'r' => some '\r'
  | 'e' => some '\x1b'
  | ' ' => some ' '
  | '\x22' => some '\x22'
  | '/' => some '/'
  | '\\' => some '\\'
  | 'N' => some '\u0085'
  | '_' => some '\u00a0'
  | 'L' => some '\u2028'
  | 'P' => some '\u2029'
  | _ => none

/-- What the text behind a backslash stands for, and how many characters of it. -/
def escape? : List Char → Option (Char × Nat)
  | [] => none
  | 'x' :: r => (codePoint? 2 r).map fun c => (c, 3)
  | 'u' :: r => (codePoint? 4 r).map fun c => (c, 5)
  | 'U' :: r => (codePoint? 8 r).map fun c => (c, 9)
  | c :: _ => (unescape? c).map fun d => (d, 1)

/-- Puts text in front of a scalar that has been read. -/
def andThen (s : List Char) (o : Option (List Char × Place)) : Option (List Char × Place) :=
  o.map fun (t, p) => (s ++ t, p)

/-- The rest of a scalar between single or double quotes, and the place after it. The first is
written with its quotes doubled, the second with escapes, and neither crosses a mark between
documents. The next `skip` characters have been read already, `gap` not yet. -/
def takeQuoted (quote : Char) (skip line column : Nat) (gap : Gap) :
    List Char → Option (List Char × Place)
  | [] => none
  | c :: r =>
    match skip with
    | n + 1 => takeQuoted quote n line (column + 1) gap r
    | 0 =>
      if isBreak c then takeQuoted quote 0 (line + 1) 0 (gap.addBreak c) r
      else if isSpace c then takeQuoted quote 0 line (column + 1) (gap.addBlank c) r
      else if column = 0 ∧ separates (c :: r) then none
      else if c = quote then
        if quote = '\x27' ∧ r.head? = some '\x27' then
          andThen (gap.text ++ [c]) (takeQuoted quote 1 line (column + 1) .empty r)
        else some (gap.text, ⟨r, line, column + 1⟩)
      else if c = '\\' ∧ quote = '\x22' then
        match r with
        | [] => none
        | d :: rest =>
          if isBreak d then
            andThen gap.text (takeQuoted quote 0 (line + 1) 0 (.breaks [] []) rest)
          else
            match escape? (d :: rest) with
            | none => none
            | some (e, n) =>
              andThen (gap.text ++ [e]) (takeQuoted quote n line (column + 1) .empty (d :: rest))
      else andThen (gap.text ++ [c]) (takeQuoted quote 0 line (column + 1) .empty r)

/-- The characters that separate and enclose inside brackets. -/
def isFlowMark (c : Char) : Bool := c == ',' || c == '[' || c == ']' || c == '\x7b' || c == '\x7d'

/-- The characters that no plain scalar starts with. -/
def reservedStarts : List Char :=
  [',', '[', ']', '\x7b', '\x7d', '#', '&', '*', '!', '|', '>', '\x27', '\x22', '%', '@', '\x60',
   ' ', '\t']

/-- Whether a plain scalar starts here; a dash, a question mark or a colon starts one only if it
does not stand alone, and the last two only outside brackets. -/
def startsPlain (flow : Bool) : List Char → Bool
  | [] => false
  | c :: r =>
    if reservedStarts.contains c then false
    else if c == '-' then !endsWord r
    else if c == '?' || c == ':' then !flow && !endsWord r
    else true

/-- The rest of a plain scalar, whether a line break follows it, and the place after it and what is
blank. Lines after the first are indented by `indent` or more. -/
def takePlain (flow : Bool) (indent line column : Nat) (gap : Gap) :
    List Char → Option (List Char × Bool × Place)
  | [] => some ([], gap.isBroken, ⟨[], line, column⟩)
  | c :: r =>
    if isBreak c then takePlain flow indent (line + 1) 0 (gap.addBreak c) r
    else if isSpace c then
      if c == '\t' && gap.isBroken && column < indent then none
      else takePlain flow indent line (column + 1) (gap.addBlank c) r
    else if (c == '#' && !gap.isEmpty) || (gap.isBroken &&
        ((!flow && column < indent) || (column == 0 && separates (c :: r)))) then
      some ([], gap.isBroken, ⟨c :: r, line, column⟩)
    else if flow && c == ':' && r.head?.any fun d => d == '?' || isFlowMark d then none
    else if (c == ':' && endsWord r) || (flow && isFlowMark c) then
      some ([], gap.isBroken, ⟨c :: r, line, column⟩)
    else
      (takePlain flow indent line (column + 1) .empty r).map fun (t, rest) =>
        (gap.text ++ c :: t, rest)

end RenderPlan.Document
