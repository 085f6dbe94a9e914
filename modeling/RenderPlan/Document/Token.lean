import RenderPlan.Document.BlockScalar
import RenderPlan.Document.Tag
/-!
Tokens of a YAML document. Indentation opens and closes blocks. What a colon follows on the same
line is a key, so a key mark may be put before tokens that have been taken already.
-/
namespace RenderPlan.Document

inductive Token where
  | directive (d : Directive)
  | documentStart
  | documentEnd
  | blockList
  | blockMap
  | blockEnd
  | openList
  | closeList
  | openMap
  | closeMap
  | comma
  /-- The dash before an item of a list. -/
  | item
  | key
  | value
  | anchor (name : List Char)
  | alias (name : List Char)
  | tag (handle : List Char)
  | scalar (text : List Char)
  deriving DecidableEq, Repr

/-- A place where a key starts if a colon follows, and how many tokens come before it. It is
required to be one if it stands where the block around it has its keys. -/
structure KeyStart where
  required : Bool
  line : Nat
  column : Nat
  before : Nat
  deriving DecidableEq, Repr

/-- How far a document has been cut into tokens. -/
structure Scan where
  place : Place
  /-- The columns of the open blocks, the innermost first. -/
  indents : List Nat := []
  keyAllowed : Bool := true
  keyStart : Option KeyStart := none
  /-- The key starts outside of each open bracket, the innermost first. -/
  outer : List (Option KeyStart) := []
  /-- The tokens so far, the last one first. -/
  tokens : List Token := []
  deriving DecidableEq, Repr

namespace Scan

def inFlow (s : Scan) : Bool := !s.outer.isEmpty

def emit (t : Token) (s : Scan) : Scan := { s with tokens := t :: s.tokens }

def skip (n : Nat) (s : Scan) : Scan := { s with place := s.place.skip n }

/-- Whether a key that starts at `k` cannot end here: it takes one line and 1024 characters. -/
def isPast (k : KeyStart) (s : Scan) : Bool :=
  k.line < s.place.line || k.column + 1024 < s.place.column

def forgetKeyStart (s : Scan) : Option Scan :=
  if s.keyStart.any (·.required) then none else some { s with keyStart := none }

def forgetPast (s : Scan) : Option Scan :=
  if (s.keyStart :: s.outer).any fun o => o.any fun k => k.required && s.isPast k then none
  else
    let keep := Option.filter fun k => !s.isPast k
    some { s with keyStart := keep s.keyStart, outer := s.outer.map keep }

def noteKeyStart (s : Scan) : Option Scan :=
  if s.keyAllowed then do
    let column := s.place.column
    let s ← s.forgetKeyStart
    some { s with
      keyStart := some
        ⟨!s.inFlow && s.indents.head? == some column, s.place.line, column, s.tokens.length⟩ }
  else some s

/-- Closes the blocks whose column is too far to the right. -/
def closeBlocks (tooFar : Nat → Bool) (s : Scan) : Scan :=
  if s.inFlow then s
  else { s with
    indents := s.indents.dropWhile tooFar
    tokens := List.replicate (s.indents.takeWhile tooFar).length .blockEnd ++ s.tokens }

/-- Opens a block at a column, unless that is where the innermost one is. -/
def openBlock (t : Token) (column : Nat) (s : Scan) : Scan :=
  if !s.inFlow && s.indents.head?.all (· < column) then
    { s.emit t with indents := column :: s.indents }
  else s

/-- Marks what starts at `k` as a key. -/
def insertKey (k : KeyStart) (s : Scan) : Scan :=
  let later := s.tokens.take (s.tokens.length - k.before)
  let earlier : Scan := { s with tokens := s.tokens.drop later.length }
  let marked := (earlier.openBlock .blockMap k.column).emit .key
  { marked with tokens := later ++ marked.tokens, keyAllowed := false, keyStart := none }

/-- Takes a mark that starts an entry of a block, which may stand only where a key may. -/
def takeBlockMark (block mark : Token) (s : Scan) : Option Scan :=
  if s.inFlow || s.keyAllowed then do
    let s ← (s.openBlock block s.place.column).forgetKeyStart
    some ((s.emit mark).skip 1)
  else none

def takeItem (s : Scan) : Option Scan :=
  (s.takeBlockMark .blockList .item).map ({ · with keyAllowed := true })

def takeKeyMark (s : Scan) : Option Scan :=
  (s.takeBlockMark .blockMap .key).map fun s => { s with keyAllowed := !s.inFlow }

def takeValueMark (s : Scan) : Option Scan :=
  match s.keyStart with
  | some k => some (((s.insertKey k).emit .value).skip 1)
  | none => (s.takeBlockMark .blockMap .value).map fun s => { s with keyAllowed := !s.inFlow }

def takeOpening (t : Token) (s : Scan) : Option Scan := do
  let s ← s.noteKeyStart
  some ({ s.emit t with
    keyAllowed := true, keyStart := none, outer := s.keyStart :: s.outer }.skip 1)

def takeClosing (t : Token) (s : Scan) : Option Scan := do
  let s ← s.forgetKeyStart
  some ({ s.emit t with
    keyAllowed := false, keyStart := s.outer.head?.join, outer := s.outer.tail }.skip 1)

def takeComma (s : Scan) : Option Scan := do
  let s ← s.forgetKeyStart
  some ({ s.emit .comma with keyAllowed := true }.skip 1)

/-- Takes a line that is not part of a node, which closes all blocks. -/
def takeOutside (t : Token) (place : Place) (s : Scan) : Option Scan := do
  let s ← (s.closeBlocks fun _ => true).forgetKeyStart
  some { s.emit t with place, keyAllowed := false }

def takeDirective (s : Scan) : Option Scan := do
  let (line, rest) := s.place.rest.span fun c => !isBreak c
  let d ← Directive.read? line
  s.takeOutside (.directive d) ⟨rest.drop 1, s.place.line + 1, 0⟩

/-- The characters that may end the name of an anchor; one of a scalar may not follow it. -/
def endsName (s : List Char) : Bool :=
  endsWord s || s.head?.any fun c => ['?', ':', ',', ']', '\x7d', '%', '@', '\x60'].contains c

def takeName (t : List Char → Token) (s : Scan) : Option Scan := do
  let s ← s.noteKeyStart
  let name := (s.place.rest.drop 1).takeWhile isNameChar
  let s := ({ s.emit (t name) with keyAllowed := false }).skip (name.length + 1)
  if !name.isEmpty && endsName s.place.rest then some s else none

def takeTag (s : Scan) : Option Scan := do
  let s ← s.noteKeyStart
  let (handle, left) ← takeTag? s.place.rest
  let n := s.place.rest.length - left.length
  let s := ({ s.emit (.tag handle) with keyAllowed := false }).skip n
  if endsWord s.place.rest || (s.inFlow && s.place.rest.head? == some ',') then some s else none

def takeQuoted (quote : Char) (s : Scan) : Option Scan := do
  let s ← s.noteKeyStart
  let (text, place) ←
    Document.takeQuoted quote 0 s.place.line (s.place.column + 1) .empty (s.place.rest.drop 1)
  some { s.emit (.scalar text) with place, keyAllowed := false }

def takePlain (s : Scan) : Option Scan := do
  let s ← s.noteKeyStart
  let indent := (s.indents.head?.map (· + 1)).getD 0
  let (text, broken, place) ←
    Document.takePlain s.inFlow indent s.place.line s.place.column .empty s.place.rest
  some { s.emit (.scalar text) with place, keyAllowed := broken }

def takeBlockScalar (folded : Bool) (s : Scan) : Option Scan := do
  let s ← s.forgetKeyStart
  let (text, place) ←
    Document.takeBlockScalar folded s.indents.head? s.place.line (s.place.rest.drop 1)
  some { s.emit (.scalar text) with place, keyAllowed := true }

/-- Takes the token that starts here. -/
def takeToken (s : Scan) : Option Scan :=
  let atStart := s.place.column == 0
  match s.place.rest with
  | [] => none
  | c :: r =>
    if atStart && c == '%' then s.takeDirective
    else if atStart && isMark '-' (c :: r) then s.takeOutside .documentStart (s.place.skip 3)
    else if atStart && isMark '.' (c :: r) then s.takeOutside .documentEnd (s.place.skip 3)
    else if c == '[' then s.takeOpening .openList
    else if c == '\x7b' then s.takeOpening .openMap
    else if c == ']' then s.takeClosing .closeList
    else if c == '\x7d' then s.takeClosing .closeMap
    else if c == ',' then s.takeComma
    else if c == '-' && endsWord r then s.takeItem
    else if c == '?' && (s.inFlow || endsWord r) then s.takeKeyMark
    else if c == ':' && (s.inFlow || endsWord r) then s.takeValueMark
    else if c == '*' then s.takeName .alias
    else if c == '&' then s.takeName .anchor
    else if c == '!' then s.takeTag
    else if !s.inFlow && (c == '|' || c == '>') then s.takeBlockScalar (c == '>')
    else if c == '\x27' || c == '\x22' then s.takeQuoted c
    else if startsPlain s.inFlow (c :: r) then s.takePlain
    else none

/-- All tokens in order. Each takes at least one character, so `fuel` may be one more than the
number of characters. -/
def tokens? : Nat → Scan → Option (List Token)
  | 0, _ => none
  | fuel + 1, s => do
    let (place, keyAllowed) :=
      skipBlanks s.inFlow s.keyAllowed false s.place.line s.place.column s.place.rest
    let s ← { s with place, keyAllowed }.forgetPast
    let s := s.closeBlocks (place.column < ·)
    if place.rest.isEmpty then
      let s ← (s.closeBlocks fun _ => true).forgetKeyStart
      some s.tokens.reverse
    else
      let s ← s.takeToken
      tokens? fuel s

end Scan

/-- The tokens of a document. A byte order mark at its start does not count. -/
def tokens? (source : List Char) : Option (List Token) :=
  let text := settleBreaks (if source.head? = some '\ufeff' then source.tail else source)
  if source.all isAllowed then Scan.tokens? (text.length + 1) { place := { rest := text } }
  else none

end RenderPlan.Document
