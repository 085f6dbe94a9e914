import RenderPlan.Document.Place
/-!
Block scalars of a YAML document: the lines below a `|` or a `>` that are indented more than what
they belong to, without that indentation. Below a `>`, lines that do not start with a blank are
joined by spaces. A header may give the indentation and say which line breaks at the end stay.
-/
namespace RenderPlan.Document

/-- Which line breaks at the end of a block scalar stay: none, the first or all. -/
inductive Chomp where
  | strip
  | clip
  | keep
  deriving DecidableEq, Repr

structure BlockHeader where
  folded : Bool
  chomp : Chomp := .clip
  /-- How much deeper the lines are, if the header says so. -/
  deeper : Option Nat := none
  deriving DecidableEq, Repr

namespace BlockHeader

def takeChomp (h : BlockHeader) : List Char → BlockHeader × List Char
  | '+' :: r => ({ h with chomp := .keep }, r)
  | '-' :: r => ({ h with chomp := .strip }, r)
  | s => (h, s)

/-- A digit from one to nine. -/
def takeDigit (h : BlockHeader) : List Char → Option (BlockHeader × List Char)
  | [] => some (h, [])
  | c :: r =>
    if c = '0' then none
    else if c.isDigit then some ({ h with deeper := some (c.toNat - 48) }, r)
    else some (h, c :: r)

/-- The two parts of a header in either order, and the rest of the text. -/
def take? (folded : Bool) (s : List Char) : Option (BlockHeader × List Char) := do
  let h : BlockHeader := { folded }
  if s.head?.any fun c => c == '+' || c == '-' then
    let (h, r) := h.takeChomp s
    h.takeDigit r
  else
    let (h, r) ← h.takeDigit s
    if h.deeper.isSome then some (h.takeChomp r) else some (h, r)

end BlockHeader

/-- The indentation of a block scalar, which is that of its first line with any text, or of a line
of spaces before it if that is deeper. Tabs do not indent. -/
def findIndent? (deepest column : Nat) : List Char → Option Nat
  | [] => some (max deepest column)
  | c :: r =>
    if isBreak c then findIndent? (max deepest column) 0 r
    else if c = ' ' then findIndent? deepest (column + 1) r
    else if c = '\t' then none
    else some (max deepest column)

/-- How far the lines of a block scalar have been read. The break that ended the last line with any
text and those after it are still to be added. -/
structure BlockLines where
  inLine : Bool := false
  startedBlank : Bool := false
  ended : List Char := []
  more : List Char := []
  deriving DecidableEq, Repr

namespace BlockLines

/-- What goes between the last line and one that starts with a blank or not. -/
def join (folded blank : Bool) (b : BlockLines) : List Char :=
  if folded && b.ended == ['\n'] && !b.startedBlank && !blank then
    if b.more.isEmpty then [' '] else b.more
  else b.ended ++ b.more

/-- What stays of the breaks at the end. -/
def rest (chomp : Chomp) (b : BlockLines) : List Char :=
  match chomp with
  | .strip => []
  | .clip => b.ended
  | .keep => b.ended ++ b.more

end BlockLines

/-- The lines indented by `indent` or more, joined, and the place after them. -/
def takeBlockLines (h : BlockHeader) (indent line column : Nat) (b : BlockLines) :
    List Char → Option (List Char × Place)
  | [] => some (b.rest h.chomp, ⟨[], line, column⟩)
  | c :: r =>
    if isBreak c then
      takeBlockLines h indent (line + 1) 0
        (if b.inLine then ⟨false, b.startedBlank, [c], []⟩ else { b with more := b.more ++ [c] }) r
    else if b.inLine then
      (takeBlockLines h indent line (column + 1) b r).map fun (t, p) => (c :: t, p)
    else if column < indent then
      if c = ' ' then takeBlockLines h indent line (column + 1) b r
      else if c = '\t' then none
      else some (b.rest h.chomp, ⟨c :: r, line, column⟩)
    else
      (takeBlockLines h indent line (column + 1) ⟨true, isSpace c, [], []⟩ r).map fun (t, p) =>
        (b.join h.folded (isSpace c) ++ c :: t, p)

/-- The block scalar behind the character that announces it, and the place after it. `parent` is the
indentation of what it belongs to, if that has any. -/
def takeBlockScalar (folded : Bool) (parent : Option Nat) (line : Nat) (s : List Char) :
    Option (List Char × Place) := do
  let (h, r) ← BlockHeader.take? folded s
  let r := r.dropWhile isSpace
  let r := if r.head? = some '#' then r.dropWhile fun c => !isBreak c else r
  if !r.head?.all isBreak then none
  else
    let lines := r.drop 1
    let least := (parent.map (· + 1)).getD 0
    let indent ← match h.deeper with
      | some n => some (parent.getD 0 + n)
      | none => (findIndent? 0 0 lines).map fun n => max 1 (max least n)
    takeBlockLines h indent (line + 1) 0 {} lines

end RenderPlan.Document
