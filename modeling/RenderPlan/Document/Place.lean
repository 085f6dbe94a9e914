/-!
Places in a YAML document: what has not been read yet, and the line and column where it starts. A
line ends at a line feed, a line separator or a paragraph separator; other breaks are made into line
feeds first. Three dashes or three dots at the start of a line, with a blank or nothing behind them,
are a mark between documents.
-/
namespace RenderPlan.Document

structure Place where
  rest : List Char
  line : Nat := 0
  column : Nat := 0
  deriving DecidableEq, Repr

/-- The characters that a document may hold. -/
def isAllowed (c : Char) : Bool :=
  let n := c.toNat
  n == 0x09 || n == 0x0A || n == 0x0D || (0x20 ≤ n && n ≤ 0x7E) || n == 0x85
    || (0xA0 ≤ n && n ≤ 0xFFFD) || 0x10000 ≤ n

/-- Makes carriage returns, alone or before a line feed, and next lines into line feeds. -/
def settleBreaks : List Char → List Char
  | [] => []
  | '\r' :: '\n' :: r => '\n' :: settleBreaks r
  | c :: r => (if c == '\r' || c == '\u0085' then '\n' else c) :: settleBreaks r

def isSpace (c : Char) : Bool := c == ' ' || c == '\t'

def isBreak (c : Char) : Bool := c == '\n' || c == '\u2028' || c == '\u2029'

/-- Whether a word that came before this text has ended. -/
def endsWord (s : List Char) : Bool := s.head?.all fun c => isSpace c || isBreak c

/-- Whether a line starts with a mark made of `c`. -/
def isMark (c : Char) (s : List Char) : Bool := s.take 3 == [c, c, c] && endsWord (s.drop 3)

/-- Whether a line starts with a mark between documents. -/
def separates (s : List Char) : Bool := isMark '-' s || isMark '.' s

/-- The place `n` characters further on the same line. -/
def Place.skip (n : Nat) (p : Place) : Place :=
  { p with rest := p.rest.drop n, column := p.column + n }

/-- The place of the next token, and whether a key may start there. A comment runs to the end of its
line, and a new line may start with a key except inside brackets. Tabs do not indent: outside
brackets they are passed over only where no key may start. -/
def skipBlanks (flow keyAllowed comment : Bool) (line column : Nat) : List Char → Place × Bool
  | [] => (⟨[], line, column⟩, keyAllowed)
  | c :: r =>
    if isBreak c then skipBlanks flow (keyAllowed || !flow) false (line + 1) 0 r
    else if comment || c == '#' then skipBlanks flow keyAllowed true line (column + 1) r
    else if c == ' ' || (c == '\t' && (flow || !keyAllowed)) then
      skipBlanks flow keyAllowed false line (column + 1) r
    else (⟨c :: r, line, column⟩, keyAllowed)

end RenderPlan.Document
