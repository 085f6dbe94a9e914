/-!
Blank characters and trimming. A character is blank exactly if it has the property `White_Space`;
controls such as U+001C and format characters such as U+200B or U+FEFF are not blank. Trimming
removes blank characters from the ends of a text and never any other.
-/
namespace RenderPlan.Text

/-- First and last code points of the runs with the property `White_Space`. -/
def blankRanges : List (Nat × Nat) :=
  [(0x09, 0x0D), (0x20, 0x20), (0x85, 0x85), (0xA0, 0xA0), (0x1680, 0x1680), (0x2000, 0x200A),
   (0x2028, 0x2029), (0x202F, 0x202F), (0x205F, 0x205F), (0x3000, 0x3000)]

def isBlank (c : Char) : Bool :=
  blankRanges.any fun r => r.1 ≤ c.toNat && c.toNat ≤ r.2

/-- The text from its first character that is not blank. -/
def trimStart (s : List Char) : List Char := s.dropWhile isBlank

/-- The text up to its last character that is not blank. -/
def trimEnd : List Char → List Char
  | [] => []
  | c :: r =>
    match trimEnd r with
    | [] => if isBlank c then [] else [c]
    | d :: t => c :: d :: t

def trim (s : List Char) : List Char := trimEnd (trimStart s)

@[simp] theorem trimEnd_nil : trimEnd [] = [] := rfl
@[simp] theorem trimStart_nil : trimStart [] = [] := rfl
@[simp] theorem trim_nil : trim [] = [] := rfl

theorem length_trimStart_le (s : List Char) : (trimStart s).length ≤ s.length :=
  (List.dropWhile_suffix _).length_le

@[simp] theorem isBlank_space : isBlank ' ' = true := by decide
@[simp] theorem isBlank_newline : isBlank '\n' = true := by decide
@[simp] theorem isBlank_return : isBlank '\r' = true := by decide
@[simp] theorem isBlank_colon : isBlank ':' = false := by decide
@[simp] theorem isBlank_comma : isBlank ',' = false := by decide
@[simp] theorem isBlank_backtick : isBlank '\x60' = false := by decide
@[simp] theorem isBlank_dash : isBlank '-' = false := by decide
@[simp] theorem isBlank_opening : isBlank '[' = false := by decide
@[simp] theorem isBlank_closing : isBlank ']' = false := by decide

end RenderPlan.Text
