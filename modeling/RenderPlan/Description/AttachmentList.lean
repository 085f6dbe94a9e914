import RenderPlan.Plan.Basic
import RenderPlan.Scale.Decimal
import RenderPlan.Text.Split
/-!
Lists of attachments. Entries end at semicolons and line feeds. Within an entry, words are separated
by commas and blank characters, save that `scale`, a colon and a number make one word whatever
blanks stand around the colon. The first word names the attachment, every other one is a texel
format or a scale, and the last of each counts. The first word of another form is reported.
-/
namespace RenderPlan.Description

open RenderPlan.Text

def endsAttachment (c : Char) : Bool := c == ';' || c == '\n'

def inWord (c : Char) : Bool := !isBlank c && c != ','

/-- A word of an entry; `text` is all of it and `value` what follows the colon of a scale. -/
inductive Word where
  | plain (text : List Char)
  | scale (text value : List Char)
  deriving DecidableEq, Repr

def Word.text : Word → List Char
  | plain t => t
  | scale t _ => t

/-- What follows the colon of a scale at the start of a text. -/
def afterScale? : List Char → Option (List Char)
  | 's' :: 'c' :: 'a' :: 'l' :: 'e' :: r =>
    match trimStart r with
    | ':' :: r => some (trimStart r)
    | _ => none
  | _ => none

/-- The word at the start of a text that starts with a character of a word, and the rest. -/
def takeWord (s : List Char) : Word × List Char :=
  match afterScale? s with
  | some r =>
    let rest := r.dropWhile inWord
    (.scale (s.take (s.length - rest.length)) (r.takeWhile inWord), rest)
  | none => (.plain (s.takeWhile inWord), s.dropWhile inWord)

theorem length_afterScale? {s r : List Char} (h : afterScale? s = some r) :
    r.length < s.length := by
  unfold afterScale? at h
  split at h
  · next q =>
    split at h
    · next t ht =>
      cases h
      have h₁ := length_trimStart_le q
      have h₂ := length_trimStart_le t
      rw [ht] at h₁
      simp only [List.length_cons] at *
      omega
    · cases h
  · cases h

/-- A word leaves a shorter text, so an entry has finitely many. -/
theorem length_takeWord {c : Char} (hc : inWord c = true) (s : List Char) :
    (takeWord (c :: s)).2.length < (c :: s).length := by
  unfold takeWord
  split
  · next r h =>
    have h₁ := length_afterScale? h
    have h₂ := (List.dropWhile_suffix inWord (l := r)).length_le
    exact Nat.lt_of_le_of_lt h₂ h₁
  · have h₂ := (List.dropWhile_suffix inWord (l := s)).length_le
    simp only [List.dropWhile_cons, hc, if_true, List.length_cons]
    exact Nat.lt_succ_of_le h₂

/-- The words of an entry in reading order. -/
def wordsOf : List Char → List Word
  | [] => []
  | c :: s =>
    if _h : inWord c then
      let w := takeWord (c :: s)
      w.1 :: wordsOf w.2
    else wordsOf s
termination_by s => s.length
decreasing_by
  · exact length_takeWord _h s
  · exact Nat.lt_succ_self s.length

/-- Adds what a word after the first says, or returns the word. -/
def applyWord (t : Texture) : Word → Except (List Char) Texture
  | .scale text value =>
    match Scale.read? value with
    | some s => .ok { t with scale := s }
    | none => .error text
  | .plain text =>
    match TexelFormat.ofText? (String.ofList text) with
    | some f => .ok { t with format := f }
    | none => .error text

/-- The attachment that words describe. -/
def readWords : List Word → Except (List Char) (Option Texture)
  | [] => .ok none
  | name :: options =>
    if ':' ∈ name.text then .error name.text
    else (options.foldlM applyWord { name := String.ofList name.text }).map some

/-- The attachments of a list in order, or the first word that does not fit. -/
def readAttachments (inner : List Char) : Except (List Char) (List Texture) :=
  ((pieces endsAttachment inner).mapM fun e => readWords (wordsOf e)).map (List.filterMap id)

end RenderPlan.Description
