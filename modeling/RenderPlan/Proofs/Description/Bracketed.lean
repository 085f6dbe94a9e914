import RenderPlan.Description.Cursor
import Mathlib.Order.Bounds.Basic
/-!
Brackets that are closed on a later line. All lines up to some place, but for comments, are joined
on to the opening text; the list ends at the first closing bracket of the joined text, behind the
least number of lines that bring one in. Where none does, the text ends before the list.
-/
namespace RenderPlan.Description

open RenderPlan.Text

/-- The text behind an opening bracket with lines joined on to it; comments are left out. -/
def joined (opened : List Char) (ls : List Line) : List Char :=
  opened ++ (ls.filter fun l => !isComment l.text).flatMap fun l => '\n' :: l.text

@[simp] theorem joined_nil (opened : List Char) : joined opened [] = opened := by simp [joined]

theorem joined_cons_comment {l : Line} (h : isComment l.text = true) (opened : List Char)
    (ls : List Line) : joined opened (l :: ls) = joined opened ls := by
  simp [joined, h]

theorem joined_cons {l : Line} (h : isComment l.text = false) (opened : List Char)
    (ls : List Line) : joined opened (l :: ls) = joined (opened ++ '\n' :: l.text) ls := by
  simp [joined, h]

theorem joined_take_succ {ls : List Line} {k : Nat} {l : Line} (h : ls[k]? = some l)
    (hl : isComment l.text = false) (opened : List Char) :
    joined opened (ls.take (k + 1)) = joined opened (ls.take k) ++ '\n' :: l.text := by
  simp [joined, List.take_add_one, h, hl]

/-- Line `k`, counted from 0, is the first to bring a closing bracket in. -/
structure ClosedBy (opened : List Char) (ls : List Line) (k : Nat) (last rest : List Char) :
    Prop where
  before : ∀ j ≤ k, ']' ∉ joined opened (ls.take j)
  line : ∃ l, ls[k]? = some l ∧ isComment l.text = false ∧ l.text = last ++ ']' :: rest
  last : ']' ∉ last

/-- What is collected from a text without closing brackets and the lines below it. -/
inductive Collects (opened : List Char) (ls : List Line) :
    Option (List Char × List Char) × Cursor → Prop
  | unclosed (h : ∀ k, ']' ∉ joined opened (ls.take k)) : Collects opened ls (none, ⟨[]⟩)
  | closed {k : Nat} {last rest : List Char} (h : ClosedBy opened ls k last rest) :
      Collects opened ls
        (some (joined opened (ls.take k) ++ '\n' :: last, rest), ⟨ls.drop (k + 1)⟩)

section

variable {opened opened' : List Char} {ls : List Line} {l : Line}

/-- A line that closes nothing may be joined on first. -/
theorem Collects.cons {r : Option (List Char × List Char) × Cursor} (h : ']' ∉ opened)
    (hj : ∀ ms, joined opened (l :: ms) = joined opened' ms) (hr : Collects opened' ls r) :
    Collects opened (l :: ls) r := by
  cases hr with
  | unclosed hno =>
    refine .unclosed fun k => ?_
    cases k with
    | zero => simpa using h
    | succ k => simpa [hj] using hno k
  | @closed k last rest hk =>
    have hclosed : ClosedBy opened (l :: ls) (k + 1) last rest := by
      refine ⟨fun j hj' => ?_, hk.line, hk.last⟩
      cases j with
      | zero => simpa using h
      | succ j => simpa [hj] using hk.before j (by omega)
    simpa [hj] using Collects.closed hclosed

/-- Reading on to the line that closes a list. The induction is on the lines, each of which is a
comment, brings the closing bracket in, or is joined on. -/
theorem collects_closeBracket (h : ']' ∉ opened) (ls : List Line) :
    Collects opened ls (Cursor.closeBracket opened ls) := by
  induction ls generalizing opened with
  | nil => exact .unclosed (by simpa using h)
  | cons l ls ih =>
    rw [Cursor.closeBracket]
    by_cases hl : isComment l.text = true
    · rw [if_pos hl]
      exact (ih h).cons h (joined_cons_comment hl opened)
    · rw [if_neg hl]
      have hl : isComment l.text = false := by simpa using hl
      cases hcut : cutAt ']' l.text with
      | some p =>
        obtain ⟨last, rest⟩ := p
        obtain ⟨hsplit, hlast⟩ := cutAt_eq_some_iff.mp hcut
        have hclosed : ClosedBy opened (l :: ls) 0 last rest :=
          ⟨by simpa using h, ⟨l, rfl, hl, hsplit⟩, hlast⟩
        simpa [Bracket.extend, hcut] using Collects.closed hclosed
      | none =>
        have hnew : ']' ∉ opened ++ '\n' :: l.text := by
          simpa [h] using cutAt_eq_none_iff.mp hcut
        simp only [Bracket.extend, hcut]
        exact (ih hnew).cons h (joined_cons hl opened)

/-- The number of lines behind which the joined text first has a closing bracket. -/
theorem ClosedBy.isLeast {k : Nat} {last rest : List Char} (h : ClosedBy opened ls k last rest) :
    IsLeast {k | ']' ∈ joined opened (ls.take k)} (k + 1) := by
  obtain ⟨l, hget, hl, hsplit⟩ := h.line
  constructor
  · simp [joined_take_succ hget hl, hsplit]
  · intro j hj
    by_contra hlt
    exact h.before j (by omega) hj

end

/-- The text that ends a list behind `k` lines: the opening text itself, or the last of these lines,
which is no comment. -/
inductive ClosingText (opened : List Char) (ls : List Line) : Nat → List Char → Prop
  | opening : ClosingText opened ls 0 opened
  | line {k : Nat} {l : Line} (h : ls[k]? = some l) (hl : isComment l.text = false) :
      ClosingText opened ls (k + 1) l.text

/-- A list is closed behind `k` lines: the joined text is cut at its first closing bracket, and all
behind that bracket stands on one line. -/
structure ClosedBehind (opened : List Char) (ls : List Line) (k : Nat) (inner rest : List Char) :
    Prop where
  le_length : k ≤ ls.length
  cut : joined opened (ls.take k) = inner ++ ']' :: rest
  inner : ']' ∉ inner
  rest : ∃ last, ClosingText opened ls k (last ++ ']' :: rest) ∧ ']' ∉ last

theorem ClosedBy.closedBehind {opened : List Char} {ls : List Line} {k : Nat}
    {last rest : List Char} (h : ClosedBy opened ls k last rest) :
    ClosedBehind opened ls (k + 1) (joined opened (ls.take k) ++ '\n' :: last) rest := by
  obtain ⟨l, hget, hl, hsplit⟩ := h.line
  constructor
  · exact (List.getElem?_eq_some_iff.mp hget).1
  · simp [joined_take_succ hget hl, hsplit]
  · simp [h.before k le_rfl, h.last]
  · exact ⟨last, hsplit ▸ .line hget hl, h.last⟩

/-- What is collected from an opening bracket is the text of all lines, but for comments, up to
the first closing bracket of the joined text, together with the rest of the line that this bracket
stands on; the cursor then stands behind this line. -/
theorem collect_joined (c : Cursor) (opened : List Char) :
    (∀ k, IsLeast {k | ']' ∈ joined opened (c.remaining.take k)} k →
      ∃ inner rest, ClosedBehind opened c.remaining k inner rest ∧
        c.collect ('[' :: opened) = (some (inner, rest), ⟨c.remaining.drop k⟩)) ∧
    ((∀ k, ']' ∉ joined opened (c.remaining.take k)) →
      c.collect ('[' :: opened) = (none, ⟨[]⟩)) ∧
    ∀ text, text.head? ≠ some '[' → c.collect text = (none, c) := by
  have hstart (hopened : ']' ∉ opened) :
      c.collect ('[' :: opened) = Cursor.closeBracket opened c.remaining := by
    simp [Cursor.collect, Bracket.start, cutAt_eq_none_iff.mpr hopened]
  refine ⟨fun k hk => ?_, fun hno => ?_, fun text htext => ?_⟩
  · cases hcut : cutAt ']' opened with
    | some p =>
      obtain ⟨inner, rest⟩ := p
      obtain ⟨hsplit, hinner⟩ := cutAt_eq_some_iff.mp hcut
      obtain rfl : k = 0 := Nat.le_zero.mp (hk.2 (by simp [hsplit]))
      refine ⟨inner, rest, ⟨by simp, by simpa using hsplit, hinner, inner, ?_, hinner⟩, ?_⟩
      · exact hsplit ▸ .opening
      · simp [Cursor.collect, Bracket.start, hcut]
    | none =>
      have hopened := cutAt_eq_none_iff.mp hcut
      have hcollects := collects_closeBracket hopened c.remaining
      rw [hstart hopened]
      generalize Cursor.closeBracket opened c.remaining = r at hcollects
      cases hcollects with
      | unclosed hno => exact absurd hk.1 (hno k)
      | closed h =>
        rw [hk.unique h.isLeast]
        exact ⟨_, _, h.closedBehind, rfl⟩
  · have hopened : ']' ∉ opened := by simpa using hno 0
    have hcollects := collects_closeBracket hopened c.remaining
    rw [hstart hopened]
    generalize Cursor.closeBracket opened c.remaining = r at hcollects
    cases hcollects with
    | unclosed _ => rfl
    | closed h => exact absurd h.isLeast.1 (hno _)
  · unfold Cursor.collect
    split
    · exact absurd rfl htext
    · rfl

/-- A bracket in a comment closes nothing; the one behind it does, and its line goes on. -/
theorem collect_joined_comment :
    IsLeast {k | ']' ∈ joined " a,".toList ((linesOf "- ]\n b ] c\n]".toList).take k)} 2 ∧
      (Cursor.ofText "- ]\n b ] c\n]".toList).collect "[ a,".toList =
        (some (" a,\n b ".toList, " c".toList), ⟨[⟨3, "]".toList⟩]⟩) := by
  have hleast : IsLeast {k | ']' ∈ joined " a,".toList ((linesOf "- ]\n b ] c\n]".toList).take k)}
      2 := by
    refine ⟨by decide, fun k hk => ?_⟩
    by_contra hlt
    obtain rfl | rfl : k = 0 ∨ k = 1 := by omega
    all_goals exact absurd hk (by decide)
  obtain ⟨inner, rest, hclosed, hcollect⟩ :=
    (collect_joined (Cursor.ofText "- ]\n b ] c\n]".toList) " a,".toList).1 2 hleast
  have hcut := cutAt_eq_some_iff.mpr ⟨hclosed.cut, hclosed.inner⟩
  cases hcut
  exact ⟨hleast, hcollect⟩

end RenderPlan.Description
