import RenderPlan.Proofs.Description.Body
import RenderPlan.Proofs.Description.Progress
import Mathlib.Data.Nat.Find
/-!
Calls on a cursor, in any order. Whatever was called before, the cursor stands before some line of
the text or behind the last one, and no call moves it back. From there a peek finds the first line
that is neither blank nor a comment, and a capture takes all lines up to the first fence, be they
blank or comments.
-/
namespace RenderPlan.Description

open RenderPlan.Text

/-- Line `j`, counted from 0, is the first one of its kind from line `i` on. -/
structure FirstFrom (p : List Char → Bool) (ts : List (List Char)) (i j : Nat) (t : List Char) :
    Prop where
  le : i ≤ j
  line : ts[j]? = some t
  holds : p t = true
  before : ∀ k u, i ≤ k → k < j → ts[k]? = some u → p u = false

/-- No line from line `i` on is of a kind. -/
def NoneFrom (p : List Char → Bool) (ts : List (List Char)) (i : Nat) : Prop :=
  ∀ k u, i ≤ k → ts[k]? = some u → p u = false

/-- Whether a line is neither blank nor a comment. -/
def isTelling (text : List Char) : Bool := !isIgnorable text

section First

variable {p : List Char → Bool} {ts : List (List Char)} {i j : Nat} {t : List Char}

theorem firstFrom_or_noneFrom (p : List Char → Bool) (ts : List (List Char)) (i : Nat) :
    (∃ j t, FirstFrom p ts i j t) ∨ NoneFrom p ts i := by
  classical
  by_cases h : ∃ j, i ≤ j ∧ ∃ t, ts[j]? = some t ∧ p t = true
  · obtain ⟨hle, t, ht, hp⟩ := Nat.find_spec h
    refine .inl ⟨Nat.find h, t, hle, ht, hp, fun k u hk hlt hu => ?_⟩
    rw [← Bool.not_eq_true]
    exact fun hu' => Nat.find_min h hlt ⟨hk, u, hu, hu'⟩
  · refine .inr fun k u hk hu => ?_
    rw [← Bool.not_eq_true]
    exact fun hu' => h ⟨k, hk, u, hu, hu'⟩

theorem FirstFrom.unique {j' : Nat} {t' : List Char} (h : FirstFrom p ts i j t)
    (h' : FirstFrom p ts i j' t') : j = j' ∧ t = t' := by
  have hle : ∀ {j j' : Nat} {t t' : List Char}, FirstFrom p ts i j t → FirstFrom p ts i j' t' →
      j ≤ j' := by
    intro j j' t t' h h'
    by_contra hlt
    have hfalse := h.before j' t' h'.le (by omega) h'.line
    rw [h'.holds] at hfalse
    cases hfalse
  obtain rfl : j = j' := Nat.le_antisymm (hle h h') (hle h' h)
  exact ⟨rfl, Option.some.inj (h.line.symm.trans h'.line)⟩

theorem FirstFrom.not_noneFrom (h : FirstFrom p ts i j t) : ¬NoneFrom p ts i := by
  intro hnone
  have hfalse := hnone j t h.le h.line
  rw [h.holds] at hfalse
  cases hfalse

/-- The first line of the kind is the first one from itself on. -/
theorem FirstFrom.self (h : FirstFrom p ts i j t) : FirstFrom p ts j j t :=
  ⟨le_rfl, h.line, h.holds, fun _ _ hk hlt => absurd hlt (Nat.not_lt.mpr hk)⟩

/-- The lines from `i` on, cut at the first one of the kind. -/
theorem FirstFrom.drop_eq (h : FirstFrom p ts i j t) :
    ts.drop i = (ts.take j).drop i ++ ts.drop j ∧ ts.drop j = t :: ts.drop (j + 1) := by
  obtain ⟨hj, rfl⟩ := List.getElem?_eq_some_iff.mp h.line
  refine ⟨?_, List.drop_eq_getElem_cons hj⟩
  have hi : i ≤ (ts.take j).length := by
    rw [List.length_take]
    have := h.le
    omega
  rw [← List.drop_append_of_le_length hi, List.take_append_drop]

theorem FirstFrom.eq_false_of_mem (h : FirstFrom p ts i j t) :
    ∀ u ∈ (ts.take j).drop i, p u = false := by
  intro u hu
  obtain ⟨k, hk⟩ := List.mem_iff_getElem?.mp hu
  rw [List.getElem?_drop, List.getElem?_take] at hk
  split at hk
  · next hlt => exact h.before (i + k) u (by omega) hlt hk
  · cases hk

theorem NoneFrom.eq_false_of_mem (h : NoneFrom p ts i) : ∀ u ∈ ts.drop i, p u = false := by
  intro u hu
  obtain ⟨k, hk⟩ := List.mem_iff_getElem?.mp hu
  rw [List.getElem?_drop] at hk
  exact h (i + k) u (by omega) hk

end First

theorem drop_numberFrom (n i : Nat) (ts : List (List Char)) :
    (numberFrom n ts).drop i = numberFrom (n + i) (ts.drop i) := by
  induction ts generalizing n i with
  | nil => simp
  | cons t ts ih =>
    cases i with
    | zero => rfl
    | succ i => simpa [Nat.add_assoc, Nat.add_comm 1] using ih (n + 1) i

theorem mem_numberFrom {n : Nat} {ts : List (List Char)} {l : Line} (h : l ∈ numberFrom n ts) :
    l.text ∈ ts := by
  rw [← map_text_numberFrom n ts]
  exact List.mem_map_of_mem h

namespace Cursor

/-- The cursor before line `i`, counted from 0, of lines numbered from 1. -/
def before (ts : List (List Char)) (i : Nat) : Cursor := ⟨numberFrom (i + 1) (ts.drop i)⟩

theorem At.eq_before {c : Cursor} {source : List Char} {i : Nat} (h : c.At (linesOf source) i) :
    c = before (lines source) i := by
  obtain ⟨ls⟩ := c
  have hls : ls = (linesOf source).drop i := h.remaining
  rw [hls, linesOf, drop_numberFrom, Nat.add_comm]
  rfl

theorem at_before {source : List Char} {i : Nat} (h : i ≤ (lines source).length) :
    (before (lines source) i).At (linesOf source) i := by
  constructor
  · rwa [linesOf, length_numberFrom]
  · rw [linesOf, drop_numberFrom, Nat.add_comm]
    rfl

variable {ts : List (List Char)} {i j : Nat} {t : List Char}

@[simp] theorem before_length (ts : List (List Char)) : before ts ts.length = ⟨[]⟩ := by
  simp [before]

/-- Passing over lines that say nothing leads to the first one that says something. -/
theorem call_peek_of_firstFrom (h : FirstFrom isTelling ts i j t) :
    (before ts i).call .peek = (.line (some ⟨j + 1, t⟩), before ts j) := by
  obtain ⟨hi, hj⟩ := h.drop_eq
  have hlength : ((ts.take j).drop i).length = j - i := by
    obtain ⟨hlt, -⟩ := List.getElem?_eq_some_iff.mp h.line
    simp only [List.length_drop, List.length_take]
    omega
  have hnumber : i + 1 + ((ts.take j).drop i).length = j + 1 := by
    have := h.le
    omega
  have hskip : (before ts i).skip = before ts j := by
    rw [skip, before, hi, numberFrom_append, hnumber, List.dropWhile_append_of_pos, hj,
      numberFrom_cons, List.dropWhile_cons_of_neg, ← numberFrom_cons, ← hj, before]
    · have hholds := h.holds
      rw [isTelling, Bool.not_eq_true'] at hholds
      simp [hholds]
    · intro l hl
      have hfalse := h.eq_false_of_mem _ (mem_numberFrom hl)
      rwa [isTelling, Bool.not_eq_false'] at hfalse
  rw [call, peek?, hskip, before, hj]
  rfl

theorem call_peek_of_noneFrom (h : NoneFrom isTelling ts i) :
    (before ts i).call .peek = (.line none, before ts ts.length) := by
  have hskip : (before ts i).skip = ⟨[]⟩ := by
    rw [skip, before, List.dropWhile_eq_nil_iff.mpr]
    intro l hl
    have hfalse := h.eq_false_of_mem _ (mem_numberFrom hl)
    rwa [isTelling, Bool.not_eq_false'] at hfalse
  rw [call, peek?, hskip, before_length]
  rfl

theorem call_advance_of_line (h : ts[j]? = some t) :
    (before ts j).call .advance = (.nothing, before ts (j + 1)) := by
  obtain ⟨hj, rfl⟩ := List.getElem?_eq_some_iff.mp h
  rw [call, advance, before, List.drop_eq_getElem_cons hj]
  rfl

/-- What is captured are the lines before the first fence. -/
theorem call_capture_of_firstFrom (h : FirstFrom isFence ts i j t) :
    (before ts i).call .capture =
      (.captured (some (linesText ((ts.take j).drop i))), before ts (j + 1)) := by
  obtain ⟨hi, hj⟩ := h.drop_eq
  have hlength : i + 1 + ((ts.take j).drop i).length + 1 = j + 1 + 1 := by
    obtain ⟨hlt, -⟩ := List.getElem?_eq_some_iff.mp h.line
    have := h.le
    simp only [List.length_drop, List.length_take]
    omega
  rw [call, capture, before, hi, hj, captureFrom_fence h.eq_false_of_mem h.holds, hlength]
  rfl

theorem captureFrom_of_no_fence {ls : List Line} (h : ∀ l ∈ ls, isFence l.text = false) :
    captureFrom ls = (none, ⟨[]⟩) := by
  induction ls with
  | nil => rfl
  | cons l ls ih =>
    rw [captureFrom, h l (by simp), ih fun m hm => h m (by simp [hm])]
    rfl

theorem call_capture_of_noneFrom (h : NoneFrom isFence ts i) :
    (before ts i).call .capture = (.captured none, before ts ts.length) := by
  have hnone : captureFrom (before ts i).remaining = (none, ⟨[]⟩) :=
    captureFrom_of_no_fence fun l hl => h.eq_false_of_mem _ (mem_numberFrom hl)
  rw [call, capture, hnone, before_length]
  rfl

theorem call_suffix (c : Cursor) (k : Call) : (c.call k).2.remaining <:+ c.remaining := by
  cases k with
  | peek => exact c.skip_suffix
  | advance => exact List.tail_suffix _
  | capture => exact captureFrom_suffix c.remaining
  | collect text => exact c.collect_suffix text

theorem after_append (c : Cursor) (calls more : List Call) :
    c.after (calls ++ more) = (c.after calls).after more := List.foldl_append ..

/-- Calls only ever take lines off the front of those that remain. -/
theorem after_suffix (c : Cursor) (calls : List Call) :
    (c.after calls).remaining <:+ c.remaining := by
  induction calls generalizing c with
  | nil => exact List.suffix_refl _
  | cons k calls ih => exact (ih (c.call k).2).trans (c.call_suffix k)

theorem At.exists_of_suffix {c d : Cursor} {ls : List Line} {i : Nat} (h : c.At ls i)
    (hd : d.remaining <:+ c.remaining) : ∃ j, i ≤ j ∧ d.At ls j :=
  ⟨_, Nat.le_add_right _ _, h.of_suffix hd⟩

/-- What a peek does before line `i` of a text, counted from 0. It finds the first line that is
neither blank nor a comment, as it is, and stands before that line then. -/
structure Peeks (source : List Char) (c : Cursor) (i : Nat) : Prop where
  line_iff : ∀ l, (c.call .peek).1 = .line (some l) ↔
    ∃ j, l.number = j + 1 ∧ FirstFrom isTelling (lines source) i j l.text
  none_iff : (c.call .peek).1 = .line none ↔ NoneFrom isTelling (lines source) i
  passes : ∃ j, (c.call .peek).2.At (linesOf source) j ∧
    ∀ k t, i ≤ k → k < j → (lines source)[k]? = some t → isIgnorable t = true
  again : (c.call .peek).2.call .peek = c.call .peek
  advance : ∀ l, (c.call .peek).1 = .line (some l) →
    (∃ j, l.number = j + 1 ∧ (c.call .peek).2.At (linesOf source) j) ∧
    ((c.call .peek).2.call .advance).2.At (linesOf source) l.number

/-- What a capture does before line `i` of a text, counted from 0. It takes all lines before the
first fence, and this fence, or all lines that are left. -/
structure Captures (source : List Char) (c : Cursor) (i : Nat) : Prop where
  text_iff : ∀ text, (c.call .capture).1 = .captured (some text) ↔
    ∃ j t, FirstFrom isFence (lines source) i j t ∧
      text = linesText (((lines source).take j).drop i)
  none_iff : (c.call .capture).1 = .captured none ↔ NoneFrom isFence (lines source) i
  behind_fence : ∀ j t, FirstFrom isFence (lines source) i j t →
    (c.call .capture).2.At (linesOf source) (j + 1)
  at_end : (c.call .capture).1 = .captured none →
    (c.call .capture).2.At (linesOf source) (lines source).length

section Text

variable {source : List Char} {i : Nat}

theorem at_of_line {j : Nat} {t : List Char} (h : (lines source)[j]? = some t) :
    (before (lines source) j).At (linesOf source) j ∧
      (before (lines source) (j + 1)).At (linesOf source) (j + 1) := by
  obtain ⟨hj, -⟩ := List.getElem?_eq_some_iff.mp h
  exact ⟨at_before hj.le, at_before hj⟩

theorem peeks_before (source : List Char) (i : Nat) :
    (before (lines source) i).Peeks source i := by
  rcases firstFrom_or_noneFrom isTelling (lines source) i with ⟨j, t, h⟩ | h
  · have hcall := call_peek_of_firstFrom h
    have hagain : (before (lines source) j).call .peek =
        (.line (some ⟨j + 1, t⟩), before (lines source) j) :=
      call_peek_of_firstFrom h.self
    obtain ⟨hat, hnext⟩ := at_of_line h.line
    constructor
    · intro l
      constructor
      · intro hl
        rw [hcall] at hl
        cases hl
        exact ⟨j, rfl, h⟩
      · rintro ⟨k, hk, hl⟩
        obtain ⟨rfl, rfl⟩ := h.unique hl
        rw [hcall, ← hk]
    · refine iff_of_false ?_ h.not_noneFrom
      rw [hcall]
      simp
    · rw [hcall]
      refine ⟨j, hat, fun k u hk hlt hu => ?_⟩
      simpa [isTelling] using h.before k u hk hlt hu
    · rw [hcall]
      exact hagain
    · intro l hl
      rw [hcall] at hl ⊢
      cases hl
      refine ⟨⟨j, rfl, hat⟩, ?_⟩
      rw [call_advance_of_line h.line]
      exact hnext
  · have hcall := call_peek_of_noneFrom h
    have hend : (before (lines source) (lines source).length).At (linesOf source) _ :=
      at_before le_rfl
    constructor
    · intro l
      refine iff_of_false ?_ ?_
      · rw [hcall]
        simp
      · rintro ⟨j, -, hl⟩
        exact hl.not_noneFrom h
    · rw [hcall]
      exact iff_of_true rfl h
    · rw [hcall]
      refine ⟨_, hend, fun k u hk _ hu => ?_⟩
      simpa [isTelling] using h k u hk hu
    · rw [hcall, before_length]
      rfl
    · intro l hl
      rw [hcall] at hl
      cases hl

theorem captures_before (source : List Char) (i : Nat) :
    (before (lines source) i).Captures source i := by
  rcases firstFrom_or_noneFrom isFence (lines source) i with ⟨j, t, h⟩ | h
  · have hcall := call_capture_of_firstFrom h
    constructor
    · intro text
      rw [hcall]
      constructor
      · intro htext
        cases htext
        exact ⟨j, t, h, rfl⟩
      · rintro ⟨k, u, hk, rfl⟩
        obtain ⟨rfl, rfl⟩ := h.unique hk
        rfl
    · refine iff_of_false ?_ h.not_noneFrom
      rw [hcall]
      simp
    · intro k u hk
      obtain ⟨rfl, rfl⟩ := h.unique hk
      rw [hcall]
      exact (at_of_line h.line).2
    · rw [hcall]
      simp
  · have hcall := call_capture_of_noneFrom h
    constructor
    · intro text
      refine iff_of_false ?_ ?_
      · rw [hcall]
        simp
      · rintro ⟨j, t, hj, -⟩
        exact hj.not_noneFrom h
    · rw [hcall]
      exact iff_of_true rfl h
    · intro j t hj
      exact absurd h hj.not_noneFrom
    · rw [hcall]
      exact fun _ => at_before le_rfl

end Text

/-- A new cursor stands before the first line. Wherever calls have led it, it stands before a line
of the text or behind the last one, and calls lead it on from there, never back. Its peeks and
captures find the first line of their kind from there on. -/
theorem stands_after_calls (source : List Char) (calls : List Call) :
    (ofText source).At (linesOf source) 0 ∧
    ∃ i, ((ofText source).after calls).At (linesOf source) i ∧
      (∀ more, ∃ j, i ≤ j ∧ ((ofText source).after (calls ++ more)).At (linesOf source) j) ∧
      ((ofText source).after calls).Peeks source i ∧
      ((ofText source).after calls).Captures source i := by
  have hstart : (ofText source).At (linesOf source) 0 := ⟨Nat.zero_le _, rfl⟩
  obtain ⟨i, -, hi⟩ := hstart.exists_of_suffix (after_suffix _ calls)
  refine ⟨hstart, i, hi, fun more => ?_, ?_, ?_⟩
  · rw [after_append]
    exact hi.exists_of_suffix (after_suffix _ more)
  · rw [hi.eq_before]
    exact peeks_before source i
  · rw [hi.eq_before]
    exact captures_before source i

/-- A capture takes the blank line and the comment that a peek passes over. -/
example :
    (ofText "\n- c\n\x60\n".toList).call .peek = (.line (some ⟨3, ['\x60']⟩), ⟨[⟨3, ['\x60']⟩]⟩) ∧
      (ofText "\n- c\n\x60\n".toList).call .capture =
        (.captured (some "\n- c\n".toList), ⟨[]⟩) := by
  constructor <;> rfl

end Cursor
end RenderPlan.Description
