import RenderPlan.Command
import RenderPlan.Proofs.Text.Lines
/-!
Ends of lines. In a text without carriage returns, any line feed may be given one, and the end of
the last line may be written or left out: the lines stay the same, those of bodies included. So the
same plan and the same programs come of the text, or the same error on the same line.
-/
namespace RenderPlan

namespace Text

/-- A text with a carriage return before the line feeds that are chosen, the first one being the one
of number `n`. -/
def addReturns (chosen : Nat → Bool) : Nat → List Char → List Char
  | _, [] => []
  | n, c :: s =>
    if c = '\n' then
      (if chosen n then ['\r', '\n'] else ['\n']) ++ addReturns chosen (n + 1) s
    else c :: addReturns chosen n s

/-- The induction is on the text; `front` is what has been passed of its first line. -/
theorem lines_append_addReturns (chosen : Nat → Bool) (n : Nat) {front s : List Char}
    (hn : '\n' ∉ front) (hr : '\r' ∉ front) (hs : '\r' ∉ s) :
    lines (front ++ addReturns chosen n s) = lines (front ++ s) := by
  induction s generalizing n front with
  | nil => rfl
  | cons c s ih =>
    rw [List.mem_cons, not_or] at hs
    by_cases hc : c = '\n'
    · subst hc
      have hrest : lines ([] ++ addReturns chosen (n + 1) s) = lines ([] ++ s) :=
        ih (n + 1) List.not_mem_nil List.not_mem_nil hs.2
      rw [List.nil_append, List.nil_append] at hrest
      rw [addReturns, if_pos rfl, lines_first hn, dropReturn_of_not_mem hr]
      split
      · have hreturn : '\n' ∉ front ++ ['\r'] := by simpa using hn
        have hsplit : front ++ (['\r', '\n'] ++ addReturns chosen (n + 1) s) =
            (front ++ ['\r']) ++ '\n' :: addReturns chosen (n + 1) s := by simp
        rw [hsplit, lines_first hreturn, dropReturn_append_return, hrest]
      · rw [List.singleton_append, lines_first hn, dropReturn_of_not_mem hr, hrest]
    · have hn' : '\n' ∉ front ++ [c] := by simpa using ⟨hn, Ne.symm hc⟩
      have hr' : '\r' ∉ front ++ [c] := by simpa using ⟨hr, hs.1⟩
      rw [addReturns, if_neg hc]
      simpa using ih n hn' hr' hs.2

/-- Carriage returns before line feeds do not change the lines of a text that has no others. -/
theorem lines_addReturns (chosen : Nat → Bool) (n : Nat) {s : List Char} (h : '\r' ∉ s) :
    lines (addReturns chosen n s) = lines s :=
  lines_append_addReturns chosen n List.not_mem_nil List.not_mem_nil h

/-- Nor does a line feed that ends the last line. -/
theorem lines_append_end {s : List Char} (hne : s ≠ []) (hr : '\r' ∉ s)
    (hend : s.getLast? ≠ some '\n') : lines (s ++ ['\n']) = lines s := by
  obtain ⟨t, c, rfl⟩ : ∃ t c, s = t ++ [c] :=
    ⟨s.dropLast, s.getLast hne, (List.dropLast_concat_getLast hne).symm⟩
  have hc : ∀ d ∈ [c], (d == '\n') = false := by simpa using hend
  obtain ⟨ps, p, -, hpieces⟩ := pieces_append_keep hc t
  have hkeep : ∀ q ∈ ps ++ [p ++ [c]], dropReturn q = q := by
    intro q hq
    rw [← hpieces] at hq
    exact dropReturn_of_not_mem fun hm => hr (mem_of_mem_pieces hq _ hm).1
  have hended : lines (t ++ [c] ++ ['\n']) = ps ++ [p ++ [c]] := by
    rw [lines_append_newline, hpieces, List.map_congr_left hkeep, List.map_id']
    exact List.append_nil _
  have hopen : lines (t ++ [c]) = ps ++ [p ++ [c]] := by
    rw [lines, hpieces, settleLines_append ps (List.cons_ne_nil _ _), settleLines,
      if_neg (by simp), List.map_congr_left fun q hq => hkeep q (by simp [hq]), List.map_id']
  rw [hended, hopen]

end Text

open RenderPlan.Text

theorem compile_congr {s t : String} (h : lines s.toList = lines t.toList) (settings : Settings) :
    compile settings s = compile settings t := by
  rw [compile, compile, Description.read, Description.read, Description.linesOf,
    Description.linesOf, h]

/-- How the lines of a text are ended does not matter. -/
theorem compile_line_ends (settings : Settings) :
    (∀ (chosen : Nat → Bool) (s : String), '\r' ∉ s.toList →
      compile settings (String.ofList (addReturns chosen 0 s.toList)) = compile settings s) ∧
    ∀ s : String, s ≠ "" → '\r' ∉ s.toList → s.toList.getLast? ≠ some '\n' →
      compile settings (s ++ "\n") = compile settings s := by
  refine ⟨fun chosen s hs => compile_congr ?_ settings, fun s hne hr hend =>
    compile_congr ?_ settings⟩
  · rw [String.toList_ofList, lines_addReturns chosen 0 hs]
  · rw [String.toList_append]
    exact lines_append_end (by simpa using hne) hr hend

/-- A text with lines of a list and of a body, whose last line does not end. -/
def openText : String :=
  "shader: s\n uniforms: [a: int,\n  b: int]\n vsh:\n  source: \x60\n x \n\n\x60"

/-- The plan of this text. -/
def openPlan : Plan :=
  { shaders := [{ name := "s"
                  vertexBody := " x \n\n"
                  uniforms := [⟨"a", .scalar .int, ""⟩, ⟨"b", .scalar .int, ""⟩] }] }

/-- Every other line feed gets a return, in the list and in the body too. -/
theorem compile_line_ends_openText :
    '\r' ∉ openText.toList ∧ openText.toList.getLast? ≠ some '\n' ∧
      compile {} ("shader: s\n uniforms: [a: int,\r\n  b: int]\n vsh:\r\n  source: \x60\n" ++
        " x \r\n\n\x60") = .ok (openPlan, openPlan.programs {}) ∧
      compile {} (openText ++ "\n") = .ok (openPlan, openPlan.programs {}) := by
  have hr : '\r' ∉ openText.toList := by decide
  have hend : openText.toList.getLast? ≠ some '\n' := by decide
  have hreturned : "shader: s\n uniforms: [a: int,\r\n  b: int]\n vsh:\r\n  source: \x60\n" ++
      " x \r\n\n\x60" = String.ofList (addReturns (· % 2 == 1) 0 openText.toList) := by decide
  have hread : Description.read openText = .ok openPlan := by rfl
  have hcompile : compile {} openText = .ok (openPlan, openPlan.programs {}) := by
    rw [compile, hread]
    rfl
  refine ⟨hr, hend, ?_, ?_⟩
  · rw [hreturned, (compile_line_ends {}).1 _ _ hr, hcompile]
  · rw [(compile_line_ends {}).2 _ (by decide) hr hend, hcompile]

end RenderPlan
