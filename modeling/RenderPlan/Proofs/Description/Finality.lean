import RenderPlan.Proofs.Description.Concatenation
/-!
Errors that are final. An error that a line brings about is the error of every text that goes on
behind that line. Only an open stage, list, body or `outputs` field is reported where the text ends,
so an error of any other cause was brought about by a line, and nothing written behind changes it.
-/
namespace RenderPlan.Description

open RenderPlan.Text

/-- The causes that the end of a text never brings about. -/
def Cause.IsFinal : Cause → Prop
  | unknownKeyword _ | missingColon _ | notBoolean _ _ | missingFence _ => True
  | malformedValue field _ => field ≠ Keyword.outputs.spelling
  | malformedList _ _ | missingSource _ | unexpectedEnd => False

theorem not_isFinal_of_closeBlock {plan : Plan} {block : Block} {e : Error}
    (h : closeBlock plan block = .error e) : ¬ e.cause.IsFinal := by
  cases block with
  | shader s stage =>
    cases stage with
    | none => cases h
    | some st =>
      simp only [closeBlock, closeStage] at h
      split at h
      · cases h
      · cases h
        exact id
  | _ => cases h

/-- What is left open at the end of the text is none of the final causes. -/
theorem not_isFinal_of_finish {s : State} {e : Error} (h : s.finish = .error e) :
    ¬ e.cause.IsFinal := by
  obtain ⟨plan, mode⟩ := s
  cases mode with
  | fields block => exact not_isFinal_of_closeBlock h
  | expectOutputs p n buffer => cases h
  | expectBuffer p n =>
    cases h
    exact fun hne => hne rfl
  | expectList field n =>
    cases h
    exact id
  | list field n opening inner =>
    cases h
    exact id
  | expectFence s st n =>
    cases h
    exact id
  | body s st n captured =>
    cases h
    exact id

/-- An error with a final cause was found on a line, before the end of the text. -/
theorem feedAll_of_isFinal {ls : List Line} {e : Error} (h : readLines ls = .error e)
    (hc : e.cause.IsFinal) : State.initial.feedAll ls = .error e := by
  unfold readLines at h
  cases hs : State.initial.feedAll ls with
  | error e' =>
    rw [hs] at h
    cases h
    rfl
  | ok s =>
    rw [hs] at h
    exact absurd hc (not_isFinal_of_finish h)

/-- Lines that bring about an error do so whatever lines follow. -/
theorem readLines_append_of_error {ls : List Line} {e : Error}
    (h : State.initial.feedAll ls = .error e) (ms : List Line) :
    readLines (ls ++ ms) = .error e := by
  rw [readLines, State.feedAll_append, h]
  rfl

/-- An error with a final cause stays the error of the text, whatever is written behind it. -/
theorem read_append_of_isFinal {front : String} {e : Error} (hf : EndsLine front.toList)
    (he : read front = .error e) (hc : e.cause.IsFinal) (back : String) :
    read (front ++ back) = .error e := by
  have hfront : State.initial.feedAll (linesOf front.toList) = .error e := feedAll_of_isFinal he hc
  rw [read, String.toList_append, linesOf_append hf]
  exact readLines_append_of_error hfront _

/-- A scale that is no number stays the error, though the text behind repeats the field rightly and
would leave a list and a fence open. -/
theorem read_append_of_isFinal_scale :
    read "texture: t\n  scale: wide\n" = .error ⟨2, .malformedValue "scale" "wide"⟩ ∧
      (Cause.malformedValue "scale" "wide").IsFinal ∧
      read ("texture: t\n  scale: wide\n" ++ "  scale: 2\nshader: s\n uniforms: [\n ```") =
        .error ⟨2, .malformedValue "scale" "wide"⟩ := by
  have hfront : read "texture: t\n  scale: wide\n" =
      .error ⟨2, .malformedValue "scale" "wide"⟩ := by rfl
  have hfinal : (Cause.malformedValue "scale" "wide").IsFinal := by
    change "scale" ≠ "outputs"
    decide
  exact ⟨hfront, hfinal, read_append_of_isFinal (by decide) hfront hfinal _⟩

end RenderPlan.Description
