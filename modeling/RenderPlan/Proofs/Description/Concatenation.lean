import RenderPlan.Description.Cursor
import RenderPlan.Proofs.Description.Likeness
import RenderPlan.Proofs.Description.Step
import RenderPlan.Proofs.Text.Lines
import RenderPlan.Proofs.Text.Trim
/-!
Descriptions written one behind the other. A text that can be read may be followed by any text that
begins with an opener at the start of a line: the blocks of both stand one after the other in the
plan, and an error in the second text is found in it as before, behind the lines of the first.
-/
namespace RenderPlan

open RenderPlan.Text

/-- The blocks of a second plan behind those of the first, which gives the name and the version. -/
def Plan.join (a b : Plan) : Plan where
  name := a.name
  version := a.version
  buffers := a.buffers ++ b.buffers
  passes := a.passes ++ b.passes
  shaders := a.shaders ++ b.shaders
  textures := a.textures ++ b.textures

@[simp] theorem Plan.join_empty (a : Plan) : a.join {} = a := by
  simp [Plan.join]

namespace Description

/-- Whether a line is a field at the start of the line whose keyword opens a block. -/
def Line.opensBlock (l : Line) : Bool :=
  l.field?.any fun f =>
    f.atLineStart && (Keyword.ofText? (String.ofList f.keyword)).any Keyword.opensBlock

/-- Where the text may end, a block is open that can be ended, and a line that is meaningful and
opens no list is read as a field of it. -/
theorem fieldLine_of_finish {s : State} {p : Plan} (h : s.finish = .ok p) :
    ∃ block, closeBlock s.plan block = .ok p ∧ ∀ l : Line, isIgnorable l.text = false →
      startsWith '[' l.text = false → s.feed l = fieldLine s.plan block l := by
  obtain ⟨plan, mode⟩ := s
  cases mode with
  | fields block =>
    refine ⟨block, h, fun l hl _ => ?_⟩
    simp [State.feed, Mode.skips, consume, hl]
  | expectOutputs a n buffer =>
    refine ⟨.pass (withOutputs a buffer []), h, fun l hl ho => ?_⟩
    simp [State.feed, Mode.skips, consume, hl, ho]
  | _ => cases h

/-- Where the text may end, blank lines and comments change nothing. -/
theorem feed_ignorable_of_finish {s : State} {p : Plan} (h : s.finish = .ok p) {l : Line}
    (hl : isIgnorable l.text = true) : s.feed l = .ok s := by
  obtain ⟨plan, mode⟩ := s
  cases mode with
  | fields block => simp [State.feed, Mode.skips, hl]
  | expectOutputs a n buffer => simp [State.feed, Mode.skips, hl]
  | _ => cases h

/-- The first character of a line at whose start a keyword stands is that of the keyword. -/
theorem head_of_field {n : Nat} {text : List Char} {f : Field} (hf : Field.read? n text = some f)
    (hs : f.atLineStart = true) (hk : f.keyword ≠ []) :
    ∃ c r t, text = c :: r ∧ f.keyword = c :: t ∧ isBlank c = false := by
  rw [Field.read?, Option.map_eq_some_iff] at hf
  obtain ⟨⟨k, v⟩, hcut, rfl⟩ := hf
  obtain ⟨rfl, -⟩ := cutAt_eq_some_iff.mp hcut
  cases k with
  | nil => simp at hk
  | cons c k =>
    have hc : isBlank c = false := by simpa [isIndented] using hs
    exact ⟨c, k ++ ':' :: v, trimEnd k, rfl, trim_cons_solid hc k, hc⟩

theorem startsWith_cons_solid {c : Char} (h : isBlank c = false) (d : Char) (r : List Char) :
    startsWith d (c :: r) = (c == d) := by
  simp [startsWith, trimStart_cons_solid h]

/-- The parts of an opener, and that such a line is no comment and opens no list. -/
theorem opener_parts {l : Line} (h : l.opensBlock = true) :
    ∃ f k, l.field? = some f ∧ f.atLineStart = true ∧
      Keyword.ofText? (String.ofList f.keyword) = some k ∧ k.opensBlock = true ∧
      isIgnorable l.text = false ∧ startsWith '[' l.text = false := by
  rw [Line.opensBlock, Option.any_eq_true] at h
  obtain ⟨f, hf, h⟩ := h
  rw [Bool.and_eq_true, Option.any_eq_true] at h
  obtain ⟨hs, k, hk, ho⟩ := h
  have hspell := congrArg String.toList (Keyword.ofText?_eq_some_iff.mp hk)
  rw [String.toList_ofList] at hspell
  have hne : f.keyword ≠ [] := by
    rw [← hspell]
    cases k <;> decide
  obtain ⟨c, r, t, htext, hkey, hc⟩ := head_of_field hf hs hne
  rw [hkey] at hspell
  have hfirst : c ≠ '-' ∧ c ≠ '[' := by
    cases k <;> first | (cases ho; done) | (cases hspell; decide)
  refine ⟨f, k, hf, hs, hk, ho, ?_, ?_⟩
  · rw [htext, isIgnorable, isComment, startsWith_cons_solid hc, trimStart_cons_solid hc]
    simp [hfirst.1]
  · rw [htext, startsWith_cons_solid hc]
    simp [hfirst.2]

/-- An opener ends the block before it and starts its own; nothing else of what was read before
counts, so all states in which the text may end take it alike. -/
theorem opener_alike {r : Likeness} {s t : State} {p q : Plan} (hs : s.finish = .ok p)
    (ht : t.finish = .ok q) (hpq : r.plan p q) {l : Line} (hl : l.opensBlock = true) :
    Alike r.line r.OfState (s.feed l) (t.feed (l.renumber r.line)) := by
  obtain ⟨f, k, hf, hstart, hk, ho, hi, hb⟩ := opener_parts hl
  obtain ⟨b, hnew⟩ := newBlock_of_opensBlock ho f.text
  obtain ⟨bs, hbs, hfeed⟩ := fieldLine_of_finish hs
  obtain ⟨bt, hbt, hfeed'⟩ := fieldLine_of_finish ht
  rw [hfeed l hi hb, hfeed' (l.renumber r.line) hi hb, fieldLine, fieldLine, Line.field?_renumber,
    hf]
  simp only [Option.map_some, Field.keyword_renumber, hk, blockField, Field.text_renumber, hnew,
    opensBlockIn, ho, hstart, Field.atLineStart_renumber, Bool.true_or, Bool.and_self]
  rw [hbs, hbt]
  apply Alike.ite Iff.rfl
  · intro _
    exact Likeness.malformedValue_alike _ f
  · intro _
    exact .ok (.inBlock hpq (Likeness.newBlock_alike hnew))

/-- From states in which the text may end, texts that begin with an opener are read alike.
The induction is on the lines before the opener, which are blank or comments and change nothing. -/
theorem finishAfter_alike_of_opener {r : Likeness} {s t : State} {p q : Plan}
    (hs : s.finish = .ok p) (ht : t.finish = .ok q) (hpq : r.plan p q) (ls : List Line)
    (h : ∀ l, (Cursor.mk ls).peek? = some l → l.opensBlock = true) :
    Alike r.line r.plan (s.feedAll ls >>= State.finish)
      (t.feedAll (ls.map (Line.renumber r.line)) >>= State.finish) := by
  induction ls with
  | nil =>
    rw [List.map_nil, State.feedAll_nil, State.feedAll_nil]
    change Alike r.line r.plan s.finish t.finish
    rw [hs, ht]
    exact .ok hpq
  | cons l ls ih =>
    rw [List.map_cons, State.feedAll_cons, State.feedAll_cons]
    cases hl : isIgnorable l.text with
    | true =>
      rw [feed_ignorable_of_finish hs hl, feed_ignorable_of_finish ht (by exact hl)]
      apply ih
      intro m hm
      apply h m
      simpa [Cursor.peek?, Cursor.skip, hl] using hm
    | false =>
      have ho : l.opensBlock = true := h l (by simp [Cursor.peek?, Cursor.skip, hl])
      rw [bind_assoc, bind_assoc]
      exact (opener_alike hs ht hpq ho).bind fun _ _ hst => Likeness.finishAfter_alike hst ls

/-- The likeness of a reading and one that stands behind `n` lines that describe `a`. -/
def Likeness.behind (a : Plan) (n : Nat) : Likeness :=
  { ofRenumbering (· + n) with
    plan := fun p q => q = a.join p
    root := False
    name := fun h => h.elim
    version := fun h => h.elim
    addBuffer := fun h b => by simp only [h, Plan.join, List.append_assoc]
    addPass := fun h b => by simp only [h, Plan.join, List.append_assoc]
    addTexture := fun h b => by simp only [h, Plan.join, List.append_assoc]
    addShader := fun h hs => by
      cases hs
      simp only [h, Plan.join, List.append_assoc] }

theorem Likeness.eq_of_behind (a : Plan) (n : Nat) {x y : Except Error Plan} :
    Alike (behind a n).line (behind a n).plan x y →
      y = match x with
        | .ok b => .ok (a.join b)
        | .error e => .error (e.renumber (· + n)) := by
  intro h
  cases h with
  | ok h => exact congrArg Except.ok h
  | error e => rfl

/-- The lines of two texts, those of the second numbered behind those of the first. -/
theorem linesOf_append {a : List Char} (h : EndsLine a) (b : List Char) :
    linesOf (a ++ b) =
      linesOf a ++ (linesOf b).map (Line.renumber (· + (lines a).length)) := by
  have hb : (linesOf b).map (Line.renumber (· + (lines a).length)) =
      numberFrom (1 + (lines a).length) (lines b) := by
    apply map_renumber_numberFrom
    intro i _
    omega
  rw [hb, linesOf, linesOf, lines_append h, numberFrom_append]

/-- A text that begins with an opener is read behind another as on its own. Its blocks follow
those of the first plan, kind by kind; an error in it is the same, the lines before it counted. -/
theorem read_append {front back : String} {a : Plan} (hf : EndsLine front.toList)
    (ha : read front = .ok a)
    (hb : ∀ l, (Cursor.ofText back.toList).peek? = some l → l.opensBlock = true) :
    read (front ++ back) =
      match read back with
      | .ok b => .ok (a.join b)
      | .error e => .error (e.renumber (· + (lines front.toList).length)) := by
  obtain ⟨s, hs, hfinish⟩ := read_eq_ok_iff.mp ha
  have hstart : State.initial.finish = .ok {} := rfl
  have hread : read (front ++ back) =
      (s.feedAll ((linesOf back.toList).map (Line.renumber (· + (lines front.toList).length)))
        >>= State.finish) := by
    rw [read, readLines, String.toList_append, linesOf_append hf, State.feedAll_append, hs]
    rfl
  have halike := finishAfter_alike_of_opener (r := .behind a (lines front.toList).length) hstart
    hfinish (a.join_empty).symm (linesOf back.toList) hb
  rw [hread]
  exact Likeness.eq_of_behind a (lines front.toList).length halike

/-- A pass that may still name its outputs ends at the opener of the second text, and the list that
this text leaves open is reported on its own line there, the third one behind three. -/
theorem read_append_open_list :
    read "name: n\npass: p\n  outputs: b\n" =
        .ok { name := "n", passes := [{ name := "p", outputBuffer := "b" }] } ∧
      read "- next\nshader: s\n  uniforms: [u: mat4\n" =
        .error ⟨3, .malformedList .uniform "[u: mat4"⟩ ∧
      read ("name: n\npass: p\n  outputs: b\n" ++ "- next\nshader: s\n  uniforms: [u: mat4\n") =
        .error ⟨6, .malformedList .uniform "[u: mat4"⟩ := by
  have hback : read "- next\nshader: s\n  uniforms: [u: mat4\n" =
      .error ⟨3, .malformedList .uniform "[u: mat4"⟩ := by rfl
  have hfront : read "name: n\npass: p\n  outputs: b\n" =
      .ok { name := "n", passes := [{ name := "p", outputBuffer := "b" }] } := by rfl
  refine ⟨hfront, hback, ?_⟩
  rw [read_append (by decide) hfront, hback]
  · rfl
  · intro l hl
    cases hl
    decide

end Description
end RenderPlan
