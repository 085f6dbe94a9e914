import RenderPlan.Proofs.Description.ListText
import RenderPlan.Proofs.Description.Step
/-!
Blank lines and comments. Outside the body of a source, such a line may be added anywhere and says
nothing: the plan stays the same, and so does an error but for the number of its line. Between
fields the line is passed over; in an open list a comment is left out and a blank line ends no entry
that holds anything.
-/
namespace RenderPlan.Description

open RenderPlan.Text

/-- The last of the first `i` texts opens the body of a source. -/
def BodyStarts (ts : List (List Char)) (i : Nat) : Prop :=
  ∃ plan s st n,
    State.initial.feedAll (numberFrom 1 (ts.take i)) = .ok ⟨plan, .body s st n []⟩

/-- The place behind the first `k` texts lies in a body: one starts there or before, and none of the
texts between is the fence that ends it. -/
def InsideBody (ts : List (List Char)) (k : Nat) : Prop :=
  ∃ i, i ≤ k ∧ BodyStarts ts i ∧ ∀ t ∈ (ts.take k).drop i, isFence t = false

/-- The lines of an open body that have been read, the last one first. -/
def Mode.captured : Mode → List (List Char)
  | .body _ _ _ captured => captured
  | _ => []

theorem ListStep.captured_eq_nil {plan : Plan} {field : ListField} {n : Nat} {opening : List Char}
    {b : Bracket} {t : State} (h : ListStep plan field n opening b t) : t.mode.captured = [] := by
  cases h <;> rfl

theorem OutputsStep.captured_eq_nil {plan : Plan} {p : Pass} {n : Nat} {value : List Char}
    {t : State} (h : OutputsStep plan p n value t) : t.mode.captured = [] := by
  cases h with
  | alone _ _ => rfl
  | withList _ _ h => exact h.captured_eq_nil

/-- A field starts at most a body that holds no line yet. -/
theorem FieldLineStep.captured_eq_nil {plan : Plan} {block : Block} {l : Line} {t : State}
    (h : FieldLineStep plan block l t) : t.mode.captured = [] := by
  obtain ⟨f, k, -, -, h⟩ := h
  cases h with
  | opensList _ _ ht => exact ht.captured_eq_nil
  | outputs p _ ht => exact ht.captured_eq_nil
  | _ => rfl

/-- Only capturing a line leads to a body that holds one. -/
theorem eq_of_step_to_body {s t : State} {l : Line} (h : Step s l t) {a : Shader} {st : OpenStage}
    {n : Nat} {x : List Char} {c : List (List Char)} (hm : t.mode = .body a st n (x :: c)) :
    s = ⟨t.plan, .body a st n c⟩ ∧ l.text = x ∧ isFence x = false := by
  have hc : t.mode.captured ≠ [] := by simp [hm, Mode.captured]
  cases h with
  | skip hs => simp [hm, Mode.skips] at hs
  | field ht => exact absurd ht.captured_eq_nil hc
  | openList _ ht => exact absurd ht.captured_eq_nil hc
  | extendList _ ht => exact absurd ht.captured_eq_nil hc
  | buffer _ ht => exact absurd ht.captured_eq_nil hc
  | openOutputs _ ht => exact absurd ht.captured_eq_nil hc
  | noOutputs ht => exact absurd ht.captured_eq_nil hc
  | fence _ _ => exact absurd rfl hc
  | endBody _ => exact absurd rfl hc
  | capture hf =>
    cases hm
    exact ⟨rfl, rfl, hf⟩

/-- An open body has started where it holds no line, and it holds every line since. -/
theorem exists_start_of_body {ts : List (List Char)} {plan : Plan} {s : Shader} {st : OpenStage}
    {n : Nat} {c : List (List Char)}
    (h : State.initial.feedAll (numberFrom 1 ts) = .ok ⟨plan, .body s st n c⟩) :
    ∃ i, i ≤ ts.length ∧ BodyStarts ts i ∧ ∀ t ∈ ts.drop i, isFence t = false := by
  induction c generalizing ts with
  | nil =>
    refine ⟨ts.length, Nat.le_refl _, ⟨plan, s, st, n, ?_⟩, ?_⟩
    · rw [List.take_length]
      exact h
    · simp
  | cons x c ih =>
    rcases List.eq_nil_or_concat ts with rfl | ⟨us, u, rfl⟩
    · cases h
    · rw [List.concat_eq_append] at h ⊢
      rw [numberFrom_append, State.feedAll_append] at h
      obtain ⟨v, hv, h⟩ := exists_of_bind_eq_ok h
      rw [numberFrom_cons, numberFrom_nil, State.feedAll_cons] at h
      obtain ⟨w, hw, h⟩ := exists_of_bind_eq_ok h
      cases h
      obtain ⟨rfl, rfl, hf⟩ := eq_of_step_to_body (step_of_feed hw) rfl
      obtain ⟨i, hi, ⟨p, a, b, m, hstart⟩, hbody⟩ := ih hv
      refine ⟨i, ?_, ⟨p, a, b, m, ?_⟩, ?_⟩
      · simp only [List.length_append, List.length_singleton]
        omega
      · rw [List.take_append_of_le_length hi]
        exact hstart
      · intro t ht
        rw [List.drop_append_of_le_length hi] at ht
        rcases List.mem_append.mp ht with ht | ht
        · exact hbody t ht
        · rw [List.mem_singleton.mp ht]
          exact hf

theorem insideBody_of_body {ts : List (List Char)} {k : Nat} {plan : Plan} {s : Shader}
    {st : OpenStage} {n : Nat} {c : List (List Char)}
    (h : State.initial.feedAll (numberFrom 1 (ts.take k)) = .ok ⟨plan, .body s st n c⟩) :
    InsideBody ts k := by
  obtain ⟨i, hi, ⟨p, a, b, m, hstart⟩, hbody⟩ := exists_start_of_body h
  have hik : i ≤ k := Nat.le_trans hi (List.length_take_le k ts)
  rw [List.take_take, Nat.min_eq_left hik] at hstart
  exact ⟨i, hik, ⟨p, a, b, m, hstart⟩, hbody⟩

/-- A place lies inside a body exactly if the lines before it lead into one. -/
theorem insideBody_iff {ts : List (List Char)} {k : Nat} :
    InsideBody ts k ↔ ∃ plan s st n c,
      State.initial.feedAll (numberFrom 1 (ts.take k)) = .ok ⟨plan, .body s st n c⟩ := by
  constructor
  · rintro ⟨i, hi, ⟨plan, s, st, n, h⟩, hbody⟩
    refine ⟨plan, s, st, n, ((ts.take k).drop i).reverse ++ [], ?_⟩
    have hsplit : ts.take k = ts.take i ++ (ts.take k).drop i := by
      have := List.take_append_drop i (ts.take k)
      rw [List.take_take, Nat.min_eq_left hi] at this
      exact this.symm
    rw [hsplit, numberFrom_append, State.feedAll_append, h]
    change State.feedAll _ _ = _
    rw [← hsplit]
    exact feedAll_body hbody
  · rintro ⟨plan, s, st, n, c, h⟩
    exact insideBody_of_body h

theorem blank_of_isIgnorable {text : List Char} (h : isIgnorable text = true)
    (hc : isComment text = false) : ∀ c ∈ text, isBlank c = true := by
  simpa [isIgnorable, hc, trimStart_eq_nil_iff] using h

theorem extend_blank {inner text : List Char} (h : ∀ c ∈ text, isBlank c = true) :
    Bracket.extend inner text = .unclosed (inner ++ '\n' :: text) := by
  have hn : cutAt ']' text = none := by
    rw [cutAt_eq_none_iff]
    intro hm
    have := h _ hm
    simp at this
  rw [Bracket.extend, hn]

/-- Outside a body, a line that says nothing leads to a state that is as alike as before. -/
theorem exists_feed_ignorable {r : Likeness} {s t : State} (h : r.OfState s t) {l : Line}
    (hl : isIgnorable l.text = true) (hb : ∀ a st n c, t.mode ≠ .body a st n c) :
    ∃ u, t.feed l = .ok u ∧ r.OfState s u := by
  obtain ⟨q, m⟩ := t
  cases m with
  | list field n opening inner =>
    cases hc : isComment l.text with
    | true => exact ⟨_, by simp [State.feed, Mode.skips, hc], h⟩
    | false =>
      have hblank := blank_of_isIgnorable hl hc
      refine ⟨⟨q, .list field n opening (inner ++ '\n' :: l.text)⟩, ?_, h.plan, ?_⟩
      · simp [State.feed, Mode.skips, hc, consume, extend_blank hblank, continueList]
      · generalize s.mode = m, h.mode = hm
        cases hm with
        | list m opening hf hab =>
          refine .list m opening hf (hab.trans ?_)
          rw [← hf.kind_eq]
          exact sameOpenList_blank _ inner hblank
  | body a st n c => exact absurd rfl (hb a st n c)
  | _ => exact ⟨_, by simp [State.feed, Mode.skips, hl], h⟩

/-- The numbers of lines where one is added behind the first `k`. -/
def makeRoom (k n : Nat) : Nat := if k < n then n + 1 else n

/-- A blank line or a comment may be added anywhere outside a body. The lines before it lead to
a state that is alike to itself; the added line keeps it so, and then so do the lines behind it. -/
theorem readLines_insert {ts : List (List Char)} {k : Nat} (hk : k ≤ ts.length) {x : List Char}
    (hx : isIgnorable x = true) (hb : ¬ InsideBody ts k) :
    readLines (numberFrom 1 (ts.take k ++ x :: ts.drop k)) =
      (readLines (numberFrom 1 ts)).mapError (Error.renumber (makeRoom k)) := by
  apply Alike.eq_mapError
  let r : Likeness := .ofRenumbering (makeRoom k)
  have hlen : (ts.take k).length = k := by
    rw [List.length_take]
    omega
  have hfront : (numberFrom 1 (ts.take k)).map (Line.renumber (makeRoom k)) =
      numberFrom 1 (ts.take k) := by
    apply map_renumber_numberFrom
    intro i hi
    simp only [makeRoom]
    split <;> omega
  have hback : (numberFrom (1 + k) (ts.drop k)).map (Line.renumber (makeRoom k)) =
      numberFrom (1 + k + 1) (ts.drop k) := by
    apply map_renumber_numberFrom
    intro i _
    simp only [makeRoom]
    split <;> omega
  have hold : readLines (numberFrom 1 ts) =
      (State.initial.feedAll (numberFrom 1 (ts.take k)) >>= fun s =>
        s.feedAll (numberFrom (1 + k) (ts.drop k)) >>= State.finish) := by
    conv => lhs; rw [← List.take_append_drop k ts]
    rw [readLines, numberFrom_append, State.feedAll_append, hlen, bind_assoc]
  have hnew : readLines (numberFrom 1 (ts.take k ++ x :: ts.drop k)) =
      (State.initial.feedAll (numberFrom 1 (ts.take k)) >>= fun s =>
        s.feed ⟨1 + k, x⟩ >>= fun t =>
          t.feedAll (numberFrom (1 + k + 1) (ts.drop k)) >>= State.finish) := by
    rw [readLines, numberFrom_append, State.feedAll_append, hlen, bind_assoc]
    simp only [numberFrom_cons, State.feedAll_cons, bind_assoc]
  have hinitial : r.OfState State.initial State.initial := ⟨rfl, .fields (.root trivial)⟩
  have hrun := Likeness.feedAll_alike hinitial (numberFrom 1 (ts.take k))
  change Alike (makeRoom k) _ _ (State.initial.feedAll (List.map (Line.renumber (makeRoom k)) _))
    at hrun
  rw [hfront] at hrun
  rw [hold, hnew]
  cases hs : State.initial.feedAll (numberFrom 1 (ts.take k)) with
  | error e =>
    rw [hs] at hrun
    have herror : Alike (makeRoom k) Eq (.error e : Except Error Plan) (.error _) := .error e
    rw [← hrun.error_eq] at herror
    exact herror
  | ok s =>
    rw [hs] at hrun
    cases hrun with
    | ok hss =>
      have hbody : ∀ a st n c, s.mode ≠ .body a st n c := by
        intro a st n c hm
        apply hb
        rw [insideBody_iff]
        exact ⟨s.plan, a, st, n, c, by rw [hs, ← hm]⟩
      obtain ⟨t, ht, hst⟩ := exists_feed_ignorable hss (l := ⟨1 + k, x⟩) hx hbody
      change Alike _ _ (s.feedAll _ >>= State.finish) (s.feed ⟨1 + k, x⟩ >>= _)
      rw [ht, ← hback]
      exact Likeness.finishAfter_alike hst _

/-- A text with a blank line or a comment added outside the bodies of sources is read as the text
without it, an error behind the place being found one line further on. -/
theorem read_insert_ignorable {source longer : String} {k : Nat} {x : List Char}
    (hk : k ≤ (lines source.toList).length) (hx : isIgnorable x = true)
    (hb : ¬ InsideBody (lines source.toList) k)
    (h : lines longer.toList = (lines source.toList).take k ++ x :: (lines source.toList).drop k) :
    read longer =
      (read source).mapError (Error.renumber fun n => if k < n then n + 1 else n) := by
  rw [read, linesOf, h]
  exact readLines_insert hk hx hb

/-- A comment that looks like the end of a list, a field and a fence, added inside a list. -/
theorem read_insert_ignorable_in_list :
    ¬ InsideBody (lines "shader: s\n  uniforms: [\n    u: mat4\n  ]\n  bogus: 1\n".toList) 3 ∧
      read "shader: s\n  uniforms: [\n    u: mat4\n  ]\n  bogus: 1\n" =
        .error ⟨5, .unknownKeyword "bogus"⟩ ∧
      read "shader: s\n  uniforms: [\n    u: mat4\n - ] name: ```\n  ]\n  bogus: 1\n" =
        .error ⟨6, .unknownKeyword "bogus"⟩ := by
  have hb : ¬ InsideBody
      (lines "shader: s\n  uniforms: [\n    u: mat4\n  ]\n  bogus: 1\n".toList) 3 := by
    rw [insideBody_iff]
    rintro ⟨plan, s, st, n, c, h⟩
    cases h
  have hsource : read "shader: s\n  uniforms: [\n    u: mat4\n  ]\n  bogus: 1\n" =
      .error ⟨5, .unknownKeyword "bogus"⟩ := by rfl
  refine ⟨hb, hsource, ?_⟩
  rw [read_insert_ignorable (x := " - ] name: ```".toList) (by decide) (by decide) hb (by rfl),
    hsource]
  rfl

end RenderPlan.Description
