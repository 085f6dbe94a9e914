import RenderPlan.Proofs.Description.Fault
import RenderPlan.Proofs.Description.ListWriting
import RenderPlan.Proofs.Description.LoopOutcome
import RenderPlan.Proofs.Description.Passage
/-!
The grammar of the lists of a pass. An input is a name with one dot inside it. The value of an
`outputs` field is cut at its first opening bracket, where its list starts; a value without one may
have its list on the next line. What a field is read as, and what is reported of it, is said of the
names and of these parts alone.
-/
namespace RenderPlan.Description

open RenderPlan.Text

/-- What a name is read as, or the name. -/
def inputOf (w : List Char) : Except (List Char) InputTexture :=
  match readInput? w with
  | some i => .ok i
  | none => .error w

theorem readInputs_eq_mapM (inner : List Char) :
    readInputs inner = (words endsName inner).mapM inputOf := rfl

theorem inputOf_eq_ok_iff {w : List Char} {i : InputTexture} :
    inputOf w = .ok i ↔ Dotted w ∧ inputText i = w := by
  rw [inputText, ← readInput?_eq_some_iff, inputOf]
  cases readInput? w <;> simp

theorem exists_inputOf_iff {w : List Char} : (∃ i, inputOf w = .ok i) ↔ Dotted w := by
  simp only [inputOf_eq_ok_iff, exists_and_left, and_iff_left_iff_imp]
  exact Dotted.exists_input

theorem inputOf_eq_error_iff {w found : List Char} :
    inputOf w = .error found ↔ ¬Dotted w ∧ w = found := by
  rw [← exists_inputOf_iff, inputOf]
  cases readInput? w <;> simp

/-- What the names of a list of inputs are read as, or the first of them that is no input. -/
inductive InputsOf (ws : List (List Char)) : Except (List Char) (List InputTexture) → Prop
  | ok {is : List InputTexture} (h : ∀ w ∈ ws, Dotted w) (hi : is.map inputText = ws) :
      InputsOf ws (.ok is)
  | error {front back : List (List Char)} {w : List Char} (hws : ws = front ++ w :: back)
      (hfront : ∀ v ∈ front, Dotted v) (hw : ¬Dotted w) : InputsOf ws (.error w)

/-- A list of inputs is read as its names say. -/
theorem Names.inputsOf_iff {inner : List Char} {ws : List (List Char)} (h : Names inner ws)
    {r : Except (List Char) (List InputTexture)} : InputsOf ws r ↔ readInputs inner = r := by
  rw [readInputs_eq_mapM, h.words]
  cases r with
  | ok is =>
    have hspell : List.Forall₂ (fun w i => inputText i = w) ws is ↔ is.map inputText = ws := by
      have hright := List.forall₂_map_right_iff (R := Eq) (f := inputText) (l := ws) (u := is)
      rw [List.forall₂_eq_eq_eq] at hright
      rw [eq_comm, hright]
      simp only [eq_comm]
    simp only [mapM_eq_ok_iff, inputOf_eq_ok_iff, List.forall₂_and_left, hspell]
    exact ⟨fun | .ok hall hi => ⟨hall, hi⟩, fun ⟨hall, hi⟩ => .ok hall hi⟩
  | error found =>
    simp only [mapM_eq_error_iff, exists_inputOf_iff, inputOf_eq_error_iff]
    constructor
    · intro hr
      cases hr with
      | error hws hfront hw => exact ⟨_, _, _, hws, hfront, hw, rfl⟩
    · rintro ⟨front, w, back, hws, hfront, hw, rfl⟩
      exact .error hws hfront hw

/-- What a reading comes to behind a list of inputs. -/
def runInputs (plan : Plan) (p : Pass) (line : Nat) (d : Cursor) :
    Except (List Char) (List InputTexture) → Except Error Plan
  | .ok is => State.run (.inBlock plan (.pass { p with inputs := is })) d.remaining
  | .error found => fail line (.malformedList .input (String.ofList found))

/-- The value of an `outputs` field, cut at its first opening bracket: the buffer, and the text of
the list from that bracket on. -/
inductive CutsBuffer : List Char → List Char → Option (List Char) → Prop
  | alone {v : List Char} (h : '[' ∉ v) : CutsBuffer v (trim v) none
  | listed {front opened : List Char} (h : '[' ∉ front) :
      CutsBuffer (front ++ '[' :: opened) (trim front) (some ('[' :: opened))

/-- A text that can name a buffer: it is not empty and has no blank characters. -/
def NamesBuffer (b : List Char) : Prop := b ≠ [] ∧ ∀ c ∈ b, isBlank c = false

/-- The names of a list of outputs and the cursor behind it, or what is wrong with the list. -/
inductive OutputsList (c : Cursor) (text : List Char) :
    Except Cause (List (List Char) × Cursor) → Prop
  | closed {inner rest : List Char} {ws : List (List Char)} {d : Cursor}
      (h : c.collect text = (some (inner, rest), d)) (hrest : ∀ x ∈ rest, isBlank x = true)
      (hws : Names inner ws) : OutputsList c text (.ok (ws, d))
  | trailing {inner rest : List Char} {x : Char} {d : Cursor}
      (h : c.collect text = (some (inner, rest), d)) (hx : x ∈ rest) (hsolid : isBlank x = false) :
      OutputsList c text (.error (.malformedList .output (String.ofList (trim rest))))
  | unclosed {d : Cursor} (h : c.collect text = (none, d)) :
      OutputsList c text (.error (.malformedList .output (String.ofList text)))

/-- What an `outputs` field with a value is read as: the buffer, the names of its list, which stands
in the value or on the next line, and the cursor behind them. -/
inductive OutputsField (c : Cursor) (v : List Char) :
    Except Cause (List Char × List (List Char) × Cursor) → Prop
  | noBuffer {b : List Char} {list : Option (List Char)} (hv : CutsBuffer v b list)
      (hb : ¬NamesBuffer b) :
      OutputsField c v (.error (.malformedValue Keyword.outputs.spelling (String.ofList v)))
  | listed {b text : List Char} {r : Except Cause (List (List Char) × Cursor)}
      (hv : CutsBuffer v b (some text)) (hb : NamesBuffer b) (h : OutputsList c text r) :
      OutputsField c v (r.map (b, ·))
  | below {b text : List Char} {d : Cursor} {r : Except Cause (List (List Char) × Cursor)}
      (hv : CutsBuffer v b none) (hb : NamesBuffer b) (hd : c.below = (some text, d))
      (h : OutputsList d text r) : OutputsField c v (r.map (b, ·))
  | noList {b : List Char} {d : Cursor} (hv : CutsBuffer v b none) (hb : NamesBuffer b)
      (hd : c.below = (none, d)) : OutputsField c v (.ok (b, [], d))

/-- What a reading comes to behind an `outputs` field. -/
def runOutputs (plan : Plan) (p : Pass) (line : Nat) :
    Except Cause (List Char × List (List Char) × Cursor) → Except Error Plan
  | .ok (b, ws, d) =>
    State.run (.inBlock plan (.pass (withOutputs p b (ws.map String.ofList)))) d.remaining
  | .error cause => fail line cause

theorem exists_cutsBuffer (v : List Char) : ∃ b list, CutsBuffer v b list := by
  by_cases h : '[' ∈ v
  · obtain ⟨front, opened, rfl, hfront⟩ := List.eq_append_cons_of_mem h
    exact ⟨_, _, .listed hfront⟩
  · exact ⟨_, _, .alone h⟩

/-- A trimmed value is cut as the reading cuts it. -/
theorem CutsBuffer.splitOutputs {v b : List Char} {list : Option (List Char)}
    (h : CutsBuffer v b list) (hv : trim v = v) : splitOutputs v = (b, list) := by
  cases h with
  | alone h => rw [Description.splitOutputs, cutAt_eq_none_iff.mpr h, hv]
  | listed h => rw [Description.splitOutputs, cutAt_eq_some_iff.mpr ⟨rfl, h⟩]

theorem CutsBuffer.list_ne_nil {v b text : List Char} (h : CutsBuffer v b (some text)) :
    text ≠ [] := by
  cases h
  exact List.cons_ne_nil _ _

theorem CutsBuffer.unique {v b b' : List Char} {list list' : Option (List Char)}
    (h : CutsBuffer v b list) (h' : CutsBuffer v b' list') : b = b' ∧ list = list' := by
  cases h with
  | alone h =>
    cases h' with
    | alone _ => exact ⟨rfl, rfl⟩
    | listed _ => simp at h
  | @listed front opened h =>
    generalize hv : front ++ '[' :: opened = v at h'
    have hcut := cutAt_eq_some_iff.mpr ⟨hv.symm, h⟩
    cases h' with
    | alone h' => simp [← hv] at h'
    | listed h' =>
      rw [cutAt_eq_some_iff.mpr ⟨rfl, h'⟩] at hcut
      cases hcut
      exact ⟨rfl, rfl⟩

theorem isBufferName_iff {b : List Char} : isBufferName b = true ↔ NamesBuffer b := by
  simp [isBufferName, NamesBuffer]

theorem exists_outputsList (c : Cursor) (text : List Char) : ∃ r, OutputsList c text r := by
  rcases hcollect : c.collect text with ⟨_ | ⟨inner, rest⟩, d⟩
  · exact ⟨_, .unclosed hcollect⟩
  · by_cases hrest : ∀ x ∈ rest, isBlank x = true
    · obtain ⟨ws, hws⟩ := exists_names inner
      exact ⟨_, .closed hcollect hrest hws⟩
    · obtain ⟨x, hx, hsolid⟩ : ∃ x ∈ rest, isBlank x = false := by simpa using hrest
      exact ⟨_, .trailing hcollect hx hsolid⟩

theorem OutputsList.unique {c : Cursor} {text : List Char}
    {r r' : Except Cause (List (List Char) × Cursor)} (h : OutputsList c text r)
    (h' : OutputsList c text r') : r = r' := by
  cases h with
  | closed h hrest hws =>
    cases h' with
    | closed h' _ hws' =>
      cases h.symm.trans h'
      rw [← hws.words, hws'.words]
    | trailing h' hx hsolid =>
      cases h.symm.trans h'
      rw [hrest _ hx] at hsolid
      cases hsolid
    | unclosed h' => cases h.symm.trans h'
  | trailing h hx hsolid =>
    cases h' with
    | closed h' hrest _ =>
      cases h.symm.trans h'
      rw [hrest _ hx] at hsolid
      cases hsolid
    | trailing h' _ _ =>
      cases h.symm.trans h'
      rfl
    | unclosed h' => cases h.symm.trans h'
  | unclosed h =>
    cases h' with
    | closed h' _ _ | trailing h' _ _ => cases h.symm.trans h'
    | unclosed _ => rfl

theorem exists_outputsField (c : Cursor) (v : List Char) : ∃ r, OutputsField c v r := by
  obtain ⟨b, list, hv⟩ := exists_cutsBuffer v
  by_cases hb : NamesBuffer b
  · cases list with
    | some text =>
      obtain ⟨r, hr⟩ := exists_outputsList c text
      exact ⟨_, .listed hv hb hr⟩
    | none =>
      rcases hd : c.below with ⟨_ | text, d⟩
      · exact ⟨_, .noList hv hb hd⟩
      · obtain ⟨r, hr⟩ := exists_outputsList d text
        exact ⟨_, .below hv hb hd hr⟩
  · exact ⟨_, .noBuffer hv hb⟩

theorem OutputsField.unique {c : Cursor} {v : List Char}
    {r r' : Except Cause (List Char × List (List Char) × Cursor)} (h : OutputsField c v r)
    (h' : OutputsField c v r') : r = r' := by
  cases h with
  | noBuffer hv hb =>
    cases h' with
    | noBuffer _ _ => rfl
    | listed hv' hb' _ | below hv' hb' _ _ | noList hv' hb' _ =>
      obtain ⟨rfl, -⟩ := hv.unique hv'
      exact absurd hb' hb
  | listed hv hb h =>
    cases h' with
    | noBuffer hv' hb' =>
      obtain ⟨rfl, -⟩ := hv.unique hv'
      exact absurd hb hb'
    | listed hv' _ h' =>
      obtain ⟨rfl, heq⟩ := hv.unique hv'
      cases heq
      rw [h.unique h']
    | below hv' _ _ _ | noList hv' _ _ => cases (hv.unique hv').2
  | below hv hb hd h =>
    cases h' with
    | noBuffer hv' hb' =>
      obtain ⟨rfl, -⟩ := hv.unique hv'
      exact absurd hb hb'
    | listed hv' _ _ => cases (hv.unique hv').2
    | below hv' _ hd' h' =>
      obtain ⟨rfl, -⟩ := hv.unique hv'
      cases hd.symm.trans hd'
      rw [h.unique h']
    | noList _ _ hd' => cases hd.symm.trans hd'
  | noList hv hb hd =>
    cases h' with
    | noBuffer hv' hb' =>
      obtain ⟨rfl, -⟩ := hv.unique hv'
      exact absurd hb hb'
    | listed hv' _ _ => cases (hv.unique hv').2
    | below _ _ hd' _ => cases hd.symm.trans hd'
    | noList hv' _ hd' =>
      obtain ⟨rfl, -⟩ := hv.unique hv'
      cases hd.symm.trans hd'
      rfl

/-- A line with a field of a pass, where a reading may take it. -/
structure PassField (k : Keyword) (plan : Plan) (p : Pass) (s : State) (l : Line) (f : Field) :
    Prop where
  settled : Settled plan (.pass p) s
  field : l.field? = some f
  keyword : Keyword.ofText? (String.ofList f.keyword) = some k

section Fields

variable {plan : Plan} {p : Pass} {s : State} {l : Line} {f : Field}

/-- A list of inputs that is closed with only blank characters behind it. -/
theorem PassField.run_inputs (h : PassField .inputs plan p s l f) {ls : List Line}
    {text inner rest : List Char} {c d : Cursor}
    (hopening : Cursor.opening ⟨ls⟩ f.value = (text, c))
    (hcollect : c.collect text = (some (inner, rest), d)) (hrest : ∀ x ∈ rest, isBlank x = true) :
    s.run (l :: ls) = runInputs plan p f.line d (readInputs inner) := by
  have hfield : s.feed l = listField plan (.inputs p) f :=
    h.settled.feed_field h.field h.keyword
  have htake := LoopState.takeList_outcome ⟨plan, .pass p, ⟨ls⟩⟩ (.inputs p) f
  have hblank : trim rest = [] := trim_eq_nil_iff.mpr hrest
  rw [State.run_cons, hfield]
  refine htake.trans ?_
  simp only [LoopState.takeList, hopening, LoopState.bracketed, hcollect, LoopState.filled, hblank,
    if_true, ListField.fill]
  cases readInputs inner <;> rfl

/-- What a list of outputs is read as. -/
theorem OutputsList.outcome {c : Cursor} {text b : List Char}
    {r : Except Cause (List (List Char) × Cursor)} (h : OutputsList c text r) (block : Block)
    (line : Nat) :
    LoopState.bracketed ⟨plan, block, c⟩ (.outputs p b) line text >>= LoopState.outcome =
      runOutputs plan p line (r.map (b, ·)) := by
  rw [LoopState.bracketed]
  cases h with
  | closed h hrest hws =>
    simp only [h, LoopState.filled, trim_eq_nil_iff.mpr hrest, if_true, ListField.fill, readOutputs,
      hws.words]
    rfl
  | @trailing inner rest x d h hx hsolid =>
    have hne : trim rest ≠ [] := by
      intro hnil
      rw [trim_eq_nil_iff.mp hnil x hx] at hsolid
      cases hsolid
    simp only [h, LoopState.filled, hne, if_false]
    rfl
  | unclosed h =>
    simp only [h]
    rfl

theorem PassField.trim_value {k : Keyword} (h : PassField k plan p s l f) :
    trim f.value = f.value := by
  obtain ⟨⟨_, v⟩, -, rfl⟩ := Option.map_eq_some_iff.mp h.field
  exact trim_trim v

theorem PassField.feed_outputs (h : PassField .outputs plan p s l f) (hv : f.value ≠ []) :
    s.feed l = outputsValue plan p f.line f.value f.value :=
  (h.settled.feed_field h.field h.keyword).trans (if_neg hv)

/-- An `outputs` field with a value. -/
theorem PassField.run_outputs (h : PassField .outputs plan p s l f) (hv : f.value ≠ [])
    {ls : List Line} {r : Except Cause (List Char × List (List Char) × Cursor)}
    (hr : OutputsField ⟨ls⟩ f.value r) : s.run (l :: ls) = runOutputs plan p f.line r := by
  have hkeyword : String.ofList f.keyword = Keyword.outputs.spelling :=
    (Keyword.ofText?_eq_some_iff.mp h.keyword).symm
  have hin := LoopState.outputsIn_outcome ⟨plan, .pass p, ⟨ls⟩⟩ p hkeyword f.value
  rw [State.run_cons, h.feed_outputs hv]
  refine hin.trans ?_
  rw [LoopState.outputsIn]
  cases hr with
  | noBuffer hcut hb =>
    have hno : ¬isBufferName _ = true := mt isBufferName_iff.mp hb
    simp only [hcut.splitOutputs h.trim_value, if_neg hno, Field.malformedValue, hkeyword]
    rfl
  | listed hcut hb hlist =>
    simp only [hcut.splitOutputs h.trim_value, if_pos (isBufferName_iff.mpr hb)]
    exact hlist.outcome (.pass p) f.line
  | below hcut hb hd hlist =>
    simp only [hcut.splitOutputs h.trim_value, if_pos (isBufferName_iff.mpr hb), hd]
    exact hlist.outcome (.pass p) f.line
  | noList hcut hb hd =>
    simp only [hcut.splitOutputs h.trim_value, if_pos (isBufferName_iff.mpr hb), hd]
    rfl

/-- The value of an `outputs` field is malformed exactly if it names no buffer. -/
theorem PassField.malformedValue_iff (h : PassField .outputs plan p s l f) (hv : f.value ≠ []) :
    (∃ n field found, s.feed l = .error ⟨n, .malformedValue field found⟩) ↔
      ∃ b list, CutsBuffer f.value b list ∧ ¬NamesBuffer b := by
  obtain ⟨b, list, hcut⟩ := exists_cutsBuffer f.value
  rw [h.feed_outputs hv, outputsValue, hcut.splitOutputs h.trim_value]
  constructor
  · rintro ⟨n, field, found, herror⟩
    refine ⟨b, list, hcut, fun hb => ?_⟩
    simp only [if_pos (isBufferName_iff.mpr hb)] at herror
    cases list with
    | none => cases herror
    | some text =>
      obtain ⟨_, -, -, he⟩ := fault_of_openList hcut.list_ne_nil herror
      cases he
  · rintro ⟨b', list', hcut', hb⟩
    obtain ⟨rfl, -⟩ := hcut.unique hcut'
    exact ⟨_, _, _, if_neg (mt isBufferName_iff.mp hb)⟩

end Fields

/-- The lists of a pass have exactly their grammar. A list of inputs that is closed with only
blank characters behind it is read as the inputs that its names spell if each of these has one dot,
inside it; the first that has not is reported. The value of an `outputs` field is malformed if what
stands before its first opening bracket is no buffer. Otherwise the field is read as that buffer and
the names of its list, which starts at the bracket or, where there is none, on the next line. -/
theorem passLists_grammar :
    (∀ inner, ∃! ws, Names inner ws) ∧
    (∀ (plan : Plan) (p : Pass) (s : State) (l : Line) (f : Field) (ls : List Line)
      (text inner rest : List Char) (c d : Cursor) (ws : List (List Char)),
      PassField .inputs plan p s l f → Cursor.opening ⟨ls⟩ f.value = (text, c) →
      c.collect text = (some (inner, rest), d) → (∀ x ∈ rest, isBlank x = true) →
      Names inner ws →
      (∃! r, InputsOf ws r) ∧
      ∀ r, InputsOf ws r → s.run (l :: ls) = runInputs plan p f.line d r) ∧
    ∀ (plan : Plan) (p : Pass) (s : State) (l : Line) (f : Field) (ls : List Line),
      PassField .outputs plan p s l f → f.value ≠ [] →
      ((∃ n field found, s.feed l = .error ⟨n, .malformedValue field found⟩) ↔
        ∃ b list, CutsBuffer f.value b list ∧ ¬NamesBuffer b) ∧
      (∃! r, OutputsField ⟨ls⟩ f.value r) ∧
      ∀ r, OutputsField ⟨ls⟩ f.value r → s.run (l :: ls) = runOutputs plan p f.line r := by
  refine ⟨fun inner => ?_, ?_, ?_⟩
  · simp only [names_iff]
    exact existsUnique_eq'
  · intro plan p s l f ls text inner rest c d ws h hopening hcollect hrest hws
    simp only [hws.inputsOf_iff]
    refine ⟨existsUnique_eq', ?_⟩
    rintro r rfl
    exact h.run_inputs hopening hcollect hrest
  · intro plan p s l f ls h hv
    obtain ⟨r, hr⟩ := exists_outputsField ⟨ls⟩ f.value
    exact ⟨h.malformedValue_iff hv, ⟨r, hr, fun _ hr' => hr'.unique hr⟩,
      fun _ hr' => h.run_outputs hv hr'⟩

/-- An open pass without fields. -/
def emptyPass : State := .inBlock {} (.pass { name := "p" })

/-- The third name has two dots; the bracket in the comment closes nothing. A buffer may have its
list below, and a text with a blank character names no buffer. -/
theorem passLists_grammar_lines :
    emptyPass.run (linesOf "inputs: [a.b,\u2003c.d\n- ]\n ,e.f.g\t] \ndraw: quad".toList) =
        .error ⟨1, .malformedList .input "e.f.g"⟩ ∧
      emptyPass.run (linesOf "outputs: g\n\n [c,\u00a0d\n e ]".toList) =
        .ok { passes := [{ name := "p", outputBuffer := "g",
                           outputTextures := ["c", "d", "e"] }] } ∧
      emptyPass.run (linesOf "outputs: g h [c]".toList) =
        .error ⟨1, .malformedValue "outputs" "g h [c]"⟩ := by
  have field {k : Keyword} {l : Line} {f : Field} (hf : l.field? = some f)
      (hk : Keyword.ofText? (String.ofList f.keyword) = some k) :
      PassField k {} { name := "p" } emptyPass l f := ⟨.fields _, hf, hk⟩
  refine ⟨?_, ?_, ?_⟩
  · have hws : Names "a.b,\u2003c.d\n ,e.f.g\t".toList
        ["a.b".toList, "c.d".toList, "e.f.g".toList] := names_iff.mpr (by decide)
    have hr : InputsOf ["a.b".toList, "c.d".toList, "e.f.g".toList] (.error "e.f.g".toList) :=
      hws.inputsOf_iff.mpr (by rfl)
    exact (passLists_grammar.2.1 _ _ _ ⟨1, _⟩ ⟨1, "inputs".toList, _, true⟩ _ _ _ " ".toList _ _ _
      (field rfl rfl) rfl rfl (List.all_eq_true.mp rfl) hws).2 _ hr
  · have hws : Names "c,\u00a0d\n e ".toList ["c".toList, "d".toList, "e".toList] :=
      names_iff.mpr (by decide)
    have hcollect : Cursor.collect ⟨[⟨4, " e ]".toList⟩]⟩ "[c,\u00a0d".toList =
        (some ("c,\u00a0d\n e ".toList, []), ⟨[]⟩) := by rfl
    have hr : OutputsField ⟨[⟨2, []⟩, ⟨3, " [c,\u00a0d".toList⟩, ⟨4, " e ]".toList⟩]⟩
        "g".toList _ :=
      .below (.alone (by decide)) (isBufferName_iff.mp rfl) rfl (.closed hcollect (by simp) hws)
    exact (passLists_grammar.2.2 _ _ _ ⟨1, _⟩ ⟨1, "outputs".toList, "g".toList, true⟩ _
      (field rfl rfl) (by simp)).2.2 _ hr
  · have hcut : CutsBuffer ("g h ".toList ++ '[' :: "c]".toList) "g h".toList _ :=
      .listed (by decide)
    have hr : OutputsField ⟨[]⟩ "g h [c]".toList _ :=
      .noBuffer hcut fun hb => absurd (hb.2 ' ' (by decide)) (by decide)
    exact (passLists_grammar.2.2 _ _ _ ⟨1, _⟩ ⟨1, "outputs".toList, "g h [c]".toList, true⟩ _
      (field rfl rfl) (by simp)).2.2 _ hr

end RenderPlan.Description
