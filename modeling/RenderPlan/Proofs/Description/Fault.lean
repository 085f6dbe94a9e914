import RenderPlan.Proofs.Description.ListFault
/-!
What can be wrong with a line. A line that is an error is no field, a field that the open block does
not take, or not what the field before it waits for. All errors that a line can bring about are
listed here once, with the texts that they quote; all others are found at the end of the text.
-/
namespace RenderPlan.Description

open RenderPlan.Text

/-- The fields that are yes or no. -/
def Keyword.isFlag : Keyword → Bool
  | hasDepth | clearDepth | writeDepth | clearOutputs => true
  | _ => false

/-- The kind of the list that a field takes. -/
def Keyword.listKind? : Keyword → Option ListKind
  | attributes | uniforms | varying => some .uniform
  | textures => some .texture
  | inputs => some .input
  | outputs => some .output
  | _ => none

/-- Errors that quote a part of `text` as the fault of a list. -/
def ListFault (kind : ListKind) (n : Nat) (text : List Char) (e : Error) : Prop :=
  ∃ found, found ≠ [] ∧ found <:+: text ∧ e = ⟨n, .malformedList kind (String.ofList found)⟩

theorem ListFault.of_isInfix {kind : ListKind} {n : Nat} {text longer : List Char} {e : Error}
    (h : ListFault kind n text e) (ht : text <:+: longer) : ListFault kind n longer e := by
  obtain ⟨found, hne, hf, he⟩ := h
  exact ⟨found, hne, hf.trans ht, he⟩

/-- Only a list that is closed is an error: for what stands behind it, or for what it holds. -/
theorem fault_of_continueList {plan : Plan} {field : ListField} {n : Nat} {opening : List Char}
    {b : Bracket} {e : Error} (h : continueList plan field n opening b = .error e) :
    ∃ inner rest, b = .closed inner rest ∧ (ListFault field.kind n rest e ∨
      ∃ found, QuotedFrom inner found ∧
        e = ⟨n, .malformedList field.kind (String.ofList found)⟩) := by
  cases b with
  | unclosed inner => cases h
  | closed inner rest =>
    refine ⟨inner, rest, rfl, ?_⟩
    simp only [continueList] at h
    split at h
    · cases hf : field.fill inner with
      | ok block =>
        rw [hf] at h
        cases h
      | error found =>
        rw [hf] at h
        cases h
        exact .inr ⟨found, quotedFrom_of_fill hf, rfl⟩
    · next hr =>
      cases h
      exact .inl ⟨trim rest, hr, trim_isInfix rest, rfl⟩

theorem fault_of_openList {plan : Plan} {field : ListField} {n : Nat} {text : List Char}
    {e : Error} (hne : text ≠ []) (h : openList plan field n text = .error e) :
    ListFault field.kind n text e := by
  unfold openList at h
  split at h
  · next opened =>
    obtain ⟨inner, rest, hb, hfault⟩ := fault_of_continueList h
    have hsplit : opened = inner ++ ']' :: rest := by
      unfold Bracket.start at hb
      split at hb
      · cases hb
      · next hc =>
        cases hb
        exact (cutAt_eq_some_iff.mp hc).1
    rw [hsplit]
    rcases hfault with hfault | ⟨found, hq, he⟩
    · exact hfault.of_isInfix ⟨'[' :: (inner ++ [']']), [], by simp⟩
    · exact ⟨found, hq.ne_nil, hq.isInfix.trans ⟨['['], ']' :: rest, by simp⟩, he⟩
  · cases h
    exact ⟨text, hne, List.infix_refl _, rfl⟩

/-- The list behind a buffer stands in the value of the field. -/
theorem isInfix_of_splitOutputs {value buffer text : List Char}
    (h : splitOutputs value = (buffer, some text)) : text <:+: value := by
  unfold splitOutputs at h
  split at h
  · next b opened hc =>
    cases h
    rw [(cutAt_eq_some_iff.mp hc).1]
    exact (List.suffix_append b _).isInfix
  · cases h

/-- The value of an `outputs` field names no buffer, or its list is an error. -/
theorem fault_of_outputsValue {plan : Plan} {p : Pass} {n : Nat} {quoted value : List Char}
    {e : Error} (h : outputsValue plan p n quoted value = .error e) :
    e = ⟨n, .malformedValue Keyword.outputs.spelling (String.ofList quoted)⟩ ∨
      ListFault .output n value e := by
  unfold outputsValue at h
  cases hv : splitOutputs value with
  | mk buffer list =>
    simp only [hv] at h
    split at h
    · cases list with
      | none => cases h
      | some text =>
        have hne : text ≠ [] := by
          unfold splitOutputs at hv
          split at hv <;> cases hv
          exact List.cons_ne_nil _ _
        exact .inr ((fault_of_openList hne h).of_isInfix (isInfix_of_splitOutputs hv))
    · cases h
      exact .inl rfl

theorem fault_of_closeStage {stage : Option OpenStage} {e : Error}
    (h : closeStage stage = .error e) :
    ∃ st, stage = some st ∧ e = ⟨st.line, .missingSource st.stage⟩ := by
  cases stage with
  | none => cases h
  | some st =>
    simp only [closeStage] at h
    split at h
    · cases h
    · cases h
      exact ⟨st, rfl, rfl⟩

/-- A block can end unless a stage in it lacks its source. -/
theorem fault_of_closeBlock {plan : Plan} {block : Block} {e : Error}
    (h : closeBlock plan block = .error e) :
    ∃ s st, block = .shader s (some st) ∧ e = ⟨st.line, .missingSource st.stage⟩ := by
  cases block with
  | shader s stage =>
    obtain ⟨st, rfl, he⟩ := fault_of_closeStage (eq_error_of_map_eq_error h)
    exact ⟨s, st, rfl, he⟩
  | _ => cases h

/-- The errors of a field where it stands. -/
inductive FieldFault (f : Field) (block : Block) (k : Keyword) : Error → Prop
  | keyword : FieldFault f block k ⟨f.line, .unknownKeyword (String.ofList f.keyword)⟩
  | value : FieldFault f block k ⟨f.line, .malformedValue (String.ofList f.keyword) f.text⟩
  | flag (hk : k.isFlag = true) (hv : f.text ∉ ["yes", "true", "no", "false"]) :
      FieldFault f block k ⟨f.line, .notBoolean (String.ofList f.keyword) f.text⟩
  | stage {s : Shader} {st : OpenStage} (hb : block = .shader s (some st)) :
      FieldFault f block k ⟨st.line, .missingSource st.stage⟩
  | list {kind : ListKind} {e : Error} (hk : k.listKind? = some kind)
      (h : ListFault kind f.line f.value e) : FieldFault f block k e
  | outputs (hk : k = .outputs) :
      FieldFault f block k ⟨f.line, .malformedValue Keyword.outputs.spelling f.text⟩
  | fence (hk : k = .source) (hv : f.value ≠ []) (hf : isFence f.value = false) :
      FieldFault f block k ⟨f.line, .missingFence f.text⟩
  | tag (hk : k = .source) :
      FieldFault f block k
        ⟨f.line, .malformedValue Keyword.source.spelling (String.ofList (trim f.value))⟩

section FieldFault

variable {plan : Plan} {f : Field} {k : Keyword} {e : Error}

theorem eq_of_flag_eq_error (h : f.flag = .error e) :
    f.text ∉ ["yes", "true", "no", "false"] ∧
      e = ⟨f.line, .notBoolean (String.ofList f.keyword) f.text⟩ := by
  unfold Field.flag at h
  split at h
  · cases h
  · split at h
    · cases h
    · next hy hn =>
      cases h
      simp only [not_or] at hy hn
      simp [hy, hn]

theorem fieldFault_of_flag {block : Block} (hk : k.isFlag = true) {g : Bool → State}
    (h : f.flag.map g = .error e) : FieldFault f block k e := by
  obtain ⟨hv, rfl⟩ := eq_of_flag_eq_error (eq_error_of_map_eq_error h)
  exact .flag hk hv

theorem fieldFault_of_literal {block : Block} {value? : Option β} {g : β → State}
    (h : (f.literal value?).map g = .error e) : FieldFault f block k e := by
  cases value? with
  | some v => cases h
  | none =>
    cases h
    exact .value

theorem fieldFault_of_listField {block : Block} {field : ListField}
    (hk : k.listKind? = some field.kind) (h : listField plan field f = .error e) :
    FieldFault f block k e := by
  unfold listField at h
  split at h
  · cases h
  · next hv => exact .list hk (fault_of_openList hv h)

theorem fieldFault_of_rootField (h : rootField plan f k = .error e) : FieldFault f .root k e := by
  cases k with
  | name => cases h
  | version => cases h
  | _ =>
    cases h
    exact .keyword

theorem fieldFault_of_bufferField {b : Buffer} (h : bufferField plan b f k = .error e) :
    FieldFault f (.buffer b) k e := by
  cases k with
  | hasDepth => exact fieldFault_of_flag rfl h
  | textures => exact fieldFault_of_listField rfl h
  | _ =>
    cases h
    exact .keyword

theorem fieldFault_of_passField {p : Pass} (h : passField plan p f k = .error e) :
    FieldFault f (.pass p) k e := by
  cases k with
  | shader => cases h
  | draw => exact fieldFault_of_literal h
  | depthTest => exact fieldFault_of_literal h
  | inputs => exact fieldFault_of_listField rfl h
  | outputs =>
    simp only [passField] at h
    split at h
    · cases h
    · rcases fault_of_outputsValue h with rfl | hlist
      · exact .outputs rfl
      · exact .list rfl hlist
  | clearDepth => exact fieldFault_of_flag rfl h
  | writeDepth => exact fieldFault_of_flag rfl h
  | clearOutputs => exact fieldFault_of_flag rfl h
  | _ =>
    cases h
    exact .keyword

theorem fieldFault_of_textureField {t : Texture} (h : textureField plan t f k = .error e) :
    FieldFault f (.texture t) k e := by
  cases k with
  | path => cases h
  | format => exact fieldFault_of_literal h
  | scale => exact fieldFault_of_literal h
  | _ =>
    cases h
    exact .keyword

theorem fieldFault_of_stageField {s : Shader} {block : Block} {stage : Stage}
    (h : stageField plan s stage f = .error e) : FieldFault f block k e := by
  unfold stageField at h
  split at h
  · cases h
  · cases h
    exact .value

theorem fieldFault_of_sourceField {s : Shader} {block : Block} {st : OpenStage}
    (h : sourceField plan s st f = .error e) : FieldFault f block .source e := by
  unfold sourceField at h
  split at h
  · cases h
  · next hv =>
    split at h
    · unfold openBody at h
      split at h
      · cases h
      · cases h
        exact .tag rfl
    · next hf =>
      cases h
      exact .fence rfl hv (by simpa using hf)

/-- A field that ends the open stage is an error for the stage or on its own. -/
theorem fieldFault_of_afterStage {s : Shader} {stage : Option OpenStage} {x : Except Error State}
    (h : (closeStage stage >>= fun _ => x) = .error e)
    (hx : x = .error e → FieldFault f (.shader s stage) k e) :
    FieldFault f (.shader s stage) k e := by
  rcases error_or_of_bind_eq_error h with h | ⟨_, -, h⟩
  · obtain ⟨st, rfl, rfl⟩ := fault_of_closeStage h
    exact .stage rfl
  · exact hx h

theorem fieldFault_of_shaderField {s : Shader} {stage : Option OpenStage}
    (h : shaderField plan s stage f k = .error e) : FieldFault f (.shader s stage) k e := by
  cases k with
  | attributes => exact fieldFault_of_listField rfl h
  | uniforms => exact fieldFault_of_afterStage h fun h => fieldFault_of_listField rfl h
  | varying => exact fieldFault_of_afterStage h fun h => fieldFault_of_listField rfl h
  | vertexStage => exact fieldFault_of_afterStage h fieldFault_of_stageField
  | fragmentStage => exact fieldFault_of_afterStage h fieldFault_of_stageField
  | source =>
    cases stage with
    | some st => exact fieldFault_of_sourceField h
    | none =>
      cases h
      exact .keyword
  | _ =>
    cases h
    exact .keyword

theorem fieldFault_of_blockField {block : Block} (h : blockField plan block f k = .error e) :
    FieldFault f block k e := by
  unfold blockField at h
  split at h
  · rcases error_or_of_bind_eq_error h with h | ⟨p, -, h⟩
    · obtain ⟨s, st, rfl, rfl⟩ := fault_of_closeBlock h
      exact .stage rfl
    · split at h
      · cases h
        exact .value
      · cases h
  · cases block with
    | root => exact fieldFault_of_rootField h
    | buffer b => exact fieldFault_of_bufferField h
    | pass p => exact fieldFault_of_passField h
    | texture t => exact fieldFault_of_textureField h
    | shader s stage => exact fieldFault_of_shaderField h

end FieldFault

/-- The errors of a line where a field is expected. -/
inductive FieldLineFault (block : Block) (l : Line) : Error → Prop
  | colon (h : ':' ∉ l.text) :
      FieldLineFault block l ⟨l.number, .missingColon (String.ofList (trim l.text))⟩
  | unknown {f : Field} (hf : l.field? = some f) :
      FieldLineFault block l ⟨f.line, .unknownKeyword (String.ofList f.keyword)⟩
  | field {f : Field} {k : Keyword} {e : Error} (hf : l.field? = some f)
      (hk : Keyword.ofText? (String.ofList f.keyword) = some k) (h : FieldFault f block k e) :
      FieldLineFault block l e

theorem fieldLineFault_of_fieldLine {plan : Plan} {block : Block} {l : Line} {e : Error}
    (h : fieldLine plan block l = .error e) : FieldLineFault block l e := by
  unfold fieldLine at h
  split at h
  · next hf =>
    cases h
    refine .colon ?_
    rwa [Line.field?, Field.read?, Option.map_eq_none_iff, cutAt_eq_none_iff] at hf
  · next f hf =>
    split at h
    · next k hk => exact .field hf hk (fieldFault_of_blockField h)
    · cases h
      exact .unknown hf

/-- The errors that a line can bring about. -/
inductive Fault : State → Line → Error → Prop
  | field {plan : Plan} {block : Block} {l : Line} {e : Error} (hl : isIgnorable l.text = false)
      (h : FieldLineFault block l e) : Fault ⟨plan, .fields block⟩ l e
  | noList {plan : Plan} {field : ListField} {n : Nat} {l : Line} :
      Fault ⟨plan, .expectList field n⟩ l ⟨n, .malformedList field.kind ""⟩
  | openList {plan : Plan} {field : ListField} {n : Nat} {l : Line} {e : Error}
      (h : ListFault field.kind n l.text e) : Fault ⟨plan, .expectList field n⟩ l e
  | restOfList {plan : Plan} {field : ListField} {n : Nat} {opening inner : List Char} {l : Line}
      {e : Error} (h : ListFault field.kind n l.text e) :
      Fault ⟨plan, .list field n opening inner⟩ l e
  | inList {plan : Plan} {field : ListField} {n : Nat} {opening inner : List Char} {l : Line}
      {found : List Char} (h : QuotedFrom inner found) :
      Fault ⟨plan, .list field n opening inner⟩ l
        ⟨n, .malformedList field.kind (String.ofList found)⟩
  | noBuffer {plan : Plan} {p : Pass} {n : Nat} {l : Line} :
      Fault ⟨plan, .expectBuffer p n⟩ l ⟨n, .malformedValue Keyword.outputs.spelling ""⟩
  | bufferList {plan : Plan} {p : Pass} {n : Nat} {l : Line} {e : Error}
      (h : ListFault .output n l.text e) : Fault ⟨plan, .expectBuffer p n⟩ l e
  | openOutputs {plan : Plan} {p : Pass} {n : Nat} {buffer : List Char} {l : Line} {e : Error}
      (h : ListFault .output n l.text e) : Fault ⟨plan, .expectOutputs p n buffer⟩ l e
  | noOutputs {plan : Plan} {p : Pass} {n : Nat} {buffer : List Char} {l : Line} {e : Error}
      (hl : isIgnorable l.text = false)
      (h : FieldLineFault (.pass (withOutputs p buffer [])) l e) :
      Fault ⟨plan, .expectOutputs p n buffer⟩ l e
  | noFence {plan : Plan} {s : Shader} {st : OpenStage} {n : Nat} {l : Line}
      (hl : isIgnorable l.text = false) (hf : isFence l.text = false) :
      Fault ⟨plan, .expectFence s st n⟩ l
        ⟨l.number, .missingFence (String.ofList (trim l.text))⟩
  | tag {plan : Plan} {s : Shader} {st : OpenStage} {n : Nat} {l : Line}
      (hf : isFence l.text = true) :
      Fault ⟨plan, .expectFence s st n⟩ l
        ⟨l.number, .malformedValue Keyword.source.spelling (String.ofList (trim l.text))⟩

theorem fault_of_extend {plan : Plan} {field : ListField} {n : Nat} {opening inner : List Char}
    {l : Line} {e : Error}
    (h : continueList plan field n opening (.extend inner l.text) = .error e) :
    Fault ⟨plan, .list field n opening inner⟩ l e := by
  obtain ⟨joined, rest, hb, hfault⟩ := fault_of_continueList h
  unfold Bracket.extend at hb
  split at hb
  · cases hb
  · next last rest hc =>
    cases hb
    have hsplit := (cutAt_eq_some_iff.mp hc).1
    have hrest : rest <:+: l.text := ⟨last ++ [']'], [], by simp [hsplit]⟩
    have hlast : last <:+: l.text := ⟨[], ']' :: rest, by simp [hsplit]⟩
    rcases hfault with hfault | ⟨found, hq, rfl⟩
    · exact .restOfList (hfault.of_isInfix hrest)
    · rcases infix_or_of_infix_append_cons hq.newline hq.isInfix with hin | hin
      · exact .inList ⟨hq.ne_nil, hq.newline, hin⟩
      · exact .restOfList ⟨found, hq.ne_nil, hin.trans hlast, rfl⟩

theorem fault_of_consume {plan : Plan} {m : Mode} {l : Line} {e : Error}
    (hs : m.skips l.text = false) (h : consume plan l m = .error e) : Fault ⟨plan, m⟩ l e := by
  -- The line that must open a list begins with the bracket, so its text is not empty.
  have open_list : ∀ {field : ListField} {n : Nat}, startsWith '[' l.text = true →
      openList plan field n (trimStart l.text) = .error e → ListFault field.kind n l.text e := by
    intro field n ho h
    refine (fault_of_openList ?_ h).of_isInfix (trimStart_isInfix _)
    intro hnil
    simp [startsWith, hnil] at ho
  cases m with
  | fields block => exact .field hs (fieldLineFault_of_fieldLine h)
  | expectList field n =>
    simp only [consume] at h
    split at h
    · next ho => exact .openList (open_list ho h)
    · cases h
      exact .noList
  | list field n opening inner => exact fault_of_extend h
  | expectBuffer p n =>
    simp only [consume] at h
    split at h
    · cases h
      exact .noBuffer
    · rcases fault_of_outputsValue h with rfl | hlist
      · exact .noBuffer
      · exact .bufferList (hlist.of_isInfix (trim_isInfix _))
  | expectOutputs p n buffer =>
    simp only [consume] at h
    split at h
    · next ho => exact .openOutputs (open_list ho h)
    · exact .noOutputs hs (fieldLineFault_of_fieldLine h)
  | expectFence s st n =>
    simp only [consume] at h
    split at h
    · next hf =>
      unfold openBody at h
      split at h
      · cases h
      · cases h
        exact .tag hf
    · next hf =>
      cases h
      exact .noFence hs (by simpa using hf)
  | body s st n captured =>
    simp only [consume] at h
    split at h
    · cases h
    · cases h

/-- An error that a line brings about is one of those listed. -/
theorem fault_of_feed {s : State} {l : Line} {e : Error} (h : s.feed l = .error e) :
    Fault s l e := by
  unfold State.feed at h
  split at h
  · cases h
  · next hs => exact fault_of_consume (by simpa using hs) h

end RenderPlan.Description
