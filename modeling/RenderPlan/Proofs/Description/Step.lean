import RenderPlan.Proofs.Description.Outcome
/-!
What a line can do to a state. Where a line is no error, it is passed over, read as a field of the
block that is open, or taken by what waits for it: a list, the buffer of outputs, a fence or a body.
All that a line can lead to is listed here once; what a reading keeps is proved from the list.
-/
namespace RenderPlan.Description

open RenderPlan.Text

theorem exists_of_bind_eq_ok {ε α β : Type} {x : Except ε α} {f : α → Except ε β} {b : β}
    (h : x >>= f = .ok b) : ∃ a, x = .ok a ∧ f a = .ok b := by
  cases x with
  | error e => cases h
  | ok a => exact ⟨a, rfl, h⟩

theorem exists_of_map_eq_ok {x : Except ε α} {f : α → β} {b : β} (h : x.map f = .ok b) :
    ∃ a, x = .ok a ∧ f a = b := by
  cases x with
  | error e => cases h
  | ok a =>
    cases h
    exact ⟨a, rfl, rfl⟩

theorem eq_ok_of_toOption {ε α : Type} {x : Except ε α} {a : α} (h : x.toOption = some a) :
    x = .ok a := by
  cases x with
  | error e => cases h
  | ok b =>
    cases h
    rfl

theorem error_or_of_bind_eq_error {ε α β : Type} {x : Except ε α} {f : α → Except ε β} {e : ε}
    (h : x >>= f = .error e) : x = .error e ∨ ∃ a, x = .ok a ∧ f a = .error e := by
  cases x with
  | error e' =>
    cases h
    exact .inl rfl
  | ok a => exact .inr ⟨a, rfl, h⟩

theorem eq_error_of_map_eq_error {ε α β : Type} {x : Except ε α} {f : α → β} {e : ε}
    (h : x.map f = .error e) : x = .error e := by
  cases x with
  | error e' =>
    cases h
    rfl
  | ok a => cases h

/-- Where a reading stands when it knows a list as far as a bracket. -/
inductive ListStep (plan : Plan) (field : ListField) (line : Nat) (opening : List Char) :
    Bracket → State → Prop
  | unclosed (inner : List Char) :
      ListStep plan field line opening (.unclosed inner) ⟨plan, .list field line opening inner⟩
  | closed {inner rest : List Char} {block : Block} (hr : trim rest = [])
      (hf : field.fill inner = .ok block) :
      ListStep plan field line opening (.closed inner rest) (.inBlock plan block)

theorem listStep_of_continueList {plan : Plan} {field : ListField} {line : Nat}
    {opening : List Char} {b : Bracket} {t : State}
    (h : continueList plan field line opening b = .ok t) :
    ListStep plan field line opening b t := by
  cases b with
  | unclosed inner =>
    cases h
    exact .unclosed inner
  | closed inner rest =>
    simp only [continueList] at h
    split at h
    · next hr =>
      cases hf : field.fill inner with
      | ok block =>
        rw [hf] at h
        cases h
        exact .closed hr hf
      | error found =>
        rw [hf] at h
        cases h
    · cases h

/-- A list is started by an opening bracket. -/
theorem listStep_of_openList {plan : Plan} {field : ListField} {line : Nat} {text : List Char}
    {t : State} (h : openList plan field line text = .ok t) :
    ∃ opened, text = '[' :: opened ∧ ListStep plan field line text (.start opened) t := by
  unfold openList at h
  split at h
  · next opened => exact ⟨opened, rfl, listStep_of_continueList h⟩
  · cases h

/-- Where a reading stands behind the value of an `outputs` field. -/
inductive OutputsStep (plan : Plan) (p : Pass) (line : Nat) (value : List Char) : State → Prop
  | alone {buffer : List Char} (hv : splitOutputs value = (buffer, none))
      (hb : isBufferName buffer = true) :
      OutputsStep plan p line value ⟨plan, .expectOutputs p line buffer⟩
  | withList {buffer opened : List Char} {t : State}
      (hv : splitOutputs value = (buffer, some ('[' :: opened)))
      (hb : isBufferName buffer = true)
      (h : ListStep plan (.outputs p buffer) line ('[' :: opened) (.start opened) t) :
      OutputsStep plan p line value t

theorem outputsStep_of_outputsValue {plan : Plan} {p : Pass} {line : Nat}
    {quoted value : List Char} {t : State} (h : outputsValue plan p line quoted value = .ok t) :
    OutputsStep plan p line value t := by
  unfold outputsValue at h
  cases hv : splitOutputs value with
  | mk buffer list =>
    simp only [hv] at h
    split at h
    · next hb =>
      cases list with
      | none =>
        cases h
        exact .alone hv hb
      | some text =>
        obtain ⟨opened, rfl, hs⟩ := listStep_of_openList h
        exact .withList hv hb hs
    · cases h

/-- Fields that set a value of their block, and the block with the value set. -/
inductive Sets (f : Field) : Block → Keyword → Block → Prop
  | hasDepth (b : Buffer) {v : Bool} (h : f.flag = .ok v) :
      Sets f (.buffer b) .hasDepth (.buffer { b with hasDepth := v })
  | shader (p : Pass) : Sets f (.pass p) .shader (.pass { p with shader := f.text })
  | draw (p : Pass) {v : DrawMode} (h : DrawMode.ofText? f.text = some v) :
      Sets f (.pass p) .draw (.pass { p with draw := v })
  | clearDepth (p : Pass) {v : Bool} (h : f.flag = .ok v) :
      Sets f (.pass p) .clearDepth (.pass { p with clearDepth := v })
  | writeDepth (p : Pass) {v : Bool} (h : f.flag = .ok v) :
      Sets f (.pass p) .writeDepth (.pass { p with writeDepth := v })
  | clearOutputs (p : Pass) {v : Bool} (h : f.flag = .ok v) :
      Sets f (.pass p) .clearOutputs (.pass { p with clearOutputs := v })
  | depthTest (p : Pass) {v : DepthTest} (h : DepthTest.ofText? f.text = some v) :
      Sets f (.pass p) .depthTest (.pass { p with depthTest := v })
  | path (t : Texture) : Sets f (.texture t) .path (.texture { t with path := some f.text })
  | format (t : Texture) {v : TexelFormat} (h : TexelFormat.ofText? f.text = some v) :
      Sets f (.texture t) .format (.texture { t with format := v })
  | scale (t : Texture) {v : Scale} (h : Scale.read? f.value = some v) :
      Sets f (.texture t) .scale (.texture { t with scale := v })
  | vertexStage (s : Shader) {st : Option OpenStage} (hst : closeStage st = .ok ())
      (hv : f.value = []) :
      Sets f (.shader s st) .vertexStage (.shader s (some { stage := .vertex, line := f.line }))
  | fragmentStage (s : Shader) {st : Option OpenStage} (hst : closeStage st = .ok ())
      (hv : f.value = []) :
      Sets f (.shader s st) .fragmentStage
        (.shader s (some { stage := .fragment, line := f.line }))

/-- The list fields of each block. -/
inductive Lists : Block → Keyword → ListField → Prop
  | textures (b : Buffer) : Lists (.buffer b) .textures (.attachments b)
  | inputs (p : Pass) : Lists (.pass p) .inputs (.inputs p)
  | attributes (s : Shader) (st : Option OpenStage) :
      Lists (.shader s st) .attributes (.attributes s st)
  | uniforms (s : Shader) {st : Option OpenStage} (hst : closeStage st = .ok ()) :
      Lists (.shader s st) .uniforms (.uniforms s)
  | varyings (s : Shader) {st : Option OpenStage} (hst : closeStage st = .ok ()) :
      Lists (.shader s st) .varying (.varyings s)

/-- What a field can do where it is no error. -/
inductive FieldStep (plan : Plan) (f : Field) : Block → Keyword → State → Prop
  | name : FieldStep plan f .root .name (.inBlock { plan with name := f.text } .root)
  | version : FieldStep plan f .root .version (.inBlock { plan with version := f.text } .root)
  | opens {block next : Block} {k : Keyword} {p : Plan} (ho : opensBlockIn block f k = true)
      (hn : newBlock? f.text k = some next) (hc : closeBlock plan block = .ok p)
      (hv : f.value ≠ []) : FieldStep plan f block k (.inBlock p next)
  | sets {block block' : Block} {k : Keyword} (h : Sets f block k block') :
      FieldStep plan f block k (.inBlock plan block')
  | awaitsList {block : Block} {k : Keyword} {field : ListField} (h : Lists block k field)
      (hv : f.value = []) : FieldStep plan f block k ⟨plan, .expectList field f.line⟩
  | opensList {block : Block} {k : Keyword} {field : ListField} {opened : List Char} {t : State}
      (h : Lists block k field) (hv : f.value = '[' :: opened)
      (ht : ListStep plan field f.line f.value (.start opened) t) : FieldStep plan f block k t
  | awaitsBuffer (p : Pass) (hv : f.value = []) :
      FieldStep plan f (.pass p) .outputs ⟨plan, .expectBuffer p f.line⟩
  | outputs (p : Pass) {t : State} (hv : f.value ≠ [])
      (ht : OutputsStep plan p f.line f.value t) : FieldStep plan f (.pass p) .outputs t
  | awaitsFence (s : Shader) (st : OpenStage) (hv : f.value = []) :
      FieldStep plan f (.shader s (some st)) .source ⟨plan, .expectFence s st f.line⟩
  | opensBody (s : Shader) (st : OpenStage) (hf : isFence f.value = true)
      (ho : isOpeningFence f.value = true) :
      FieldStep plan f (.shader s (some st)) .source ⟨plan, .body s st f.line []⟩

theorem fieldStep_of_listField {plan : Plan} {f : Field} {block : Block} {k : Keyword}
    {field : ListField} (hl : Lists block k field) {t : State}
    (h : listField plan field f = .ok t) : FieldStep plan f block k t := by
  unfold listField at h
  split at h
  · next hv =>
    cases h
    exact .awaitsList hl hv
  · obtain ⟨opened, hv, ht⟩ := listStep_of_openList h
    exact .opensList hl hv ht

theorem eq_some_of_literal {f : Field} {value? : Option β} {v : β}
    (h : f.literal value? = .ok v) : value? = some v := by
  cases value? with
  | some w =>
    cases h
    rfl
  | none => cases h

theorem fieldStep_of_rootField {plan : Plan} {f : Field} {k : Keyword} {t : State}
    (h : rootField plan f k = .ok t) : FieldStep plan f .root k t := by
  cases k with
  | name =>
    cases h
    exact .name
  | version =>
    cases h
    exact .version
  | _ => cases h

theorem fieldStep_of_bufferField {plan : Plan} {b : Buffer} {f : Field} {k : Keyword} {t : State}
    (h : bufferField plan b f k = .ok t) : FieldStep plan f (.buffer b) k t := by
  cases k with
  | hasDepth =>
    obtain ⟨v, hv, rfl⟩ := exists_of_map_eq_ok h
    exact .sets (.hasDepth b hv)
  | textures => exact fieldStep_of_listField (.textures b) h
  | _ => cases h

theorem fieldStep_of_passField {plan : Plan} {p : Pass} {f : Field} {k : Keyword} {t : State}
    (h : passField plan p f k = .ok t) : FieldStep plan f (.pass p) k t := by
  cases k with
  | shader =>
    cases h
    exact .sets (.shader p)
  | draw =>
    obtain ⟨v, hv, rfl⟩ := exists_of_map_eq_ok h
    exact .sets (.draw p (eq_some_of_literal hv))
  | inputs => exact fieldStep_of_listField (.inputs p) h
  | outputs =>
    simp only [passField] at h
    split at h
    · next hv =>
      cases h
      exact .awaitsBuffer p hv
    · next hv => exact .outputs p hv (outputsStep_of_outputsValue h)
  | clearDepth =>
    obtain ⟨v, hv, rfl⟩ := exists_of_map_eq_ok h
    exact .sets (.clearDepth p hv)
  | writeDepth =>
    obtain ⟨v, hv, rfl⟩ := exists_of_map_eq_ok h
    exact .sets (.writeDepth p hv)
  | clearOutputs =>
    obtain ⟨v, hv, rfl⟩ := exists_of_map_eq_ok h
    exact .sets (.clearOutputs p hv)
  | depthTest =>
    obtain ⟨v, hv, rfl⟩ := exists_of_map_eq_ok h
    exact .sets (.depthTest p (eq_some_of_literal hv))
  | _ => cases h

theorem fieldStep_of_textureField {plan : Plan} {x : Texture} {f : Field} {k : Keyword}
    {t : State} (h : textureField plan x f k = .ok t) : FieldStep plan f (.texture x) k t := by
  cases k with
  | path =>
    cases h
    exact .sets (.path x)
  | format =>
    obtain ⟨v, hv, rfl⟩ := exists_of_map_eq_ok h
    exact .sets (.format x (eq_some_of_literal hv))
  | scale =>
    obtain ⟨v, hv, rfl⟩ := exists_of_map_eq_ok h
    exact .sets (.scale x (eq_some_of_literal hv))
  | _ => cases h

/-- A stage that is opened takes no value. -/
theorem eq_of_stageField {plan : Plan} {s : Shader} {stage : Stage} {f : Field} {t : State}
    (h : stageField plan s stage f = .ok t) :
    f.value = [] ∧ t = .inBlock plan (.shader s (some { stage := stage, line := f.line })) := by
  unfold stageField at h
  split at h
  · next hv =>
    cases h
    exact ⟨hv, rfl⟩
  · cases h

theorem eq_of_openBody {plan : Plan} {s : Shader} {st : OpenStage} {line : Nat}
    {fence : List Char} {t : State} (h : openBody plan s st line fence = .ok t) :
    isOpeningFence fence = true ∧ t = ⟨plan, .body s st line []⟩ := by
  unfold openBody at h
  split at h
  · next ho =>
    cases h
    exact ⟨ho, rfl⟩
  · cases h

theorem fieldStep_of_sourceField {plan : Plan} {s : Shader} {st : OpenStage} {f : Field}
    {t : State} (h : sourceField plan s st f = .ok t) :
    FieldStep plan f (.shader s (some st)) .source t := by
  unfold sourceField at h
  split at h
  · next hv =>
    cases h
    exact .awaitsFence s st hv
  · split at h
    · next hf =>
      obtain ⟨ho, rfl⟩ := eq_of_openBody h
      exact .opensBody s st hf ho
    · cases h

theorem fieldStep_of_shaderField {plan : Plan} {s : Shader} {st : Option OpenStage} {f : Field}
    {k : Keyword} {t : State} (h : shaderField plan s st f k = .ok t) :
    FieldStep plan f (.shader s st) k t := by
  cases k with
  | attributes => exact fieldStep_of_listField (.attributes s st) h
  | uniforms =>
    obtain ⟨_, hst, h⟩ := exists_of_bind_eq_ok h
    exact fieldStep_of_listField (.uniforms s hst) h
  | varying =>
    obtain ⟨_, hst, h⟩ := exists_of_bind_eq_ok h
    exact fieldStep_of_listField (.varyings s hst) h
  | vertexStage =>
    obtain ⟨_, hst, h⟩ := exists_of_bind_eq_ok h
    obtain ⟨hv, rfl⟩ := eq_of_stageField h
    exact .sets (.vertexStage s hst hv)
  | fragmentStage =>
    obtain ⟨_, hst, h⟩ := exists_of_bind_eq_ok h
    obtain ⟨hv, rfl⟩ := eq_of_stageField h
    exact .sets (.fragmentStage s hst hv)
  | source =>
    cases st with
    | some st => exact fieldStep_of_sourceField h
    | none => cases h
  | _ => cases h

theorem newBlock_of_opensBlock {k : Keyword} (h : k.opensBlock = true) (name : String) :
    ∃ b, newBlock? name k = some b := by
  cases k <;> first | exact ⟨_, rfl⟩ | cases h

theorem fieldStep_of_blockField {plan : Plan} {block : Block} {f : Field} {k : Keyword}
    {t : State} (h : blockField plan block f k = .ok t) : FieldStep plan f block k t := by
  unfold blockField at h
  split at h
  · next next hn ho =>
    obtain ⟨p, hc, h⟩ := exists_of_bind_eq_ok h
    split at h
    · cases h
    · next hv =>
      cases h
      exact .opens ho hn hc hv
  · cases block with
    | root => exact fieldStep_of_rootField h
    | buffer b => exact fieldStep_of_bufferField h
    | pass p => exact fieldStep_of_passField h
    | texture x => exact fieldStep_of_textureField h
    | shader s st => exact fieldStep_of_shaderField h

/-- A line read as a field of a block. -/
inductive FieldLineStep (plan : Plan) (block : Block) (l : Line) (t : State) : Prop
  | intro (f : Field) (k : Keyword) (hf : l.field? = some f)
      (hk : Keyword.ofText? (String.ofList f.keyword) = some k) (ht : FieldStep plan f block k t)

theorem fieldLineStep_of_fieldLine {plan : Plan} {block : Block} {l : Line} {t : State}
    (h : fieldLine plan block l = .ok t) : FieldLineStep plan block l t := by
  unfold fieldLine at h
  split at h
  · cases h
  · next f hf =>
    split at h
    · next k hk => exact .intro f k hf hk (fieldStep_of_blockField h)
    · cases h

/-- What a line can do where it is no error. -/
inductive Step : State → Line → State → Prop
  | skip {s : State} {l : Line} (h : s.mode.skips l.text = true) : Step s l s
  | field {plan : Plan} {block : Block} {l : Line} {t : State}
      (ht : FieldLineStep plan block l t) : Step ⟨plan, .fields block⟩ l t
  | openList {plan : Plan} {field : ListField} {n : Nat} {l : Line} {opened : List Char}
      {t : State} (hl : trimStart l.text = '[' :: opened)
      (ht : ListStep plan field n (trimStart l.text) (.start opened) t) :
      Step ⟨plan, .expectList field n⟩ l t
  | extendList {plan : Plan} {field : ListField} {n : Nat} {opening inner : List Char} {l : Line}
      {t : State} (hl : isComment l.text = false)
      (ht : ListStep plan field n opening (.extend inner l.text) t) :
      Step ⟨plan, .list field n opening inner⟩ l t
  | buffer {plan : Plan} {p : Pass} {n : Nat} {l : Line} {t : State} (hl : ':' ∉ l.text)
      (ht : OutputsStep plan p n (trim l.text) t) : Step ⟨plan, .expectBuffer p n⟩ l t
  | openOutputs {plan : Plan} {p : Pass} {n : Nat} {buffer : List Char} {l : Line}
      {opened : List Char} {t : State} (hl : trimStart l.text = '[' :: opened)
      (ht : ListStep plan (.outputs p buffer) n (trimStart l.text) (.start opened) t) :
      Step ⟨plan, .expectOutputs p n buffer⟩ l t
  | noOutputs {plan : Plan} {p : Pass} {n : Nat} {buffer : List Char} {l : Line} {t : State}
      (ht : FieldLineStep plan (.pass (withOutputs p buffer [])) l t) :
      Step ⟨plan, .expectOutputs p n buffer⟩ l t
  | fence {plan : Plan} {s : Shader} {st : OpenStage} {n : Nat} {l : Line}
      (hf : isFence l.text = true) (ho : isOpeningFence l.text = true) :
      Step ⟨plan, .expectFence s st n⟩ l ⟨plan, .body s st l.number []⟩
  | capture {plan : Plan} {s : Shader} {st : OpenStage} {n : Nat} {captured : List (List Char)}
      {l : Line} (hf : isFence l.text = false) :
      Step ⟨plan, .body s st n captured⟩ l ⟨plan, .body s st n (l.text :: captured)⟩
  | endBody {plan : Plan} {s : Shader} {st : OpenStage} {n : Nat} {captured : List (List Char)}
      {l : Line} (hf : isFence l.text = true) :
      Step ⟨plan, .body s st n captured⟩ l
        (.inBlock plan (.shader (withBody s st.stage (bodyText captured))
          (some { st with hasSource := true })))

theorem step_of_consume {plan : Plan} {m : Mode} {l : Line} {t : State}
    (hs : m.skips l.text = false) (h : consume plan l m = .ok t) : Step ⟨plan, m⟩ l t := by
  cases m with
  | fields block => exact .field (fieldLineStep_of_fieldLine h)
  | expectList field n =>
    simp only [consume] at h
    split at h
    · obtain ⟨opened, hl, ht⟩ := listStep_of_openList h
      exact .openList hl ht
    · cases h
  | list field n opening inner => exact .extendList hs (listStep_of_continueList h)
  | expectBuffer p n =>
    simp only [consume] at h
    split at h
    · cases h
    · next hl => exact .buffer hl (outputsStep_of_outputsValue h)
  | expectOutputs p n buffer =>
    simp only [consume] at h
    split at h
    · obtain ⟨opened, hl, ht⟩ := listStep_of_openList h
      exact .openOutputs hl ht
    · exact .noOutputs (fieldLineStep_of_fieldLine h)
  | expectFence s st n =>
    simp only [consume] at h
    split at h
    · next hf =>
      obtain ⟨ho, rfl⟩ := eq_of_openBody h
      exact .fence hf ho
    · cases h
  | body s st n captured =>
    simp only [consume] at h
    split at h
    · next hf =>
      cases h
      exact .endBody hf
    · next hf =>
      cases h
      exact .capture (by simpa using hf)

/-- A line that is no error does one of the things listed. -/
theorem step_of_feed {s t : State} {l : Line} (h : s.feed l = .ok t) : Step s l t := by
  unfold State.feed at h
  split at h
  · next hs =>
    cases h
    exact .skip hs
  · next hs => exact step_of_consume (by simpa using hs) h

/-- What every step keeps, a run keeps. -/
theorem feedAll_keeps {P : State → Prop} {ls : List Line}
    (step : ∀ s l t, l ∈ ls → P s → Step s l t → P t) {s t : State} (hs : P s)
    (h : s.feedAll ls = .ok t) : P t := by
  induction ls generalizing s with
  | nil =>
    cases h
    exact hs
  | cons l ls ih =>
    rw [State.feedAll_cons] at h
    obtain ⟨u, hu, h⟩ := exists_of_bind_eq_ok h
    exact ih (fun a m b hm => step a m b (by simp [hm])) (step s l u (by simp) hs (step_of_feed hu))
      h

/-- An open body takes all lines that are no fences. -/
theorem feedAll_body {plan : Plan} {s : Shader} {st : OpenStage} {n : Nat}
    {c ts : List (List Char)} {m : Nat} (h : ∀ t ∈ ts, isFence t = false) :
    State.feedAll ⟨plan, .body s st n c⟩ (numberFrom m ts) =
      .ok ⟨plan, .body s st n (ts.reverse ++ c)⟩ := by
  induction ts generalizing c m with
  | nil => rfl
  | cons t ts ih =>
    have ht : State.feed ⟨plan, .body s st n c⟩ ⟨m, t⟩ = .ok ⟨plan, .body s st n (t :: c)⟩ := by
      simp [State.feed, Mode.skips, consume, h t (by simp)]
    rw [numberFrom_cons, State.feedAll_cons, ht]
    change State.feedAll _ _ = _
    rw [ih fun u hu => h u (by simp [hu])]
    simp

end RenderPlan.Description
