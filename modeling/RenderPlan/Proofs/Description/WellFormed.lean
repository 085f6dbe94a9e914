import RenderPlan.Proofs.Description.ListContent
/-!
Every plan that is read is well formed. All that a state holds is well formed already: the blocks
that are finished, the one that is open, the text of an open list, which has no closing bracket yet,
and the lines of an open body, none of which is a fence. Every step keeps this, so every run does.
-/
namespace RenderPlan.Description

open RenderPlan.Text

def Block.WellFormed : Block → Prop
  | .root => True
  | .buffer b => b.WellFormed
  | .pass p => p.WellFormed
  | .texture t => t.WellFormed
  | .shader s _ => s.WellFormed

/-- A text that a pass can draw into as its output buffer. -/
def IsBufferName (buffer : List Char) : Prop :=
  buffer ≠ [] ∧ ∀ c ∈ buffer, isBlank c = false ∧ c ≠ '['

def ListField.WellFormed : ListField → Prop
  | .attributes s _ => s.WellFormed
  | .uniforms s => s.WellFormed
  | .varyings s => s.WellFormed
  | .attachments b => b.WellFormed
  | .inputs p => p.WellFormed
  | .outputs p buffer => p.WellFormed ∧ IsBufferName buffer

def Mode.WellFormed : Mode → Prop
  | .fields block => block.WellFormed
  | .expectList field _ => field.WellFormed
  | .list field _ _ inner => field.WellFormed ∧ ']' ∉ inner
  | .expectBuffer p _ => p.WellFormed
  | .expectOutputs p _ buffer => p.WellFormed ∧ IsBufferName buffer
  | .expectFence s _ _ => s.WellFormed
  | .body s _ _ captured => s.WellFormed ∧ ∀ l ∈ captured, '\n' ∉ l ∧ isFence l = false

def State.WellFormed (s : State) : Prop := s.plan.WellFormed ∧ s.mode.WellFormed

/-- A bracket as far as it has been read. -/
def Bracket.inner : Bracket → List Char
  | .unclosed inner => inner
  | .closed inner _ => inner

theorem closing_not_mem_start (opened : List Char) : ']' ∉ (Bracket.start opened).inner := by
  unfold Bracket.start
  split
  · next h => exact cutAt_eq_none_iff.mp h
  · next inner rest h => exact (cutAt_eq_some_iff.mp h).2

/-- Further lines bring no closing bracket into the text of a list. -/
theorem closing_not_mem_extend {inner : List Char} (h : ']' ∉ inner) (line : List Char) :
    ']' ∉ (Bracket.extend inner line).inner := by
  unfold Bracket.extend
  split
  · next hl =>
    have := cutAt_eq_none_iff.mp hl
    simp [Bracket.inner, h, this]
  · next last rest hl =>
    have := (cutAt_eq_some_iff.mp hl).2
    simp [Bracket.inner, h, this]

theorem wellFormed_withOutputs {p : Pass} (hp : p.WellFormed) {buffer : List Char}
    (hb : IsBufferName buffer) {textures : List String}
    (ht : ∀ t ∈ textures, IsWord [',', ']'] t) : (withOutputs p buffer textures).WellFormed where
  name := hp.name
  shader := hp.shader
  inputs := hp.inputs
  outputBuffer := freeOf_ofList_iff.mpr fun c hc => by simpa using hb.2 c hc
  outputTextures := ht
  outputsNamed h := absurd (by simpa [withOutputs] using h) hb.1

/-- A list without a closing bracket fills its block with well-formed parts. -/
theorem wellFormed_of_fill {field : ListField} (hf : field.WellFormed) {inner : List Char}
    (hi : ']' ∉ inner) {block : Block} (h : field.fill inner = .ok block) : block.WellFormed := by
  cases field with
  | attributes s st =>
    obtain ⟨vs, hvs, rfl⟩ := exists_of_map_eq_ok h
    have hv := wellFormed_of_readVariables hi hvs
    exact { hf with attributes := List.forall_mem_append.mpr ⟨hf.attributes, hv⟩ }
  | uniforms s =>
    obtain ⟨vs, hvs, rfl⟩ := exists_of_map_eq_ok h
    have hv := wellFormed_of_readVariables hi hvs
    exact { hf with uniforms := List.forall_mem_append.mpr ⟨hf.uniforms, hv⟩ }
  | varyings s =>
    obtain ⟨vs, hvs, rfl⟩ := exists_of_map_eq_ok h
    have hv := wellFormed_of_readVariables hi hvs
    exact { hf with varyings := List.forall_mem_append.mpr ⟨hf.varyings, hv⟩ }
  | attachments b =>
    obtain ⟨ts, hts, rfl⟩ := exists_of_map_eq_ok h
    exact { hf with textures := isAttachment_of_readAttachments hi hts }
  | inputs p =>
    obtain ⟨is, his, rfl⟩ := exists_of_map_eq_ok h
    exact { hf with inputs := wellFormed_of_readInputs hi his }
  | outputs p buffer =>
    cases h
    exact wellFormed_withOutputs hf.1 hf.2 (isWord_of_mem_readOutputs hi)

theorem wellFormed_of_listStep {plan : Plan} (hp : plan.WellFormed) {field : ListField}
    (hf : field.WellFormed) {line : Nat} {opening : List Char} {b : Bracket} (hb : ']' ∉ b.inner)
    {t : State} (h : ListStep plan field line opening b t) : t.WellFormed := by
  cases h with
  | unclosed inner => exact ⟨hp, hf, hb⟩
  | closed hr hfill => exact ⟨hp, wellFormed_of_fill hf hb hfill⟩

/-- The buffer in the value of an `outputs` field ends before the first opening bracket. -/
theorem isBufferName_of_splitOutputs {value buffer : List Char} {list : Option (List Char)}
    (h : splitOutputs value = (buffer, list)) (hb : isBufferName buffer = true) :
    IsBufferName buffer := by
  have hfree : '[' ∉ buffer := by
    unfold splitOutputs at h
    split at h
    · next a opened hc =>
      cases h
      exact fun hm => (cutAt_eq_some_iff.mp hc).2 (mem_of_mem_trim hm)
    · next hc =>
      cases h
      exact cutAt_eq_none_iff.mp hc
  simp only [isBufferName, Bool.and_eq_true, Bool.not_eq_true', List.isEmpty_eq_false_iff,
    List.any_eq_false, Bool.not_eq_true] at hb
  refine ⟨hb.1, fun c hc => ⟨hb.2 c hc, ?_⟩⟩
  rintro rfl
  exact hfree hc

theorem wellFormed_of_outputsStep {plan : Plan} (hplan : plan.WellFormed) {p : Pass}
    (hp : p.WellFormed) {line : Nat} {value : List Char} {t : State}
    (h : OutputsStep plan p line value t) : t.WellFormed := by
  cases h with
  | alone hv hb => exact ⟨hplan, hp, isBufferName_of_splitOutputs hv hb⟩
  | @withList buffer _ _ hv hb ht =>
    have hfield : (ListField.outputs p buffer).WellFormed :=
      ⟨hp, isBufferName_of_splitOutputs hv hb⟩
    exact wellFormed_of_listStep hplan hfield (closing_not_mem_start _) ht

/-- Keyword and value of a field are trimmed texts of one line. -/
theorem isTrimmed_of_field {l : Line} (hl : '\n' ∉ l.text) {f : Field} (h : l.field? = some f) :
    IsTrimmed f.text := by
  obtain ⟨⟨k, v⟩, hc, rfl⟩ := Option.map_eq_some_iff.mp h
  obtain ⟨ht, _⟩ := cutAt_eq_some_iff.mp hc
  constructor
  · simp [Field.text]
  · intro hn
    apply hl
    rw [ht]
    simp [mem_of_mem_trim (show '\n' ∈ trim v by simpa [Field.text] using hn)]

theorem wellFormed_of_newBlock? {name : String} (hn : IsTitle name) {k : Keyword} {block : Block}
    (h : newBlock? name k = some block) : block.WellFormed := by
  cases k with
  | buffer =>
    cases h
    exact { name := hn, textures := by simp }
  | pass =>
    cases h
    exact { name := hn, shader := by simp, inputs := by simp, outputBuffer := by simp,
            outputTextures := by simp, outputsNamed := by simp }
  | shader =>
    cases h
    exact { name := hn, vertexBody := by simp, fragmentBody := by simp, attributes := by simp,
            uniforms := by simp, varyings := by simp }
  | texture =>
    cases h
    exact { name := hn, path := by simp, scale := Scale.one.inRange }
  | _ => cases h

theorem forall_mem_concat {p : α → Prop} {as : List α} {a : α} (h : ∀ x ∈ as, p x) (ha : p a) :
    ∀ x ∈ as ++ [a], p x :=
  List.forall_mem_append.mpr ⟨h, List.forall_mem_singleton.mpr ha⟩

theorem wellFormed_of_closeBlock {plan p : Plan} (hp : plan.WellFormed) {block : Block}
    (hb : block.WellFormed) (h : closeBlock plan block = .ok p) : p.WellFormed := by
  cases block with
  | root =>
    cases h
    exact hp
  | buffer b =>
    cases h
    exact { hp with buffers := forall_mem_concat hp.buffers hb }
  | pass q =>
    cases h
    exact { hp with passes := forall_mem_concat hp.passes hb }
  | texture t =>
    cases h
    exact { hp with textures := forall_mem_concat hp.textures hb }
  | shader s st =>
    obtain ⟨_, _, rfl⟩ := exists_of_map_eq_ok h
    exact { hp with shaders := forall_mem_concat hp.shaders hb }

theorem wellFormed_of_sets {f : Field} (hf : IsTrimmed f.text) {block block' : Block} {k : Keyword}
    (hb : block.WellFormed) (h : Sets f block k block') : block'.WellFormed := by
  cases h with
  | shader p => exact { hb with shader := hf }
  | path t => exact { hb with path := by simpa using hf }
  | @scale t v _ => exact { hb with scale := v.inRange }
  | hasDepth b _ => exact ⟨hb.name, hb.textures⟩
  | format t _ => exact ⟨hb.name, hb.path, hb.scale⟩
  | vertexStage s _ _ => exact hb
  | fragmentStage s _ _ => exact hb
  | draw p _ | clearDepth p _ | writeDepth p _ | clearOutputs p _ | depthTest p _ =>
    exact ⟨hb.name, hb.shader, hb.inputs, hb.outputBuffer, hb.outputTextures, hb.outputsNamed⟩

theorem wellFormed_of_lists {block : Block} (hb : block.WellFormed) {k : Keyword}
    {field : ListField} (h : Lists block k field) : field.WellFormed := by
  cases h <;> exact hb

theorem wellFormed_of_fieldStep {plan : Plan} (hp : plan.WellFormed) {block : Block}
    (hb : block.WellFormed) {f : Field} (hf : IsTrimmed f.text) {k : Keyword} {t : State}
    (h : FieldStep plan f block k t) : t.WellFormed := by
  cases h with
  | name => exact ⟨{ hp with name := hf }, trivial⟩
  | version => exact ⟨{ hp with version := hf }, trivial⟩
  | opens ho hn hc hv =>
    have ht : IsTitle f.text := ⟨by simpa [Field.text] using hv, hf⟩
    exact ⟨wellFormed_of_closeBlock hp hb hc, wellFormed_of_newBlock? ht hn⟩
  | sets hs => exact ⟨hp, wellFormed_of_sets hf hb hs⟩
  | awaitsList hl hv => exact ⟨hp, wellFormed_of_lists hb hl⟩
  | opensList hl hv ht =>
    exact wellFormed_of_listStep hp (wellFormed_of_lists hb hl) (closing_not_mem_start _) ht
  | awaitsBuffer p hv => exact ⟨hp, hb⟩
  | outputs p hv ht => exact wellFormed_of_outputsStep hp hb ht
  | awaitsFence s st hv => exact ⟨hp, hb⟩
  | opensBody s st hfence ho => exact ⟨hp, hb, by simp⟩

/-- The captured lines of a body make up a body. -/
theorem isBody_bodyText {captured : List (List Char)}
    (h : ∀ l ∈ captured, '\n' ∉ l ∧ isFence l = false) :
    IsBody (String.ofList (bodyText captured)) :=
  isBody_iff.mpr ⟨captured.reverse, by simp [bodyText], fun l hl => h l (by simpa using hl)⟩

theorem wellFormed_withBody {s : Shader} (hs : s.WellFormed) (stage : Stage) {body : List Char}
    (hb : IsBody (String.ofList body)) : (withBody s stage body).WellFormed := by
  cases stage with
  | vertex => exact { hs with vertexBody := hb }
  | fragment => exact { hs with fragmentBody := hb }

/-- Every step leads from a well-formed state to a well-formed state. -/
theorem wellFormed_of_step {s t : State} {l : Line} (hl : '\n' ∉ l.text) (hs : s.WellFormed)
    (h : Step s l t) : t.WellFormed := by
  have fieldLine : ∀ {plan : Plan} {block : Block}, plan.WellFormed → block.WellFormed →
      FieldLineStep plan block l t → t.WellFormed := by
    rintro plan block hp hb ⟨f, k, hf, _, ht⟩
    exact wellFormed_of_fieldStep hp hb (isTrimmed_of_field hl hf) ht
  obtain ⟨hp, hm⟩ := hs
  cases h with
  | skip _ => exact ⟨hp, hm⟩
  | field ht => exact fieldLine hp hm ht
  | openList _ ht => exact wellFormed_of_listStep hp hm (closing_not_mem_start _) ht
  | extendList _ ht =>
    exact wellFormed_of_listStep hp hm.1 (closing_not_mem_extend hm.2 l.text) ht
  | buffer _ ht => exact wellFormed_of_outputsStep hp hm ht
  | @openOutputs _ p _ buffer _ _ _ _ ht =>
    have hfield : (ListField.outputs p buffer).WellFormed := hm
    exact wellFormed_of_listStep hp hfield (closing_not_mem_start _) ht
  | @noOutputs _ p _ buffer _ _ ht =>
    have hb : (Block.pass (withOutputs p buffer [])).WellFormed :=
      wellFormed_withOutputs hm.1 hm.2 (by simp)
    exact fieldLine hp hb ht
  | fence _ _ => exact ⟨hp, hm, by simp⟩
  | capture hf =>
    refine ⟨hp, hm.1, fun m hmem => ?_⟩
    rcases List.mem_cons.mp hmem with rfl | hmem
    · exact ⟨hl, hf⟩
    · exact hm.2 m hmem
  | endBody _ => exact ⟨hp, wellFormed_withBody hm.1 _ (isBody_bodyText hm.2)⟩

theorem wellFormed_initial : State.initial.WellFormed := by
  refine ⟨?_, trivial⟩
  constructor <;> simp [State.initial]

/-- What is open at the end of the text becomes part of the plan as it is. -/
theorem wellFormed_of_finish {s : State} {p : Plan} (hs : s.WellFormed) (h : s.finish = .ok p) :
    p.WellFormed := by
  obtain ⟨plan, mode⟩ := s
  cases mode with
  | fields block => exact wellFormed_of_closeBlock hs.1 hs.2 h
  | expectOutputs q _ buffer =>
    have hq : (Block.pass (withOutputs q buffer [])).WellFormed :=
      wellFormed_withOutputs hs.2.1 hs.2.2 (by simp)
    exact wellFormed_of_closeBlock hs.1 hq h
  | _ => cases h

theorem newline_not_mem_of_mem_numberFrom {n : Nat} {ts : List (List Char)}
    (h : ∀ t ∈ ts, '\n' ∉ t) : ∀ l ∈ numberFrom n ts, '\n' ∉ l.text := by
  induction ts generalizing n with
  | nil => simp
  | cons t ts ih =>
    intro l hl
    rcases List.mem_cons.mp hl with rfl | hl
    · exact h t (by simp)
    · exact ih (fun u hu => h u (by simp [hu])) l hl

/-- Whatever lines a plan is read from, it is well formed if no line feed stands in them. -/
theorem wellFormed_of_readLines {ls : List Line} {plan : Plan} (hls : ∀ l ∈ ls, '\n' ∉ l.text)
    (h : readLines ls = .ok plan) : plan.WellFormed := by
  obtain ⟨s, hs, hf⟩ := exists_of_bind_eq_ok h
  have step : ∀ a l b, l ∈ ls → a.WellFormed → Step a l b → b.WellFormed :=
    fun a l b hl ha hab => wellFormed_of_step (hls l hl) ha hab
  exact wellFormed_of_finish (feedAll_keeps step wellFormed_initial hs) hf

theorem newline_not_mem_of_mem_linesOf (source : List Char) :
    ∀ l ∈ linesOf source, '\n' ∉ l.text :=
  newline_not_mem_of_mem_numberFrom fun _ ht => newline_not_mem_of_mem_lines ht

/-- Every plan that is read is well formed. -/
theorem read_wellFormed {source : String} {plan : Plan} (h : read source = .ok plan) :
    plan.WellFormed := by
  obtain ⟨s, hs, hf⟩ := exists_of_bind_eq_ok h
  have hlines := newline_not_mem_of_mem_numberFrom (n := 1)
    fun t ht => newline_not_mem_of_mem_lines (s := source.toList) ht
  have step : ∀ a l b, l ∈ linesOf source.toList → a.WellFormed → Step a l b → b.WellFormed :=
    fun a l b hl ha hab => wellFormed_of_step (hlines l hl) ha hab
  exact wellFormed_of_finish (feedAll_keeps step wellFormed_initial hs) hf

/-- Inputs that are given twice, outputs that stand below their field, and a body with a line that
would be a comment elsewhere. -/
theorem read_wellFormed_pass :
    ∃ plan, read ("pass: p\n inputs: [g.n]\n inputs: [a.b,\n- ]\n g.n]\n outputs:\n o\n [w]\n" ++
      "shader: s\n vsh:\n source: ```\n - ]\n\n```\n") = .ok plan ∧ plan.WellFormed := by
  have h : read ("pass: p\n inputs: [g.n]\n inputs: [a.b,\n- ]\n g.n]\n outputs:\n o\n [w]\n" ++
      "shader: s\n vsh:\n source: ```\n - ]\n\n```\n") =
      .ok { passes := [{ name := "p", inputs := [⟨"a", "b"⟩, ⟨"g", "n"⟩], outputBuffer := "o",
                         outputTextures := ["w"] }]
            shaders := [{ name := "s", vertexBody := " - ]\n\n" }] } := by
    rfl
  exact ⟨_, h, read_wellFormed h⟩

end RenderPlan.Description
