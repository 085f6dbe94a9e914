import RenderPlan.Proofs.Description.Outcome
/-!
Readings that run alike. Two states are alike if they wait for the same thing and differ only in the
numbers of lines, in ways of their plans and shaders that a likeness allows, and in parts of an open
list that say nothing. Every line takes alike states to alike outcomes, and so does the end of the
text; the fields of the root, which set what a plan is called, need the likeness to allow for them.
-/
namespace RenderPlan.Description

/-- Two texts hold the same list of a kind, or the same fault. -/
def SameList : ListKind → List Char → List Char → Prop
  | .uniform, a, b => readVariables a = readVariables b
  | .texture, a, b => readAttachments a = readAttachments b
  | .input, a, b => readInputs a = readInputs b
  | .output, a, b => readOutputs a = readOutputs b

theorem SameList.refl (k : ListKind) (a : List Char) : SameList k a a := by
  cases k <;> rfl

/-- Two unfinished texts hold the same list whatever further line ends them. -/
def SameOpenList (k : ListKind) (a b : List Char) : Prop :=
  ∀ x, SameList k (a ++ '\n' :: x) (b ++ '\n' :: x)

theorem SameOpenList.refl (k : ListKind) (a : List Char) : SameOpenList k a a :=
  fun x => .refl k (a ++ '\n' :: x)

/-- How two readings may differ: by a renumbering of lines, and in plans and shaders by relations
that are kept by all that a reading does to them. -/
structure Likeness where
  line : Nat → Nat
  plan : Plan → Plan → Prop
  shader : Shader → Shader → Prop
  /-- Whether the root may be open, whose fields replace parts of the plan. -/
  root : Prop
  name : root → ∀ {p q}, plan p q → ∀ t, plan { p with name := t } { q with name := t }
  version : root → ∀ {p q}, plan p q → ∀ t, plan { p with version := t } { q with version := t }
  addBuffer : ∀ {p q}, plan p q → ∀ b,
    plan { p with buffers := p.buffers ++ [b] } { q with buffers := q.buffers ++ [b] }
  addPass : ∀ {p q}, plan p q → ∀ a,
    plan { p with passes := p.passes ++ [a] } { q with passes := q.passes ++ [a] }
  addTexture : ∀ {p q}, plan p q → ∀ t,
    plan { p with textures := p.textures ++ [t] } { q with textures := q.textures ++ [t] }
  addShader : ∀ {p q s t}, plan p q → shader s t →
    plan { p with shaders := p.shaders ++ [s] } { q with shaders := q.shaders ++ [t] }
  newShader : ∀ n, shader { name := n } { name := n }
  attributes : ∀ {s t}, shader s t → ∀ vs,
    shader { s with attributes := s.attributes ++ vs } { t with attributes := t.attributes ++ vs }
  uniforms : ∀ {s t}, shader s t → ∀ vs,
    shader { s with uniforms := s.uniforms ++ vs } { t with uniforms := t.uniforms ++ vs }
  varyings : ∀ {s t}, shader s t → ∀ vs,
    shader { s with varyings := s.varyings ++ vs } { t with varyings := t.varyings ++ vs }
  body : ∀ {s t}, shader s t → ∀ st text, shader (withBody s st text) (withBody t st text)

namespace Likeness

variable (r : Likeness)

inductive OfBlock : Block → Block → Prop
  | root (h : r.root) : OfBlock .root .root
  | buffer (b : Buffer) : OfBlock (.buffer b) (.buffer b)
  | pass (p : Pass) : OfBlock (.pass p) (.pass p)
  | texture (t : Texture) : OfBlock (.texture t) (.texture t)
  | shader {s t : Shader} (st : Option OpenStage) (h : r.shader s t) :
      OfBlock (.shader s st) (.shader t (st.map (OpenStage.renumber r.line)))

inductive OfListField : ListField → ListField → Prop
  | attributes {s t : Shader} (st : Option OpenStage) (h : r.shader s t) :
      OfListField (.attributes s st) (.attributes t (st.map (OpenStage.renumber r.line)))
  | uniforms {s t : Shader} (h : r.shader s t) : OfListField (.uniforms s) (.uniforms t)
  | varyings {s t : Shader} (h : r.shader s t) : OfListField (.varyings s) (.varyings t)
  | attachments (b : Buffer) : OfListField (.attachments b) (.attachments b)
  | inputs (p : Pass) : OfListField (.inputs p) (.inputs p)
  | outputs (p : Pass) (buffer : List Char) : OfListField (.outputs p buffer) (.outputs p buffer)

inductive OfMode : Mode → Mode → Prop
  | fields {b c : Block} (h : r.OfBlock b c) : OfMode (.fields b) (.fields c)
  | expectList {f g : ListField} (n : Nat) (h : r.OfListField f g) :
      OfMode (.expectList f n) (.expectList g (r.line n))
  | list {f g : ListField} (n : Nat) (opening : List Char) {a b : List Char}
      (h : r.OfListField f g) (hab : SameOpenList f.kind a b) :
      OfMode (.list f n opening a) (.list g (r.line n) opening b)
  | expectBuffer (p : Pass) (n : Nat) : OfMode (.expectBuffer p n) (.expectBuffer p (r.line n))
  | expectOutputs (p : Pass) (n : Nat) (buffer : List Char) :
      OfMode (.expectOutputs p n buffer) (.expectOutputs p (r.line n) buffer)
  | expectFence {s t : Shader} (st : OpenStage) (n : Nat) (h : r.shader s t) :
      OfMode (.expectFence s st n) (.expectFence t (st.renumber r.line) (r.line n))
  | body {s t : Shader} (st : OpenStage) (n : Nat) (captured : List (List Char))
      (h : r.shader s t) :
      OfMode (.body s st n captured) (.body t (st.renumber r.line) (r.line n) captured)

/-- States that are alike. -/
structure OfState (s t : State) : Prop where
  plan : r.plan s.plan t.plan
  mode : r.OfMode s.mode t.mode

inductive OfBracket (k : ListKind) : Bracket → Bracket → Prop
  | unclosed {a b : List Char} (h : SameOpenList k a b) : OfBracket k (.unclosed a) (.unclosed b)
  | closed {a b : List Char} (h : SameList k a b) (rest : List Char) :
      OfBracket k (.closed a rest) (.closed b rest)

variable {r} {p q : Plan}

theorem OfState.inBlock {b c : Block} (hp : r.plan p q) (h : r.OfBlock b c) :
    r.OfState (.inBlock p b) (.inBlock q c) := ⟨hp, .fields h⟩

theorem OfListField.kind_eq {f g : ListField} (h : r.OfListField f g) : g.kind = f.kind := by
  cases h <;> rfl

theorem OfBracket.refl (k : ListKind) (b : Bracket) : OfBracket k b b := by
  cases b with
  | unclosed a => exact .unclosed (.refl k a)
  | closed a rest => exact .closed (.refl k a) rest

theorem OfBracket.extend {k : ListKind} {a b : List Char} (h : SameOpenList k a b)
    (line : List Char) : OfBracket k (.extend a line) (.extend b line) := by
  unfold Bracket.extend
  cases Text.cutAt ']' line with
  | none =>
    refine .unclosed fun x => ?_
    have := h (line ++ '\n' :: x)
    simpa using this
  | some c => exact .closed (h c.1) c.2

/-- Lists that say the same fill alike fields alike, or report the same fault. -/
theorem OfListField.fill {f g : ListField} (h : r.OfListField f g) {a b : List Char}
    (hab : SameList f.kind a b) :
    (∃ x y, f.fill a = .ok x ∧ g.fill b = .ok y ∧ r.OfBlock x y) ∨
      ∃ found, f.fill a = .error found ∧ g.fill b = .error found := by
  cases h with
  | attributes st h =>
    simp only [ListField.fill, ← (show readVariables a = readVariables b from hab)]
    cases readVariables a with
    | ok vs => exact .inl ⟨_, _, rfl, rfl, .shader st (r.attributes h vs)⟩
    | error found => exact .inr ⟨found, rfl, rfl⟩
  | uniforms h =>
    simp only [ListField.fill, ← (show readVariables a = readVariables b from hab)]
    cases readVariables a with
    | ok vs => exact .inl ⟨_, _, rfl, rfl, .shader none (r.uniforms h vs)⟩
    | error found => exact .inr ⟨found, rfl, rfl⟩
  | varyings h =>
    simp only [ListField.fill, ← (show readVariables a = readVariables b from hab)]
    cases readVariables a with
    | ok vs => exact .inl ⟨_, _, rfl, rfl, .shader none (r.varyings h vs)⟩
    | error found => exact .inr ⟨found, rfl, rfl⟩
  | attachments b =>
    simp only [ListField.fill, ← (show readAttachments a = readAttachments _ from hab)]
    cases readAttachments a with
    | ok ts => exact .inl ⟨_, _, rfl, rfl, .buffer _⟩
    | error found => exact .inr ⟨found, rfl, rfl⟩
  | inputs p =>
    simp only [ListField.fill, ← (show readInputs a = readInputs b from hab)]
    cases readInputs a with
    | ok is => exact .inl ⟨_, _, rfl, rfl, .pass _⟩
    | error found => exact .inr ⟨found, rfl, rfl⟩
  | outputs p buffer =>
    have hab : readOutputs a = readOutputs b := hab
    exact .inl ⟨_, _, rfl, by rw [hab]; rfl, .pass _⟩

theorem malformedList_alike {f g : ListField} (h : r.OfListField f g) (R : α → β → Prop) (n : Nat)
    (found : List Char) :
    Alike r.line R (malformedList f n found) (malformedList g (r.line n) found) := by
  rw [malformedList, malformedList, h.kind_eq]
  exact .fail R n _

theorem continueList_alike (hp : r.plan p q) {f g : ListField} (h : r.OfListField f g) (n : Nat)
    (opening : List Char) {a b : Bracket} (hab : OfBracket f.kind a b) :
    Alike r.line r.OfState (continueList p f n opening a)
      (continueList q g (r.line n) opening b) := by
  cases hab with
  | unclosed hab => exact .ok ⟨hp, .list n opening h hab⟩
  | closed hab rest =>
    simp only [continueList]
    split
    · rcases h.fill hab with ⟨x, y, hx, hy, hxy⟩ | ⟨found, hx, hy⟩
      · rw [hx, hy]
        exact .ok (.inBlock hp hxy)
      · rw [hx, hy]
        exact malformedList_alike h _ n found
    · exact malformedList_alike h _ n _

theorem openList_alike (hp : r.plan p q) {f g : ListField} (h : r.OfListField f g) (n : Nat)
    (text : List Char) :
    Alike r.line r.OfState (openList p f n text) (openList q g (r.line n) text) := by
  unfold openList
  split
  · exact continueList_alike hp h n _ (.refl _ _)
  · exact malformedList_alike h _ n _

theorem listField_alike (hp : r.plan p q) {F G : ListField} (h : r.OfListField F G) (f : Field) :
    Alike r.line r.OfState (listField p F f) (listField q G (f.renumber r.line)) := by
  apply Alike.ite Iff.rfl
  · intro _
    exact .ok ⟨hp, .expectList f.line h⟩
  · intro _
    exact openList_alike hp h f.line f.value

theorem outputsValue_alike (hp : r.plan p q) (a : Pass) (n : Nat) (quoted value : List Char) :
    Alike r.line r.OfState (outputsValue p a n quoted value)
      (outputsValue q a (r.line n) quoted value) := by
  simp only [outputsValue]
  split
  · split
    · exact openList_alike hp (.outputs a _) n _
    · exact .ok ⟨hp, .expectOutputs a n _⟩
  · exact .fail _ n _

theorem openBody_alike (hp : r.plan p q) {s t : Shader} (h : r.shader s t) (st : OpenStage)
    (n : Nat) (fence : List Char) :
    Alike r.line r.OfState (openBody p s st n fence)
      (openBody q t (st.renumber r.line) (r.line n) fence) := by
  unfold openBody
  split
  · exact .ok ⟨hp, .body st n [] h⟩
  · exact .fail _ n _

theorem sourceField_alike (hp : r.plan p q) {s t : Shader} (h : r.shader s t) (st : OpenStage)
    (f : Field) :
    Alike r.line r.OfState (sourceField p s st f)
      (sourceField q t (st.renumber r.line) (f.renumber r.line)) := by
  apply Alike.ite Iff.rfl
  · intro _
    exact .ok ⟨hp, .expectFence st f.line h⟩
  · intro _
    apply Alike.ite Iff.rfl
    · intro _
      exact openBody_alike hp h st f.line f.value
    · intro _
      exact .fail _ f.line _

theorem stageField_alike (hp : r.plan p q) {s t : Shader} (h : r.shader s t) (stage : Stage)
    (f : Field) :
    Alike r.line r.OfState (stageField p s stage f)
      (stageField q t stage (f.renumber r.line)) := by
  apply Alike.ite Iff.rfl
  · intro _
    exact .ok (.inBlock hp (.shader (some { stage := stage, line := f.line }) h))
  · intro _
    exact .fail _ f.line _

/-- An open stage lacks its source in both readings or in none. -/
theorem closeStage_alike (ρ : Nat → Nat) (st : Option OpenStage) :
    Alike ρ (fun _ _ => True) (closeStage st) (closeStage (st.map (OpenStage.renumber ρ))) := by
  cases st with
  | none => exact .ok trivial
  | some st =>
    apply Alike.ite Iff.rfl
    · intro _
      exact .ok trivial
    · intro _
      exact .fail _ st.line _

theorem closeBlock_alike (hp : r.plan p q) {b c : Block} (h : r.OfBlock b c) :
    Alike r.line r.plan (closeBlock p b) (closeBlock q c) := by
  cases h with
  | root _ => exact .ok hp
  | buffer b => exact .ok (r.addBuffer hp b)
  | pass a => exact .ok (r.addPass hp a)
  | texture t => exact .ok (r.addTexture hp t)
  | shader st h =>
    exact (closeStage_alike r.line st).map fun _ _ _ => r.addShader hp h

theorem unknownKeyword_alike (R : α → β → Prop) (f : Field) :
    Alike r.line R f.unknownKeyword (f.renumber r.line).unknownKeyword := .fail R f.line _

theorem malformedValue_alike (R : α → β → Prop) (f : Field) :
    Alike r.line R f.malformedValue (f.renumber r.line).malformedValue := .fail R f.line _

theorem flag_alike (ρ : Nat → Nat) (f : Field) :
    Alike ρ Eq f.flag (f.renumber ρ).flag := by
  apply Alike.ite Iff.rfl
  · intro _
    exact .ok rfl
  · intro _
    apply Alike.ite Iff.rfl
    · intro _
      exact .ok rfl
    · intro _
      exact .fail _ f.line _

theorem literal_alike (ρ : Nat → Nat) (f : Field) (value? : Option β) :
    Alike ρ Eq (f.literal value?) ((f.renumber ρ).literal value?) := by
  cases value? with
  | some v => exact .ok rfl
  | none => exact .fail _ f.line _

theorem rootField_alike (hp : r.plan p q) (h : r.root) (f : Field) (k : Keyword) :
    Alike r.line r.OfState (rootField p f k) (rootField q (f.renumber r.line) k) := by
  cases k with
  | name => exact .ok (.inBlock (r.name h hp f.text) (.root h))
  | version => exact .ok (.inBlock (r.version h hp f.text) (.root h))
  | _ => exact unknownKeyword_alike _ f

theorem bufferField_alike (hp : r.plan p q) (b : Buffer) (f : Field) (k : Keyword) :
    Alike r.line r.OfState (bufferField p b f k) (bufferField q b (f.renumber r.line) k) := by
  cases k with
  | hasDepth =>
    refine (flag_alike r.line f).map ?_
    rintro v _ rfl
    exact .inBlock hp (.buffer _)
  | textures => exact listField_alike hp (.attachments b) f
  | _ => exact unknownKeyword_alike _ f

/-- A field of a pass that sets one value of it. -/
theorem setPass_alike (hp : r.plan p q) {x y : Except Error α} (h : Alike r.line Eq x y)
    (set : α → Pass) :
    Alike r.line r.OfState (x.map fun v => .inBlock p (.pass (set v)))
      (y.map fun v => .inBlock q (.pass (set v))) := by
  refine h.map ?_
  rintro v _ rfl
  exact .inBlock hp (.pass _)

theorem passField_alike (hp : r.plan p q) (a : Pass) (f : Field) (k : Keyword) :
    Alike r.line r.OfState (passField p a f k) (passField q a (f.renumber r.line) k) := by
  cases k with
  | shader => exact .ok (.inBlock hp (.pass _))
  | draw => exact setPass_alike hp (literal_alike r.line f _) fun v => { a with draw := v }
  | inputs => exact listField_alike hp (.inputs a) f
  | outputs =>
    apply Alike.ite Iff.rfl
    · intro _
      exact .ok ⟨hp, .expectBuffer a f.line⟩
    · intro _
      exact outputsValue_alike hp a f.line f.value f.value
  | clearDepth => exact setPass_alike hp (flag_alike r.line f) fun v => { a with clearDepth := v }
  | writeDepth => exact setPass_alike hp (flag_alike r.line f) fun v => { a with writeDepth := v }
  | clearOutputs =>
    exact setPass_alike hp (flag_alike r.line f) fun v => { a with clearOutputs := v }
  | depthTest =>
    exact setPass_alike hp (literal_alike r.line f _) fun v => { a with depthTest := v }
  | _ => exact unknownKeyword_alike _ f

theorem setTexture_alike (hp : r.plan p q) {x y : Except Error α} (h : Alike r.line Eq x y)
    (set : α → Texture) :
    Alike r.line r.OfState (x.map fun v => .inBlock p (.texture (set v)))
      (y.map fun v => .inBlock q (.texture (set v))) := by
  refine h.map ?_
  rintro v _ rfl
  exact .inBlock hp (.texture _)

theorem textureField_alike (hp : r.plan p q) (t : Texture) (f : Field) (k : Keyword) :
    Alike r.line r.OfState (textureField p t f k) (textureField q t (f.renumber r.line) k) := by
  cases k with
  | path => exact .ok (.inBlock hp (.texture _))
  | format => exact setTexture_alike hp (literal_alike r.line f _) fun v => { t with format := v }
  | scale => exact setTexture_alike hp (literal_alike r.line f _) fun v => { t with scale := v }
  | _ => exact unknownKeyword_alike _ f

/-- A field that ends the open stage, if there is one, before it does anything else. -/
theorem afterStage_alike (st : Option OpenStage) {x y : Except Error State}
    (h : Alike r.line r.OfState x y) :
    Alike r.line r.OfState (closeStage st >>= fun _ => x)
      (closeStage (st.map (OpenStage.renumber r.line)) >>= fun _ => y) :=
  (closeStage_alike r.line st).bind fun _ _ _ => h

theorem shaderField_alike (hp : r.plan p q) {s t : Shader} (h : r.shader s t)
    (st : Option OpenStage) (f : Field) (k : Keyword) :
    Alike r.line r.OfState (shaderField p s st f k)
      (shaderField q t (st.map (OpenStage.renumber r.line)) (f.renumber r.line) k) := by
  cases k with
  | attributes => exact listField_alike hp (.attributes st h) f
  | uniforms => exact afterStage_alike st (listField_alike hp (.uniforms h) f)
  | varying => exact afterStage_alike st (listField_alike hp (.varyings h) f)
  | vertexStage => exact afterStage_alike st (stageField_alike hp h .vertex f)
  | fragmentStage => exact afterStage_alike st (stageField_alike hp h .fragment f)
  | source =>
    cases st with
    | some st => exact sourceField_alike hp h st f
    | none => exact unknownKeyword_alike _ f
  | _ => exact unknownKeyword_alike _ f

/-- A keyword opens a new block in alike blocks alike. -/
theorem opensBlockIn_eq {b c : Block} (h : r.OfBlock b c) (f : Field) (k : Keyword) :
    opensBlockIn c (f.renumber r.line) k = opensBlockIn b f k := by
  cases h <;> cases k <;> rfl

theorem newBlock_alike {name : String} {k : Keyword} {b : Block} (h : newBlock? name k = some b) :
    r.OfBlock b b := by
  cases k with
  | buffer => cases h; exact .buffer _
  | pass => cases h; exact .pass _
  | texture => cases h; exact .texture _
  | shader => cases h; exact .shader none (r.newShader name)
  | _ => cases h

theorem blockField_alike (hp : r.plan p q) {b c : Block} (h : r.OfBlock b c) (f : Field)
    (k : Keyword) :
    Alike r.line r.OfState (blockField p b f k) (blockField q c (f.renumber r.line) k) := by
  unfold blockField
  rw [opensBlockIn_eq h, Field.text_renumber]
  split
  · next next hn ho =>
    refine (closeBlock_alike hp h).bind fun p' q' hp' => ?_
    apply Alike.ite Iff.rfl
    · intro _
      exact malformedValue_alike _ f
    · intro _
      exact .ok (.inBlock hp' (newBlock_alike hn))
  · cases h with
    | root h => exact rootField_alike hp h f k
    | buffer b => exact bufferField_alike hp b f k
    | pass a => exact passField_alike hp a f k
    | texture t => exact textureField_alike hp t f k
    | shader st h => exact shaderField_alike hp h st f k

theorem fieldLine_alike (hp : r.plan p q) {b c : Block} (h : r.OfBlock b c) (l : Line) :
    Alike r.line r.OfState (fieldLine p b l) (fieldLine q c (l.renumber r.line)) := by
  unfold fieldLine
  rw [Line.field?_renumber]
  cases l.field? with
  | none => exact .fail _ l.number _
  | some f =>
    simp only [Option.map_some, Field.keyword_renumber]
    cases Keyword.ofText? (String.ofList f.keyword) with
    | some k => exact blockField_alike hp h f k
    | none => exact unknownKeyword_alike _ f

theorem consume_alike (hp : r.plan p q) (l : Line) {m n : Mode} (h : r.OfMode m n) :
    Alike r.line r.OfState (consume p l m) (consume q (l.renumber r.line) n) := by
  cases h with
  | fields h => exact fieldLine_alike hp h l
  | expectList n h =>
    apply Alike.ite Iff.rfl
    · intro _
      exact openList_alike hp h n _
    · intro _
      exact malformedList_alike h _ n []
  | list n opening h hab => exact continueList_alike hp h n opening (.extend hab l.text)
  | expectBuffer a n =>
    apply Alike.ite Iff.rfl
    · intro _
      exact .fail _ n _
    · intro _
      exact outputsValue_alike hp a n [] _
  | expectOutputs a n buffer =>
    apply Alike.ite Iff.rfl
    · intro _
      exact openList_alike hp (.outputs a buffer) n _
    · intro _
      exact fieldLine_alike hp (.pass _) l
  | expectFence st n h =>
    apply Alike.ite Iff.rfl
    · intro _
      exact openBody_alike hp h st l.number l.text
    · intro _
      exact .fail _ l.number _
  | body st n captured h =>
    apply Alike.ite Iff.rfl
    · intro _
      exact .ok (.inBlock hp (.shader (some { st with hasSource := true }) (r.body h st.stage _)))
    · intro _
      exact .ok ⟨hp, .body st n (l.text :: captured) h⟩

theorem OfMode.skips_eq {m n : Mode} (h : r.OfMode m n) (text : List Char) :
    n.skips text = m.skips text := by
  cases h <;> rfl

/-- A line takes alike states to alike outcomes. -/
theorem feed_alike {s t : State} (h : r.OfState s t) (l : Line) :
    Alike r.line r.OfState (s.feed l) (t.feed (l.renumber r.line)) := by
  apply Alike.ite
  · rw [Line.text_renumber, h.mode.skips_eq]
  · intro _
    exact .ok h
  · intro _
    exact consume_alike h.plan l h.mode

theorem feedAll_alike {s t : State} (h : r.OfState s t) (ls : List Line) :
    Alike r.line r.OfState (s.feedAll ls) (t.feedAll (ls.map (Line.renumber r.line))) :=
  .feedAll (fun _ _ h l => feed_alike h l) h ls

/-- The end of the text takes alike states to alike plans, or to the same error. -/
theorem finish_alike {s t : State} (h : r.OfState s t) :
    Alike r.line r.plan s.finish t.finish := by
  obtain ⟨p, m⟩ := s
  obtain ⟨q, n⟩ := t
  obtain ⟨hp, hm⟩ := h
  cases hm with
  | fields h => exact closeBlock_alike hp h
  | expectList n h => exact malformedList_alike h _ n []
  | list n opening h hab => exact malformedList_alike h _ n opening
  | expectBuffer a n => exact .fail _ n _
  | expectOutputs a n buffer => exact closeBlock_alike hp (.pass _)
  | expectFence st n h => exact .fail _ n _
  | body st n captured h => exact .fail _ n _

/-- What is left of a text takes alike states to alike plans, or to the same error. -/
theorem finishAfter_alike {s t : State} (h : r.OfState s t) (ls : List Line) :
    Alike r.line r.plan (s.feedAll ls >>= State.finish)
      (t.feedAll (ls.map (Line.renumber r.line)) >>= State.finish) :=
  (feedAll_alike h ls).bind fun _ _ h => finish_alike h

/-- The likeness of readings that differ in the numbers of lines only. -/
def ofRenumbering (ρ : Nat → Nat) : Likeness where
  line := ρ
  plan := Eq
  shader := Eq
  root := True
  name _ _ _ h _ := by rw [h]
  version _ _ _ h _ := by rw [h]
  addBuffer h _ := by rw [h]
  addPass h _ := by rw [h]
  addTexture h _ := by rw [h]
  addShader hp hs := by rw [hp, hs]
  newShader _ := rfl
  attributes h _ := by rw [h]
  uniforms h _ := by rw [h]
  varyings h _ := by rw [h]
  body h _ _ := by rw [h]

end Likeness
end RenderPlan.Description
