import RenderPlan.Description.State
/-!
Reading a description line by line. Each line takes the state to the next one or is an error, and no
line is looked at twice or looked ahead to; where the meaning of a field depends on the line behind
it, the state waits for that line. A block ends where the next one opens or where the text ends. An
opener at the start of a line always opens a block; an indented `shader` inside a pass names the
shader of the pass instead.
-/
namespace RenderPlan.Description

open RenderPlan.Text

def fail (line : Nat) (cause : Cause) : Except Error α := .error ⟨line, cause⟩

namespace Field

def unknownKeyword (f : Field) : Except Error α :=
  fail f.line (.unknownKeyword (String.ofList f.keyword))

def malformedValue (f : Field) : Except Error α :=
  fail f.line (.malformedValue (String.ofList f.keyword) (String.ofList f.value))

def text (f : Field) : String := String.ofList f.value

/-- The value of a field that is yes or no. -/
def flag (f : Field) : Except Error Bool :=
  if f.text = "yes" ∨ f.text = "true" then .ok true
  else if f.text = "no" ∨ f.text = "false" then .ok false
  else fail f.line (.notBoolean (String.ofList f.keyword) f.text)

/-- The value of a field that must be one of a set. -/
def literal (f : Field) (value? : Option β) : Except Error β :=
  match value? with
  | some v => .ok v
  | none => f.malformedValue

end Field

/-- A stage ends well only with a source. -/
def closeStage : Option OpenStage → Except Error Unit
  | some st => if st.hasSource then .ok () else fail st.line (.missingSource st.stage)
  | none => .ok ()

/-- Ends a block and adds it to the plan. -/
def closeBlock (plan : Plan) : Block → Except Error Plan
  | .root => .ok plan
  | .buffer b => .ok { plan with buffers := plan.buffers ++ [b] }
  | .pass p => .ok { plan with passes := plan.passes ++ [p] }
  | .texture t => .ok { plan with textures := plan.textures ++ [t] }
  | .shader s stage =>
    (closeStage stage).map fun _ => { plan with shaders := plan.shaders ++ [s] }

def malformedList (field : ListField) (line : Nat) (found : List Char) : Except Error α :=
  fail line (.malformedList field.kind (String.ofList found))

/-- Goes on with a list as far as its text is known. -/
def continueList (plan : Plan) (field : ListField) (line : Nat) (opening : List Char) :
    Bracket → Except Error State
  | .unclosed inner => .ok ⟨plan, .list field line opening inner⟩
  | .closed inner rest =>
    if trim rest = [] then
      match field.fill inner with
      | .ok block => .ok (.inBlock plan block)
      | .error found => malformedList field line found
    else malformedList field line (trim rest)

/-- Starts a list with the text that must open it. -/
def openList (plan : Plan) (field : ListField) (line : Nat) : List Char → Except Error State
  | '[' :: opened => continueList plan field line ('[' :: opened) (.start opened)
  | text => malformedList field line text

/-- A list field: its list stands in the field or opens on the next line. -/
def listField (plan : Plan) (field : ListField) (f : Field) : Except Error State :=
  if f.value = [] then .ok ⟨plan, .expectList field f.line⟩
  else openList plan field f.line f.value

/-- Reads the buffer of an `outputs` field and starts its list; `quoted` is the value of the field,
which an error repeats. -/
def outputsValue (plan : Plan) (p : Pass) (line : Nat) (quoted value : List Char) :
    Except Error State :=
  let (buffer, list) := splitOutputs value
  if isBufferName buffer then
    match list with
    | some text => openList plan (.outputs p buffer) line text
    | none => .ok ⟨plan, .expectOutputs p line buffer⟩
  else fail line (.malformedValue Keyword.outputs.spelling (String.ofList quoted))

/-- Starts the source of a stage behind its opening fence. -/
def openBody (plan : Plan) (s : Shader) (stage : OpenStage) (line : Nat) (fence : List Char) :
    Except Error State :=
  if isOpeningFence fence then .ok ⟨plan, .body s stage line []⟩
  else fail line (.malformedValue Keyword.source.spelling (String.ofList (trim fence)))

def sourceField (plan : Plan) (s : Shader) (stage : OpenStage) (f : Field) : Except Error State :=
  if f.value = [] then .ok ⟨plan, .expectFence s stage f.line⟩
  else if isFence f.value then openBody plan s stage f.line f.value
  else fail f.line (.missingFence f.text)

/-- Opens a stage, which takes no value of its own. -/
def stageField (plan : Plan) (s : Shader) (stage : Stage) (f : Field) : Except Error State :=
  if f.value = [] then .ok (.inBlock plan (.shader s (some { stage := stage, line := f.line })))
  else f.malformedValue

def rootField (plan : Plan) (f : Field) : Keyword → Except Error State
  | .name => .ok (.inBlock { plan with name := f.text } .root)
  | .version => .ok (.inBlock { plan with version := f.text } .root)
  | _ => f.unknownKeyword

def bufferField (plan : Plan) (b : Buffer) (f : Field) : Keyword → Except Error State
  | .hasDepth => f.flag.map fun v => .inBlock plan (.buffer { b with hasDepth := v })
  | .textures => listField plan (.attachments b) f
  | _ => f.unknownKeyword

def passField (plan : Plan) (p : Pass) (f : Field) : Keyword → Except Error State
  | .shader => .ok (.inBlock plan (.pass { p with shader := f.text }))
  | .draw => (f.literal (DrawMode.ofText? f.text)).map fun v =>
      .inBlock plan (.pass { p with draw := v })
  | .inputs => listField plan (.inputs p) f
  | .outputs =>
    if f.value = [] then .ok ⟨plan, .expectBuffer p f.line⟩
    else outputsValue plan p f.line f.value f.value
  | .clearDepth => f.flag.map fun v => .inBlock plan (.pass { p with clearDepth := v })
  | .writeDepth => f.flag.map fun v => .inBlock plan (.pass { p with writeDepth := v })
  | .clearOutputs => f.flag.map fun v => .inBlock plan (.pass { p with clearOutputs := v })
  | .depthTest => (f.literal (DepthTest.ofText? f.text)).map fun v =>
      .inBlock plan (.pass { p with depthTest := v })
  | _ => f.unknownKeyword

def textureField (plan : Plan) (t : Texture) (f : Field) : Keyword → Except Error State
  | .path => .ok (.inBlock plan (.texture { t with path := some f.text }))
  | .format => (f.literal (TexelFormat.ofText? f.text)).map fun v =>
      .inBlock plan (.texture { t with format := v })
  | .scale => (f.literal (Scale.read? f.value)).map fun v =>
      .inBlock plan (.texture { t with scale := v })
  | _ => f.unknownKeyword

/-- Attributes stay inside an open stage; every other field of a shader ends it. -/
def shaderField (plan : Plan) (s : Shader) (stage : Option OpenStage) (f : Field) :
    Keyword → Except Error State
  | .attributes => listField plan (.attributes s stage) f
  | .uniforms => do closeStage stage; listField plan (.uniforms s) f
  | .varying => do closeStage stage; listField plan (.varyings s) f
  | .vertexStage => do closeStage stage; stageField plan s .vertex f
  | .fragmentStage => do closeStage stage; stageField plan s .fragment f
  | .source =>
    match stage with
    | some st => sourceField plan s st f
    | none => f.unknownKeyword
  | _ => f.unknownKeyword

/-- A block of no fields, or nothing if the keyword opens none. -/
def newBlock? (name : String) : Keyword → Option Block
  | .buffer => some (.buffer { name := name })
  | .pass => some (.pass { name := name })
  | .shader => some (.shader { name := name } none)
  | .texture => some (.texture { name := name })
  | _ => none

/-- Whether a keyword opens a block where it stands. -/
def opensBlockIn (block : Block) (f : Field) (k : Keyword) : Bool :=
  k.opensBlock && (f.atLineStart ||
    match block, k with
    | .pass _, .shader => false
    | _, _ => true)

/-- A field in a block. The block is ended, and its stage checked, before the next one is named. -/
def blockField (plan : Plan) (block : Block) (f : Field) (k : Keyword) : Except Error State :=
  match newBlock? f.text k, opensBlockIn block f k with
  | some next, true => do
    let plan ← closeBlock plan block
    if f.value = [] then f.malformedValue else .ok (.inBlock plan next)
  | _, _ =>
    match block with
    | .root => rootField plan f k
    | .buffer b => bufferField plan b f k
    | .pass p => passField plan p f k
    | .texture t => textureField plan t f k
    | .shader s stage => shaderField plan s stage f k

/-- A line where a field is expected. -/
def fieldLine (plan : Plan) (block : Block) (l : Line) : Except Error State :=
  match l.field? with
  | none => fail l.number (.missingColon (String.ofList (trim l.text)))
  | some f =>
    match Keyword.ofText? (String.ofList f.keyword) with
    | some k => blockField plan block f k
    | none => f.unknownKeyword

/-- A line that the mode does not pass over. -/
def consume (plan : Plan) (l : Line) : Mode → Except Error State
  | .fields block => fieldLine plan block l
  | .expectList field line =>
    if startsWith '[' l.text then openList plan field line (trimStart l.text)
    else malformedList field line []
  | .list field line opening inner => continueList plan field line opening (.extend inner l.text)
  | .expectBuffer p line =>
    if ':' ∈ l.text then fail line (.malformedValue Keyword.outputs.spelling "")
    else outputsValue plan p line [] (trim l.text)
  | .expectOutputs p line buffer =>
    if startsWith '[' l.text then openList plan (.outputs p buffer) line (trimStart l.text)
    else fieldLine plan (.pass (withOutputs p buffer [])) l
  | .expectFence s stage _ =>
    if isFence l.text then openBody plan s stage l.number l.text
    else fail l.number (.missingFence (String.ofList (trim l.text)))
  | .body s stage line captured =>
    if isFence l.text then
      let s := withBody s stage.stage (bodyText captured)
      .ok (.inBlock plan (.shader s (some { stage with hasSource := true })))
    else .ok ⟨plan, .body s stage line (l.text :: captured)⟩

/-- The state behind a line. -/
def State.feed (s : State) (l : Line) : Except Error State :=
  if s.mode.skips l.text then .ok s else consume s.plan l s.mode

/-- The plan at the end of the text, where nothing may be left open that needs an end. -/
def State.finish (s : State) : Except Error Plan :=
  match s.mode with
  | .fields block => closeBlock s.plan block
  | .expectList field line => malformedList field line []
  | .list field line opening _ => malformedList field line opening
  | .expectBuffer _ line => fail line (.malformedValue Keyword.outputs.spelling "")
  | .expectOutputs p _ buffer => closeBlock s.plan (.pass (withOutputs p buffer []))
  | .expectFence _ _ line => fail line .unexpectedEnd
  | .body _ _ line _ => fail line .unexpectedEnd

/-- The state behind numbered lines. -/
def State.feedAll (s : State) (ls : List Line) : Except Error State := ls.foldlM State.feed s

/-- The plan that a list of lines describes. -/
def readLines (ls : List Line) : Except Error Plan := do
  let s ← State.initial.feedAll ls
  s.finish

/-- The plan that a text describes, or the first error in it. -/
def read (source : String) : Except Error Plan := readLines (linesOf source.toList)

end RenderPlan.Description
