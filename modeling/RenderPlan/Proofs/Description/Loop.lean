import RenderPlan.Proofs.Description.Descent
import RenderPlan.Proofs.Description.ListOutcome
/-!
Reading by descent. A description can also be read by loops that stand inside each other: one for
the root, in it one for the block that is open, and in that of a shader one for each stage. A turn
of a loop looks at the next line that says something; it takes the field there with all lines that
belong to it, or leaves the line to the loop around. A turn leads to where a reading line by line
leads, whether it ends well or not, and a loop has an arm for every field that it takes.
-/
namespace RenderPlan.Description

open RenderPlan.Text

inductive Loop where
  | root | buffer | pass | texture | shader | stage
  deriving DecidableEq, Repr

/-- The keywords of the fields that a loop takes. -/
def Loop.owned : Loop → List Keyword
  | .root => [.name, .version, .buffer, .pass, .shader, .texture]
  | .buffer => [.hasDepth, .textures]
  | .pass =>
    [.shader, .draw, .inputs, .outputs, .clearDepth, .writeDepth, .clearOutputs, .depthTest]
  | .texture => [.path, .format, .scale]
  | .shader => [.attributes, .uniforms, .varying, .vertexStage, .fragmentStage]
  | .stage => [.source, .attributes]

/-- The keywords that a loop leaves to a block around it. -/
def Loop.enclosing : Loop → List Keyword
  | .stage => Loop.shader.owned
  | _ => []

inductive Verdict where
  | takes | leaves | refuses
  deriving DecidableEq, Repr

/-- What a loop does with a field. Only the root takes an opener at the start of a line. -/
def Loop.verdict (loop : Loop) (f : Field) (k : Keyword) : Verdict :=
  if loop ≠ .root ∧ f.atLineStart = true ∧ k.opensBlock = true then .leaves
  else if k ∈ loop.owned then .takes
  else if k.opensBlock = true ∨ k ∈ loop.enclosing then .leaves
  else .refuses

/-- The loop that reads the fields of a block, or of the stage that is open in it. -/
def Block.loop : Block → Loop
  | .root => .root
  | .buffer _ => .buffer
  | .pass _ => .pass
  | .texture _ => .texture
  | .shader _ none => .shader
  | .shader _ (some _) => .stage

/-- A reading between two turns: the plan of the finished blocks, the block whose loop it is in, and
the cursor. -/
structure LoopState where
  plan : Plan
  block : Block
  cursor : Cursor
  deriving DecidableEq

namespace Cursor

/-- A list on the next line, from its opening bracket on. -/
def below (c : Cursor) : Option (List Char) × Cursor :=
  match c.peek? with
  | some l => if startsWith '[' l.text then (some (trimStart l.text), c.next) else (none, c.skip)
  | none => (none, c.skip)

/-- The text that starts the list of a field, which is the value or stands on the next line. -/
def opening (c : Cursor) (value : List Char) : List Char × Cursor :=
  if value = [] then
    match c.below with
    | (some text, d) => (text, d)
    | (none, d) => (value, d)
  else (value, c)

end Cursor

namespace LoopState

/-- A list that is closed with only blank characters behind it, filled into its block. -/
def filled (s : LoopState) (field : ListField) (line : Nat) (inner rest : List Char) :
    Except Error LoopState :=
  if trim rest = [] then
    match field.fill inner with
    | .ok block => .ok { s with block := block }
    | .error found => malformedList field line found
  else malformedList field line (trim rest)

/-- The list that `opening` starts. -/
def bracketed (s : LoopState) (field : ListField) (line : Nat) (opening : List Char) :
    Except Error LoopState :=
  match s.cursor.collect opening with
  | (none, _) => malformedList field line opening
  | (some (inner, rest), c) => { s with cursor := c }.filled field line inner rest

def takeList (s : LoopState) (field : ListField) (f : Field) : Except Error LoopState :=
  let (opening, c) := s.cursor.opening f.value
  { s with cursor := c }.bracketed field f.line opening

/-- The text with the buffer of an `outputs` field; it may be the next line if that is no field. -/
def outputsText (s : LoopState) (f : Field) : Except Error (List Char × Cursor) :=
  if f.value = [] then
    match s.cursor.peek? with
    | some l => if ':' ∈ l.text then f.malformedValue else .ok (trim l.text, s.cursor.next)
    | none => f.malformedValue
  else .ok (f.value, s.cursor)

/-- The buffer in a text, and its list there or on the next line. -/
def outputsIn (s : LoopState) (p : Pass) (f : Field) (value : List Char) : Except Error LoopState :=
  let (buffer, list) := splitOutputs value
  if isBufferName buffer then
    match list with
    | some text => s.bracketed (.outputs p buffer) f.line text
    | none =>
      match s.cursor.below with
      | (some text, c) => { s with cursor := c }.bracketed (.outputs p buffer) f.line text
      | (none, c) => .ok { s with block := .pass (withOutputs p buffer []), cursor := c }
  else f.malformedValue

def takeOutputs (s : LoopState) (p : Pass) (f : Field) : Except Error LoopState := do
  let (value, c) ← s.outputsText f
  { s with cursor := c }.outputsIn p f value

/-- The body behind an opening fence. -/
def fenced (s : LoopState) (sh : Shader) (st : OpenStage) (line : Nat) (fence : List Char) :
    Except Error LoopState :=
  if isOpeningFence fence then
    match s.cursor.capture with
    | (some text, c) => .ok { s with block := shaderWithBody sh st text, cursor := c }
    | (none, _) => fail line .unexpectedEnd
  else fail line (.malformedValue Keyword.source.spelling (String.ofList (trim fence)))

def takeSource (s : LoopState) (sh : Shader) (st : OpenStage) (f : Field) :
    Except Error LoopState :=
  if isFence f.value then s.fenced sh st f.line f.value
  else if f.value = [] then
    match s.cursor.peek? with
    | some l =>
      if isFence l.text then { s with cursor := s.cursor.next }.fenced sh st l.number l.text
      else fail l.number (.missingFence (String.ofList (trim l.text)))
    | none => fail f.line .unexpectedEnd
  else fail f.line (.missingFence f.text)

/-- The block with a value set, where the value can be read. -/
def sets (s : LoopState) (block : Except Error Block) : Except Error LoopState :=
  block.map fun b => { s with block := b }

/-- Enters the loop of a block, which needs a name. -/
def enters (s : LoopState) (block : Block) (f : Field) : Except Error LoopState :=
  if f.value = [] then f.malformedValue else .ok { s with block := block }

/-- Enters the loop of a stage, which takes no value. -/
def entersStage (s : LoopState) (sh : Shader) (stage : Stage) (f : Field) :
    Except Error LoopState :=
  if f.value = [] then
    .ok { s with block := .shader sh (some { stage := stage, line := f.line }) }
  else f.malformedValue

def rootArm? (s : LoopState) (f : Field) : Keyword → Option (Except Error LoopState)
  | .name => some (.ok { s with plan := { s.plan with name := f.text } })
  | .version => some (.ok { s with plan := { s.plan with version := f.text } })
  | .buffer => some (s.enters (.buffer { name := f.text }) f)
  | .pass => some (s.enters (.pass { name := f.text }) f)
  | .shader => some (s.enters (.shader { name := f.text } none) f)
  | .texture => some (s.enters (.texture { name := f.text }) f)
  | _ => none

def bufferArm? (s : LoopState) (b : Buffer) (f : Field) :
    Keyword → Option (Except Error LoopState)
  | .hasDepth => some (s.sets (f.flag.map fun v => .buffer { b with hasDepth := v }))
  | .textures => some (s.takeList (.attachments b) f)
  | _ => none

def passArm? (s : LoopState) (p : Pass) (f : Field) : Keyword → Option (Except Error LoopState)
  | .shader => some (.ok { s with block := .pass { p with shader := f.text } })
  | .draw => some (s.sets ((f.literal (DrawMode.ofText? f.text)).map fun v =>
      .pass { p with draw := v }))
  | .inputs => some (s.takeList (.inputs p) f)
  | .outputs => some (s.takeOutputs p f)
  | .clearDepth => some (s.sets (f.flag.map fun v => .pass { p with clearDepth := v }))
  | .writeDepth => some (s.sets (f.flag.map fun v => .pass { p with writeDepth := v }))
  | .clearOutputs => some (s.sets (f.flag.map fun v => .pass { p with clearOutputs := v }))
  | .depthTest => some (s.sets ((f.literal (DepthTest.ofText? f.text)).map fun v =>
      .pass { p with depthTest := v }))
  | _ => none

def textureArm? (s : LoopState) (t : Texture) (f : Field) :
    Keyword → Option (Except Error LoopState)
  | .path => some (.ok { s with block := .texture { t with path := some f.text } })
  | .format => some (s.sets ((f.literal (TexelFormat.ofText? f.text)).map fun v =>
      .texture { t with format := v }))
  | .scale => some (s.sets ((f.literal (Scale.read? f.value)).map fun v =>
      .texture { t with scale := v }))
  | _ => none

def shaderArm? (s : LoopState) (sh : Shader) (f : Field) :
    Keyword → Option (Except Error LoopState)
  | .attributes => some (s.takeList (.attributes sh none) f)
  | .uniforms => some (s.takeList (.uniforms sh) f)
  | .varying => some (s.takeList (.varyings sh) f)
  | .vertexStage => some (s.entersStage sh .vertex f)
  | .fragmentStage => some (s.entersStage sh .fragment f)
  | _ => none

def stageArm? (s : LoopState) (sh : Shader) (st : OpenStage) (f : Field) :
    Keyword → Option (Except Error LoopState)
  | .source => some (s.takeSource sh st f)
  | .attributes => some (s.takeList (.attributes sh (some st)) f)
  | _ => none

/-- What the loop does with a field that it takes; it may have no arm for the keyword. The cursor
stands behind the line of the field. -/
def arm? (s : LoopState) (f : Field) : Keyword → Option (Except Error LoopState) :=
  match s.block with
  | .root => s.rootArm? f
  | .buffer b => s.bufferArm? b f
  | .pass p => s.passArm? p f
  | .texture t => s.textureArm? t f
  | .shader sh none => s.shaderArm? sh f
  | .shader sh (some st) => s.stageArm? sh st f

end LoopState

/-- Why a reading stops: an error in the text, or a field for which the loop that takes it has no
arm. -/
inductive Stop where
  | error (e : Error)
  | noArm
  deriving DecidableEq, Repr

/-- What a turn of a loop comes to: a field was taken, the loop around goes on, or the text is at
its end. -/
inductive Turn where
  | takes (f : Field) (k : Keyword) (next : LoopState)
  | leaves (next : LoopState)
  | ends (plan : Plan)
  deriving DecidableEq

/-- The plan and the block behind a loop that is left. A stage needs a source, and a block is added
to the plan. -/
def leaveBlock (plan : Plan) : Block → Except Error (Plan × Block)
  | .shader sh (some st) => (closeStage (some st)).map fun _ => (plan, .shader sh none)
  | block => (closeBlock plan block).map fun plan => (plan, .root)

namespace LoopState

/-- Leaves the loop; the root is left at the end of the text. -/
def leave (s : LoopState) : Except Error Turn :=
  match s.block with
  | .root => .ok (.ends s.plan)
  | block => (leaveBlock s.plan block).map fun (plan, next) =>
      .leaves ⟨plan, next, s.cursor.skip⟩

/-- One turn of the loop. -/
def turn (s : LoopState) : Except Stop Turn :=
  match s.cursor.peek? with
  | none => s.leave.mapError .error
  | some l =>
    match l.field? with
    | none => .error (.error ⟨l.number, .missingColon (String.ofList (trim l.text))⟩)
    | some f =>
      match Keyword.ofText? (String.ofList f.keyword) with
      | none => f.unknownKeyword.mapError .error
      | some k =>
        match s.block.loop.verdict f k with
        | .leaves => s.leave.mapError .error
        | .refuses => f.unknownKeyword.mapError .error
        | .takes =>
          match { s with cursor := s.cursor.next }.arm? f k with
          | some next => (next.map (.takes f k)).mapError .error
          | none => .error .noArm

/-- The plan that the text under the cursor leads to when it is read line by line. -/
def outcome (s : LoopState) : Except Error Plan :=
  State.run (.inBlock s.plan s.block) s.cursor.remaining

end LoopState

def Turn.outcome : Turn → Except Error Plan
  | takes _ _ next => next.outcome
  | leaves next => next.outcome
  | ends plan => .ok plan

end RenderPlan.Description
