import RenderPlan.Description.AttachmentList
import RenderPlan.Description.Bracket
import RenderPlan.Description.Error
import RenderPlan.Description.PassList
import RenderPlan.Description.VariableList
/-!
The state of reading a description between two lines: the plan of all finished blocks, the block
that is open, and what the next line may continue. A list that is still open knows the block it will
go into, so filling it always yields a block again.
-/
namespace RenderPlan.Description

/-- A stage whose fields are being read. -/
structure OpenStage where
  stage : Stage
  /-- The line that opened the stage. -/
  line : Nat
  hasSource : Bool := false
  deriving DecidableEq, Repr

/-- The block that is open; `root` only before the first block. -/
inductive Block where
  | root
  | buffer (b : Buffer)
  | pass (p : Pass)
  | texture (t : Texture)
  | shader (s : Shader) (stage : Option OpenStage)
  deriving DecidableEq

/-- A list field whose value is being read, with the block it belongs to. -/
inductive ListField where
  | attributes (s : Shader) (stage : Option OpenStage)
  | uniforms (s : Shader)
  | varyings (s : Shader)
  | attachments (b : Buffer)
  | inputs (p : Pass)
  | outputs (p : Pass) (buffer : List Char)
  deriving DecidableEq

/-- What the next line may be. -/
inductive Mode where
  /-- A field of the block, or the opener of the next one. -/
  | fields (block : Block)
  /-- The opening bracket of a list whose field was left empty. -/
  | expectList (field : ListField) (line : Nat)
  /-- One more line of a list; `opening` is the text that opened it. -/
  | list (field : ListField) (line : Nat) (opening inner : List Char)
  /-- The buffer of an `outputs` field that was left empty. -/
  | expectBuffer (p : Pass) (line : Nat)
  /-- The list of an `outputs` field that named its buffer, or anything else. -/
  | expectOutputs (p : Pass) (line : Nat) (buffer : List Char)
  /-- The opening fence of a `source` field that was left empty. -/
  | expectFence (s : Shader) (stage : OpenStage) (line : Nat)
  /-- One more line of a source; `captured` holds those before, the last one first. -/
  | body (s : Shader) (stage : OpenStage) (line : Nat) (captured : List (List Char))
  deriving DecidableEq

structure State where
  plan : Plan
  mode : Mode
  deriving DecidableEq

namespace State

def initial : State := ⟨{}, .fields .root⟩

/-- Between two fields of a block. -/
def inBlock (plan : Plan) (block : Block) : State := ⟨plan, .fields block⟩

end State

/-- The lines that a mode passes over: none in a source, comments in a list, elsewhere blank lines
too. -/
def Mode.skips : Mode → List Char → Bool
  | .body .., _ => false
  | .list .., text => isComment text
  | _, text => isIgnorable text

def ListField.kind : ListField → ListKind
  | attributes .. | uniforms _ | varyings _ => .uniform
  | attachments _ => .texture
  | inputs _ => .input
  | outputs .. => .output

/-- The pass that draws into `textures` of `buffer`. -/
def withOutputs (p : Pass) (buffer : List Char) (textures : List String) : Pass :=
  { p with outputBuffer := String.ofList buffer, outputTextures := textures }

/-- The block with the list filled in, or the part of `inner` that does not fit. Variables are added
to those declared before; the lists of buffers and passes replace earlier ones. -/
def ListField.fill (inner : List Char) : ListField → Except (List Char) Block
  | attributes s stage => (readVariables inner).map fun vs =>
      .shader { s with attributes := s.attributes ++ vs } stage
  | uniforms s => (readVariables inner).map fun vs =>
      .shader { s with uniforms := s.uniforms ++ vs } none
  | varyings s => (readVariables inner).map fun vs =>
      .shader { s with varyings := s.varyings ++ vs } none
  | attachments b => (readAttachments inner).map fun ts => .buffer { b with textures := ts }
  | inputs p => (readInputs inner).map fun is => .pass { p with inputs := is }
  | outputs p buffer => .ok (.pass (withOutputs p buffer (readOutputs inner)))

/-- The shader with the body of one stage replaced. -/
def withBody (s : Shader) (stage : Stage) (body : List Char) : Shader :=
  match stage with
  | .vertex => { s with vertexBody := String.ofList body }
  | .fragment => { s with fragmentBody := String.ofList body }

/-- The text of captured lines, each ended by a line feed. -/
def bodyText (captured : List (List Char)) : List Char :=
  captured.reverse.flatMap fun l => l ++ ['\n']

end RenderPlan.Description
