import RenderPlan.Plan.Literal
import RenderPlan.Scale.Basic
import RenderPlan.ShaderType.Basic
/-!
Render plans: buffers to draw into, passes that draw, shaders that the passes use, and textures
loaded from files. Blocks refer to each other by name only, and every list keeps the order of
declaration: passes run in that order, and an attribute's position is its binding location.
-/
namespace RenderPlan

/-- A texture, either attached to a buffer or standing alone; only the latter has a path. -/
structure Texture where
  name : String
  format : TexelFormat := .unspecified
  /-- The size relative to the viewport. -/
  scale : Scale := .one
  path : Option String := none
  deriving DecidableEq

/-- A named target to draw into. -/
structure Buffer where
  name : String
  hasDepth : Bool := false
  textures : List Texture := []
  deriving DecidableEq

/-- A texture that a pass reads, as an attachment of a buffer. -/
structure InputTexture where
  buffer : String
  texture : String
  deriving DecidableEq, Repr

/-- One step of drawing. An empty shader or output buffer is one that the pass does not name. -/
structure Pass where
  name : String
  shader : String := ""
  draw : DrawMode := .nothing
  clearDepth : Bool := false
  writeDepth : Bool := false
  clearOutputs : Bool := false
  depthTest : DepthTest := .always
  inputs : List InputTexture := []
  outputBuffer : String := ""
  outputTextures : List String := []
  deriving DecidableEq, Repr

/-- A variable of a shader. An empty binding is one that is not supplied automatically. -/
structure Variable where
  name : String
  type : ShaderType
  automatic : String := ""
  deriving DecidableEq, Repr

/-- The bodies of a vertex and a fragment stage with the variables they use. -/
structure Shader where
  name : String
  vertexBody : String := ""
  fragmentBody : String := ""
  attributes : List Variable := []
  uniforms : List Variable := []
  varyings : List Variable := []
  deriving DecidableEq, Repr

structure Plan where
  name : String := ""
  version : String := ""
  buffers : List Buffer := []
  passes : List Pass := []
  shaders : List Shader := []
  textures : List Texture := []
  deriving DecidableEq

/-- The attachment of a name, the first one if there are several. -/
def Buffer.attachment? (b : Buffer) (name : String) : Option Texture :=
  b.textures.find? fun t => t.name = name

namespace Plan

def buffer? (p : Plan) (name : String) : Option Buffer := p.buffers.find? fun b => b.name = name

def pass? (p : Plan) (name : String) : Option Pass := p.passes.find? fun q => q.name = name

def shader? (p : Plan) (name : String) : Option Shader := p.shaders.find? fun s => s.name = name

/-- The texture of a name among those that stand alone. -/
def texture? (p : Plan) (name : String) : Option Texture := p.textures.find? fun t => t.name = name

end Plan
end RenderPlan
