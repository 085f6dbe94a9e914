import RenderPlan.Data.Outline
import RenderPlan.Plan.Basic
import RenderPlan.Scale.Style
import RenderPlan.ShaderType.Label
/-!
Plans as outlines. A record shows every part of a plan in order; choices from a fixed set are shown
by their labels, and a path that may be missing is shown with its presence.
-/
namespace RenderPlan

/-- In an outline, ties of the shortest decimal go up, numbers from `1e-4` below `1e16` are plain,
and no exponent carries a plus sign. -/
def outlineStyle : Scale.Style := ⟨.up, -3, 16, false⟩

def Scale.outline (s : Scale) : Outline := .word (outlineStyle.write s)

def flagOutline (b : Bool) : Outline := .word (if b then "true" else "false")

def Channel.label : Channel → String
  | .float32 => "F32"
  | .float16 => "F16"
  | .unsigned8 => "U8"
  | .signed8 => "S8"

def TexelFormat.label : TexelFormat → String
  | unspecified => "None"
  | packed c n => c.label ++ "x" ++ n.digit

def DrawMode.label : DrawMode → String
  | nothing => "None"
  | opaqueGeometry => "OpaqueGeometry"
  | quad => "Quad"

def DepthTest.label : DepthTest → String
  | never => "Never"
  | less => "Less"
  | equal => "Equal"
  | lessEqual => "LessEqual"
  | greater => "Greater"
  | notEqual => "NotEqual"
  | greaterEqual => "GreaterEqual"
  | always => "Always"

def Texture.outline (t : Texture) : Outline :=
  .record "Texture"
    [("name", .text t.name), ("format", .word t.format.label), ("scale", t.scale.outline),
     ("path", match t.path with
        | none => .word "None"
        | some p => .wrapped "Some" (.text p))]

def Buffer.outline (b : Buffer) : Outline :=
  .record "Buffer"
    [("name", .text b.name), ("has_depth", flagOutline b.hasDepth),
     ("textures", .list (b.textures.map Texture.outline))]

def InputTexture.outline (i : InputTexture) : Outline :=
  .record "InputTexture" [("buffer", .text i.buffer), ("texture", .text i.texture)]

def Pass.outline (p : Pass) : Outline :=
  .record "Pass"
    [("name", .text p.name), ("shader", .text p.shader), ("draw", .word p.draw.label),
     ("clear_depth", flagOutline p.clearDepth), ("write_depth", flagOutline p.writeDepth),
     ("clear_outputs", flagOutline p.clearOutputs), ("depth_test", .word p.depthTest.label),
     ("input_textures", .list (p.inputs.map InputTexture.outline)),
     ("output_buffer", .text p.outputBuffer),
     ("output_textures", .list (p.outputTextures.map .text))]

def Variable.outline (v : Variable) : Outline :=
  .record "Uniform"
    [("name", .text v.name), ("ty", .word v.type.label), ("automatic", .text v.automatic)]

def Shader.outline (s : Shader) : Outline :=
  .record "Shader"
    [("name", .text s.name), ("vsh_source", .text s.vertexBody),
     ("fsh_source", .text s.fragmentBody),
     ("attributes", .list (s.attributes.map Variable.outline)),
     ("uniforms", .list (s.uniforms.map Variable.outline)),
     ("varyings", .list (s.varyings.map Variable.outline))]

def Plan.outline (p : Plan) : Outline :=
  .record "PipelineDescription"
    [("name", .text p.name), ("version", .text p.version),
     ("buffers", .list (p.buffers.map Buffer.outline)),
     ("passes", .list (p.passes.map Pass.outline)),
     ("shaders", .list (p.shaders.map Shader.outline)),
     ("textures", .list (p.textures.map Texture.outline))]

end RenderPlan
