import RenderPlan.Data.Json
import RenderPlan.Plan.Basic
import RenderPlan.Program
import RenderPlan.Scale.Style
import RenderPlan.ShaderType.Name
/-!
Plans and programs as data. Every part of a plan is a member of its own, so different plans are
different data; a texture without a path has no member for it. Numerals have a point or an exponent
and as few digits as tell a scale from its neighbours.
-/
namespace RenderPlan

/-- In data, ties of the shortest decimal go to the even digit, numbers from `1e-6` up to ten
trillion are plain, and a positive exponent carries its sign. -/
def dataStyle : Scale.Style := ⟨.even, -5, 13, true⟩

def Scale.toData (s : Scale) : Json := .number (dataStyle.write s)

def Texture.toData (t : Texture) : Json :=
  .object <|
    [("name", .string t.name), ("format", .string t.format.name), ("scale", t.scale.toData)]
      ++ t.path.toList.map fun p => ("path", .string p)

def Buffer.toData (b : Buffer) : Json :=
  .object
    [("name", .string b.name), ("has_depth", .flag b.hasDepth),
     ("textures", .list (b.textures.map Texture.toData))]

def InputTexture.toData (i : InputTexture) : Json :=
  .object [("buffer", .string i.buffer), ("texture", .string i.texture)]

def Pass.toData (p : Pass) : Json :=
  .object
    [("name", .string p.name), ("shader", .string p.shader), ("draw", .string p.draw.name),
     ("clear_depth", .flag p.clearDepth), ("write_depth", .flag p.writeDepth),
     ("clear_outputs", .flag p.clearOutputs), ("depth_test", .string p.depthTest.name),
     ("input_textures", .list (p.inputs.map InputTexture.toData)),
     ("output_buffer", .string p.outputBuffer),
     ("output_textures", .list (p.outputTextures.map .string))]

def Variable.toData (v : Variable) : Json :=
  .object
    [("name", .string v.name), ("type", .string v.type.name), ("automatic", .string v.automatic)]

def Shader.toData (s : Shader) : Json :=
  .object
    [("name", .string s.name), ("vsh_source", .string s.vertexBody),
     ("fsh_source", .string s.fragmentBody),
     ("attributes", .list (s.attributes.map Variable.toData)),
     ("uniforms", .list (s.uniforms.map Variable.toData)),
     ("varyings", .list (s.varyings.map Variable.toData))]

def Plan.toData (p : Plan) : Json :=
  .object
    [("name", .string p.name), ("version", .string p.version),
     ("buffers", .list (p.buffers.map Buffer.toData)),
     ("passes", .list (p.passes.map Pass.toData)),
     ("shaders", .list (p.shaders.map Shader.toData)),
     ("textures", .list (p.textures.map Texture.toData))]

def Program.toData (p : Program) : Json :=
  .object
    [("name", .string p.name), ("vertex_source", .string p.vertexSource),
     ("fragment_source", .string p.fragmentSource)]

end RenderPlan
