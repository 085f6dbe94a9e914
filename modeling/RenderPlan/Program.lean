import RenderPlan.Plan.Basic
import RenderPlan.Settings.Basic
import RenderPlan.ShaderType.Name
/-!
Programs: the complete sources of a shader. A source is the version header, the declarations of the
variables, one to a line, and the body of its stage as it is. Attributes are declared in the vertex
stage only, each at the location that is its position; uniforms are declared in both stages; the
varyings make one interface block, an output of the vertex stage and an input of the fragment stage.
-/
namespace RenderPlan

/-- The sources of one shader. -/
structure Program where
  name : String
  vertexSource : String
  fragmentSource : String
  deriving DecidableEq, Repr

/-- Lines as one text, each ended by a line feed. -/
def unlines (ls : List String) : String := String.join (ls.map fun l => l ++ "\n")

/-- A variable as it is declared: its type and its name. -/
def Variable.declaration (v : Variable) : String := v.type.name ++ " " ++ v.name ++ ";"

/-- Attributes with their locations, the first one at `location`. -/
def attributeLines : Nat → List Variable → List String
  | _, [] => []
  | location, v :: vs =>
    ("layout(location = " ++ Nat.repr location ++ ") in " ++ v.declaration)
      :: attributeLines (location + 1) vs

def uniformLines (vs : List Variable) : List String :=
  vs.map fun v => "uniform " ++ v.declaration

/-- The block of varyings behind a word for its direction; there is none without varyings. -/
def interfaceLines (settings : Settings) (direction : String) (vs : List Variable) : List String :=
  if vs.isEmpty then []
  else (direction ++ " " ++ settings.interfaceBlock ++ " \x7b")
    :: vs.map (fun v => "    " ++ v.declaration)
    ++ ["\x7d " ++ settings.interfaceInstance ++ ";"]

/-- The lines before the body of the vertex stage. -/
def vertexPreamble (settings : Settings) (s : Shader) : List String :=
  settings.versionHeader :: attributeLines 0 s.attributes ++ uniformLines s.uniforms
    ++ interfaceLines settings "out" s.varyings

/-- The lines before the body of the fragment stage. -/
def fragmentPreamble (settings : Settings) (s : Shader) : List String :=
  settings.versionHeader :: uniformLines s.uniforms ++ interfaceLines settings "in" s.varyings

def Shader.program (settings : Settings) (s : Shader) : Program where
  name := s.name
  vertexSource := unlines (vertexPreamble settings s) ++ s.vertexBody
  fragmentSource := unlines (fragmentPreamble settings s) ++ s.fragmentBody

/-- The programs of all shaders of a plan, in order. -/
def Plan.programs (settings : Settings) (plan : Plan) : List Program :=
  plan.shaders.map (Shader.program settings)

end RenderPlan
