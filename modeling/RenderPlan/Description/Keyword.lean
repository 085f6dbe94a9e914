/-!
Keywords of the description language. A field belongs to the keyword whose spelling it has, compared
whole and with regard to case. Four keywords open a block; all others are fields of one.
-/
namespace RenderPlan.Description

inductive Keyword where
  | buffer | pass | shader | texture
  | name | version
  | hasDepth | textures
  | draw | inputs | outputs | clearDepth | writeDepth | clearOutputs | depthTest
  | attributes | uniforms | varying | vertexStage | fragmentStage | source
  | path | format | scale
  deriving DecidableEq, Repr

/-- The two programs of a shader. -/
inductive Stage where
  | vertex | fragment
  deriving DecidableEq, Repr

def Stage.spelling : Stage → String
  | .vertex => "vsh"
  | .fragment => "fsh"

namespace Keyword

def all : List Keyword :=
  [buffer, pass, shader, texture, name, version, hasDepth, textures, draw, inputs, outputs,
   clearDepth, writeDepth, clearOutputs, depthTest, attributes, uniforms, varying, vertexStage,
   fragmentStage, source, path, format, scale]

def spelling : Keyword → String
  | buffer => "buffer"
  | pass => "pass"
  | shader => "shader"
  | texture => "texture"
  | name => "name"
  | version => "version"
  | hasDepth => "has depth"
  | textures => "textures"
  | draw => "draw"
  | inputs => "inputs"
  | outputs => "outputs"
  | clearDepth => "clear depth"
  | writeDepth => "write depth"
  | clearOutputs => "clear outputs"
  | depthTest => "depth test"
  | attributes => "attributes"
  | uniforms => "uniforms"
  | varying => "varying"
  | vertexStage => Stage.vertex.spelling
  | fragmentStage => Stage.fragment.spelling
  | source => "source"
  | path => "path"
  | format => "format"
  | scale => "scale"

def ofText? (text : String) : Option Keyword := all.find? fun k => k.spelling = text

/-- The keywords that open a block of their own. -/
def opensBlock : Keyword → Bool
  | buffer | pass | shader | texture => true
  | _ => false

theorem mem_all (k : Keyword) : k ∈ all := by cases k <;> decide

/-- A text stands for a keyword exactly if it is the spelling of that keyword. -/
theorem ofText?_eq_some_iff {text : String} {k : Keyword} :
    ofText? text = some k ↔ k.spelling = text := by
  constructor
  · intro h
    simpa using List.find?_some h
  · rintro rfl
    cases k <;> decide

end Keyword

/-- The keyword that opens a stage. -/
def Stage.keyword : Stage → Keyword
  | .vertex => .vertexStage
  | .fragment => .fragmentStage

end RenderPlan.Description
