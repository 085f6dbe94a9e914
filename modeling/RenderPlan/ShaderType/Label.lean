import RenderPlan.ShaderType.Name
/-!
Labels of shader types: their names in capitalised form, as an outline shows them.
-/
namespace RenderPlan

def Scalar.label : Scalar → String
  | .float => "Float"
  | .double => "Double"
  | .int => "Int"
  | .uint => "UInt"
  | .bool => "Bool"

/-- The letter that marks the element type in the label of a vector. -/
def Scalar.labelMark : Scalar → String
  | .float => ""
  | .double => "D"
  | .int => "I"
  | .uint => "U"
  | .bool => "B"

/-- The letter that marks the result in the label of a sampler. -/
def Texels.labelMark : Texels → String
  | .float => ""
  | .int => "I"
  | .uint => "U"

def ShaderType.label : ShaderType → String
  | scalar b => b.label
  | vector b n => b.labelMark ++ "Vec" ++ n.digit
  | square d n => (if d then "D" else "") ++ "Mat" ++ n.digit
  | matrix c r => "Mat" ++ c.digit ++ "x" ++ r.digit
  | sampler x s => x.labelMark ++ "Sampler" ++ s.name
  | cubeArraySampler => "SamplerCubeArray"
  | shadowSampler s => "Sampler" ++ s.name ++ "Shadow"
  | unknown => "Unknown"

end RenderPlan
