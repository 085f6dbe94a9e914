import RenderPlan.ShaderType.Basic
/-!
Names of shader types. A name is composed from the parts of a type, and a text is looked up by
comparing it whole with each name, ASCII letters regardless of case and all other characters
exactly. A text that is empty or longer than 32 bytes is not compared at all: no name is.
-/
namespace RenderPlan

def Scalar.name : Scalar → String
  | .float => "float"
  | .double => "double"
  | .int => "int"
  | .uint => "uint"
  | .bool => "bool"

/-- The letter that marks the element type in the name of a vector. -/
def Scalar.mark : Scalar → String
  | .float => ""
  | .double => "d"
  | .int => "i"
  | .uint => "u"
  | .bool => "b"

/-- The letter that marks the result in the name of a sampler. -/
def Texels.mark : Texels → String
  | .float => ""
  | .int => "i"
  | .uint => "u"

def Extent.digit : Extent → String
  | .two => "2"
  | .three => "3"
  | .four => "4"

def SamplerShape.name : SamplerShape → String
  | .line => "1D"
  | .plane => "2D"
  | .volume => "3D"
  | .cube => "Cube"
  | .rectangle => "2DRect"
  | .lineArray => "1DArray"
  | .planeArray => "2DArray"
  | .buffer => "Buffer"
  | .multisample => "2DMS"
  | .multisampleArray => "2DMSArray"

def ShadowShape.name : ShadowShape → String
  | .line => "1D"
  | .plane => "2D"
  | .rectangle => "2DRect"
  | .lineArray => "1DArray"
  | .planeArray => "2DArray"
  | .cube => "Cube"
  | .cubeArray => "CubeArray"

namespace ShaderType

/-- The name of a type in the shading language. -/
def name : ShaderType → String
  | scalar b => b.name
  | vector b n => b.mark ++ "vec" ++ n.digit
  | square d n => (if d then "d" else "") ++ "mat" ++ n.digit
  | matrix c r => "mat" ++ c.digit ++ "x" ++ r.digit
  | sampler x s => x.mark ++ "sampler" ++ s.name
  | cubeArraySampler => "samplerCubeArray"
  | shadowSampler s => "sampler" ++ s.name ++ "Shadow"
  | unknown => "unknown"

/-- Equality up to the case of ASCII letters. -/
def sameLetters (a b : String) : Bool := a.toList.map Char.toLower == b.toList.map Char.toLower

/-- The type whose name a text is, whatever the length of the text. -/
def scan (text : String) : ShaderType := (all.find? fun t => sameLetters t.name text).getD unknown

/-- No text of more bytes than this is compared with the names. -/
def nameBytes : Nat := 32

def ofName (text : String) : ShaderType :=
  if text.isEmpty || nameBytes < text.utf8ByteSize then unknown else scan text

end ShaderType
end RenderPlan
