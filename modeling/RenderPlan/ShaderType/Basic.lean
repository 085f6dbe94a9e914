/-!
Types of shader variables, by their structure: scalars, vectors, matrices and samplers, and one
value for a type that is not known. Element counts and byte sizes follow from the structure; a value
is packed tightly, and only elements in double precision take eight bytes.
-/
namespace RenderPlan

inductive Scalar where
  | float | double | int | uint | bool
  deriving DecidableEq, Repr

/-- The length of a vector, or of one side of a matrix. -/
inductive Extent where
  | two | three | four
  deriving DecidableEq, Repr

/-- What a sampler without a depth comparison returns. -/
inductive Texels where
  | float | int | uint
  deriving DecidableEq, Repr

inductive SamplerShape where
  | line | plane | volume | cube | rectangle | lineArray | planeArray | buffer | multisample
  | multisampleArray
  deriving DecidableEq, Repr

inductive ShadowShape where
  | line | plane | rectangle | lineArray | planeArray | cube | cubeArray
  deriving DecidableEq, Repr

/-- A type of a shader variable. Matrices with both sides named exist in single precision only, and
arrays of cubes are sampled as floats only. -/
inductive ShaderType where
  | scalar (base : Scalar)
  | vector (base : Scalar) (size : Extent)
  | square (double : Bool) (side : Extent)
  | matrix (columns rows : Extent)
  | sampler (texels : Texels) (shape : SamplerShape)
  | cubeArraySampler
  | shadowSampler (shape : ShadowShape)
  | unknown
  deriving DecidableEq, Repr

def Scalar.all : List Scalar := [.float, .double, .int, .uint, .bool]

def Extent.all : List Extent := [.two, .three, .four]

def Texels.all : List Texels := [.float, .int, .uint]

def SamplerShape.all : List SamplerShape :=
  [.line, .plane, .volume, .cube, .rectangle, .lineArray, .planeArray, .buffer, .multisample,
   .multisampleArray]

def ShadowShape.all : List ShadowShape :=
  [.line, .plane, .rectangle, .lineArray, .planeArray, .cube, .cubeArray]

def Extent.size : Extent → Nat
  | .two => 2
  | .three => 3
  | .four => 4

def Scalar.bytes : Scalar → Nat
  | .double => 8
  | _ => 4

namespace ShaderType

/-- Every type that has a name of its own, each once. -/
def all : List ShaderType :=
  Scalar.all.map scalar
    ++ Scalar.all.flatMap (fun b => Extent.all.map (vector b))
    ++ [false, true].flatMap (fun d => Extent.all.map (square d))
    ++ Extent.all.flatMap (fun c => Extent.all.map (matrix c))
    ++ Texels.all.flatMap (fun t => SamplerShape.all.map (sampler t))
    ++ cubeArraySampler :: ShadowShape.all.map shadowSampler

/-- The number of scalar elements; a sampler and an unknown type count as one. -/
def elements : ShaderType → Nat
  | vector _ n => n.size
  | square _ n => n.size * n.size
  | matrix c r => c.size * r.size
  | _ => 1

/-- The bytes of one element. -/
def elementBytes : ShaderType → Nat
  | scalar b => b.bytes
  | vector b _ => b.bytes
  | square true _ => 8
  | _ => 4

/-- The bytes of one tightly packed value. -/
def stride (t : ShaderType) : Nat := t.elements * t.elementBytes

def isSampler : ShaderType → Bool
  | sampler _ _ => true
  | cubeArraySampler => true
  | shadowSampler _ => true
  | _ => false

theorem mem_all_iff (t : ShaderType) : t ∈ all ↔ t ≠ unknown := by
  cases t with
  | scalar b => cases b <;> decide
  | vector b n => cases b <;> cases n <;> decide
  | square d n => cases d <;> cases n <;> decide
  | matrix c r => cases c <;> cases r <;> decide
  | sampler x s => cases x <;> cases s <;> decide
  | cubeArraySampler => decide
  | shadowSampler s => cases s <;> decide
  | unknown => decide

end ShaderType
end RenderPlan
