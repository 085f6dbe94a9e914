import RenderPlan.Plan.Basic
/-!
References that lead nowhere. A pass names a shader, buffers it reads and a buffer it writes; each
name that is not declared is reported, once for every place where it stands: first the shader, then
the inputs, then the outputs, pass after pass. What a pass leaves empty is not reported, and the
attachments of a buffer that is not declared are not looked at.
-/
namespace RenderPlan

/-- A name in a pass that is not declared. -/
inductive Dangling where
  | shader (pass shader : String)
  | outputBuffer (pass buffer : String)
  | outputTexture (pass texture : String)
  | inputBuffer (pass buffer : String)
  | inputTexture (pass buffer texture : String)
  deriving DecidableEq, Repr

def Dangling.message : Dangling → String
  | shader p s => "Pass '" ++ p ++ "' uses undeclared shader '" ++ s ++ "'"
  | outputBuffer p b => "Pass '" ++ p ++ "' writes undeclared buffer '" ++ b ++ "'"
  | outputTexture p t =>
    "Pass '" ++ p ++ "' writes texture '" ++ t ++ "' which is not attached to its output buffer"
  | inputBuffer p b => "Pass '" ++ p ++ "' reads undeclared buffer '" ++ b ++ "'"
  | inputTexture p b t =>
    "Pass '" ++ p ++ "' reads '" ++ b ++ "." ++ t ++ "' which is not attached to buffer '" ++ b
      ++ "'"

namespace Plan

def danglingShader (plan : Plan) (p : Pass) : List Dangling :=
  if p.shader = "" ∨ (plan.shader? p.shader).isSome then [] else [.shader p.name p.shader]

def danglingInput (plan : Plan) (p : Pass) (i : InputTexture) : List Dangling :=
  match plan.buffer? i.buffer with
  | none => [.inputBuffer p.name i.buffer]
  | some b =>
    if (b.attachment? i.texture).isSome then [] else [.inputTexture p.name i.buffer i.texture]

def danglingOutputs (plan : Plan) (p : Pass) : List Dangling :=
  if p.outputBuffer = "" then []
  else match plan.buffer? p.outputBuffer with
    | none => [.outputBuffer p.name p.outputBuffer]
    | some b =>
      (p.outputTextures.filter fun t => (b.attachment? t).isNone).map (.outputTexture p.name)

def danglingOf (plan : Plan) (p : Pass) : List Dangling :=
  plan.danglingShader p ++ p.inputs.flatMap (plan.danglingInput p) ++ plan.danglingOutputs p

/-- Every reference of the plan that is not declared, in the order of the passes. -/
def dangling (plan : Plan) : List Dangling := plan.passes.flatMap plan.danglingOf

end Plan
end RenderPlan
