/-!
Settings of the generated programs: their first line, and the two names of the block through which
the vertex stage hands values to the fragment stage. Each has a default.
-/
namespace RenderPlan

structure Settings where
  versionHeader : String := "#version 410"
  interfaceBlock : String := "Var"
  interfaceInstance : String := "var"
  deriving DecidableEq, Repr

end RenderPlan
