import RenderPlan.Main
import RenderPlan.Proofs.Description.AttachmentGrammar
import RenderPlan.Proofs.Description.Body
import RenderPlan.Proofs.Description.Bracketed
import RenderPlan.Proofs.Description.Concatenation
import RenderPlan.Proofs.Description.CursorCalls
import RenderPlan.Proofs.Description.Declarations
import RenderPlan.Proofs.Description.Diagnosis
import RenderPlan.Proofs.Description.FieldOrder
import RenderPlan.Proofs.Description.Finality
import RenderPlan.Proofs.Description.Ignorable
import RenderPlan.Proofs.Description.ListLayout
import RenderPlan.Proofs.Description.OpenPassList
import RenderPlan.Proofs.Description.PassGrammar
import RenderPlan.Proofs.Description.PlanWriting
import RenderPlan.Proofs.Description.Progress
import RenderPlan.Proofs.Description.RootFields
import RenderPlan.Proofs.Description.ScaleRange
import RenderPlan.Proofs.Description.Spacing
import RenderPlan.Proofs.Description.VariableLayout
import RenderPlan.Proofs.Description.WellFormed
import RenderPlan.Proofs.Plan.References
import RenderPlan.Proofs.Program.LineEnds
import RenderPlan.Proofs.Program.Paths
import RenderPlan.Proofs.Program.Stages
import RenderPlan.Proofs.ShaderType.Lookup
