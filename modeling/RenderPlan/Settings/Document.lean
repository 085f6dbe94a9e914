import RenderPlan.Document.Node
import RenderPlan.Settings.Basic
/-!
Settings from a YAML document, whose root is a map or missing. A setting may be given once and only
as a scalar; entries of other names are passed over, but every key is a scalar.
-/
namespace RenderPlan

open Document

/-- The entries of a map by the texts of their keys. -/
def Document.Node.namedEntries? : Node → Option (List (List Char × Value))
  | .absent => some []
  | .map entries => entries.mapM fun (k, v) =>
    match k with
    | .scalar name => some (name, v)
    | .collection => none
  | _ => none

/-- The scalar of a name, or the default where there is none. -/
def Document.scalarOf? (entries : List (List Char × Value)) (name default : String) :
    Option String :=
  match entries.filter fun e => e.1 = name.toList with
  | [] => some default
  | [(_, .scalar t)] => some (String.ofList t)
  | _ => none

/-- The settings that a document gives, defaults where it gives none. -/
def Settings.read? (source : String) : Option Settings := do
  let tokens ← tokens? source.toList
  let root ← Node.read? tokens
  let entries ← root.namedEntries?
  let defaults : Settings := {}
  let header ← scalarOf? entries "version_header" defaults.versionHeader
  let block ← scalarOf? entries "interface_block" defaults.interfaceBlock
  let instanceName ← scalarOf? entries "interface_instance" defaults.interfaceInstance
  some ⟨header, block, instanceName⟩

end RenderPlan
