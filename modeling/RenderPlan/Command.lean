import RenderPlan.Description.Reading
import RenderPlan.Plan.Data
import RenderPlan.Plan.Outline
import RenderPlan.Plan.References
import RenderPlan.Settings.Basic
/-!
What the commands do with the text of a description, apart from reading and writing files: the exit
code, the text to print, the files to write and the diagnostics. A description or settings that
cannot be read end a command before it prints or writes anything.
-/
namespace RenderPlan

/-- Contents by file name, each name once. -/
abbrev Files := List (String × String)

/-- Writes a file, as the last one; one of the same name is replaced. -/
def Files.put (files : Files) (name content : String) : Files :=
  files.filter (fun f => f.1 ≠ name) ++ [(name, content)]

/-- What stands before the names of the files in a directory. -/
def directoryPrefix (directory : String) : String :=
  if directory = "" ∨ directory.toList.getLast? = some '/' then directory else directory ++ "/"

/-- The path of a file in a directory. A name that begins with a slash is a path of its own. -/
def filePath (directory name : String) : String :=
  if name.toList.head? = some '/' then name else directoryPrefix directory ++ name

/-- The plan of a description together with the programs of its shaders. -/
def compile (settings : Settings) (source : String) :
    Except Description.Error (Plan × List Program) :=
  (Description.read source).map fun p => (p, p.programs settings)

structure Outcome where
  exit : Nat := 0
  stdout : String := ""
  files : Files := []
  diagnostics : List String := []
  deriving DecidableEq, Repr

/-- The outcome of a command that cannot go on. -/
def Outcome.failure (reason : String) : Outcome := { exit := 1, diagnostics := [reason] }

/-- How `analyze` shows a plan. -/
inductive View where
  | outline | data
  deriving DecidableEq, Repr

def View.render : View → Plan → String
  | outline, p => p.outline.pretty
  | data, p => p.toData.pretty

/-- Shows the plan of a description; references that lead nowhere are reported and do no harm. -/
def analyze (view : View) (source : String) : Outcome :=
  match Description.read source with
  | .error e => .failure e.message
  | .ok p =>
    { stdout := view.render p ++ "\n", diagnostics := p.dangling.map Dangling.message }

/-- Where `dump` puts the programs: on the screen, into two files each, or into one file of data. -/
inductive Target where
  | screen
  | directory
  | document (name : String)
  deriving DecidableEq, Repr

/-- The programs one after the other, each source under a line that names it. -/
def listing (ps : List Program) : String :=
  String.join <| ps.map fun p =>
    "// ---- " ++ p.name ++ " (vertex) ----\n" ++ p.vertexSource
      ++ "// ---- " ++ p.name ++ " (fragment) ----\n" ++ p.fragmentSource

/-- Two files for each program, in order, so the last program of a name is the one that stays. -/
def programFiles (ps : List Program) : Files :=
  ps.foldl
    (fun files p =>
      (files.put (p.name ++ ".vert") p.vertexSource).put (p.name ++ ".frag") p.fragmentSource)
    []

/-- Puts programs where they are wanted. -/
def deliver (ps : List Program) : Target → Outcome
  | .screen => { stdout := listing ps }
  | .directory => { files := programFiles ps }
  | .document name => { files := [(name, (Json.list (ps.map Program.toData)).pretty)] }

/-- Dumps the programs of a description under the settings that `read?` finds in a document, or the
default ones. -/
def dump (read? : String → Option Settings) (document : Option String) (target : Target)
    (source : String) : Outcome :=
  match document.elim (some {}) read? with
  | none => .failure "the settings cannot be read"
  | some settings =>
    match Description.read source with
    | .error e => .failure e.message
    | .ok p => deliver (p.programs settings) target

end RenderPlan
