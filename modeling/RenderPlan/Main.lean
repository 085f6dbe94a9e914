import RenderPlan.Invocation
import RenderPlan.Settings.Document
/-!
The command line. Only this module reads and writes files; what is printed and written was decided
before.
-/
open RenderPlan

/-- Prints and writes an outcome, its files inside a directory if there is one. -/
def perform (directory : Option String) (o : Outcome) : IO UInt32 := do
  for d in o.diagnostics do
    IO.eprintln d
  if o.exit = 0 then
    if let some d := directory then
      IO.FS.createDirAll d
  for (name, content) in o.files do
    IO.FS.writeFile (directory.elim name fun d => filePath d name) content
  IO.print o.stdout
  return o.exit.toUInt32

def main (args : List String) : IO UInt32 := do
  match Invocation.read? args with
  | some (.analyze view file) => perform none (analyze view (← IO.FS.readFile file))
  | some (.dump target directory config file) =>
    let document ← config.mapM fun f => IO.FS.readFile f
    perform directory (dump Settings.read? document target (← IO.FS.readFile file))
  | none =>
    IO.eprintln Invocation.usage
    return 2
