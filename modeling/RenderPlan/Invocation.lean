import RenderPlan.Command
/-!
The words of a command line. Each command takes one file and its options, in any order; an option
that names something takes the word behind it. Programs go into a directory or into one file of
data, not both.
-/
namespace RenderPlan

/-- A command as it was asked for. -/
inductive Invocation where
  | analyze (view : View) (file : String)
  | dump (target : Target) (directory config : Option String) (file : String)
  deriving DecidableEq, Repr

namespace Invocation

/-- What the words of a command line have said so far. -/
structure Words where
  file : Option String := none
  json : Bool := false
  document : Option String := none
  directory : Option String := none
  config : Option String := none
  deriving DecidableEq, Repr

/-- Takes a word as the file, if it is not an option and no file was named. -/
def Words.withFile? (w : Words) (word : String) : Option Words :=
  if word.startsWith "-" || w.file.isSome then none else some { w with file := some word }

def readAnalyze? (w : Words) : List String → Option Invocation
  | [] => w.file.map (analyze (if w.json then .data else .outline))
  | "--json" :: rest => readAnalyze? { w with json := true } rest
  | word :: rest => (w.withFile? word).bind fun w => readAnalyze? w rest

def readDump? (w : Words) : List String → Option Invocation
  | [] =>
    match w.directory, w.document with
    | some _, some _ => none
    | some d, none => w.file.map (dump .directory (some d) w.config)
    | none, some f => w.file.map (dump (.document f) none w.config)
    | none, none => w.file.map (dump .screen none w.config)
  | [word] => (w.withFile? word).bind fun w => readDump? w []
  | word :: value :: rest =>
    if word = "--output-dir" ∨ word = "-o" then readDump? { w with directory := some value } rest
    else if word = "--json" then readDump? { w with document := some value } rest
    else if word = "--config" ∨ word = "-c" then readDump? { w with config := some value } rest
    else (w.withFile? word).bind fun w => readDump? w (value :: rest)

/-- The command that the words ask for, or nothing if they ask for none. -/
def read? : List String → Option Invocation
  | "analyze" :: words => readAnalyze? {} words
  | "dump" :: words => readDump? {} words
  | _ => none

def usage : String :=
  "usage: analyze FILE [--json]\n" ++
  "       dump FILE [--output-dir DIRECTORY | --json FILE] [--config FILE]"

end Invocation
end RenderPlan
