import ParamStore.Command.Program
import ParamStore.Format.File
import ParamStore.Logging.Directive

/-!
# The executable — a thin layer over `program`

The run is a value: files and an environment go in, outputs and files come out. This is where the
    four formats of files and the rules for directives come in. A command names few files, and
    only on the way does it turn out which; so the files it is refused for are fetched, with the
    endings of their formats, and the command is tried again until it asks for nothing new. Then
    the files it leaves that were not fetched are made, and the outputs are written.
-/

namespace ParamStore.Main

open ParamStore.Command ParamStore.Logging

/-- The text of a file, if there is one that can be read. -/
def readText (path : String) : IO (Option String) := do
  try
    return some (← IO.FS.readFile path)
  catch _ =>
    return none

/-- The directory with a file and those that the endings of its format add. -/
def fetch (path : String) (d : Directory) : IO Directory := do
  let mut d := d
  let others := (Format.ofPath path).endings.filterMap (withEnding path)
  for candidate in path :: others do
    if let some text ← readText candidate then
      d := (d.write candidate text).state
  return d

/-- The directory with the files that a command asks for. A command names at most as many files as
    there are rounds. -/
def gather (inv : Invocation) : Nat → List String → Directory → IO Directory
  | 0, _, d => return d
  | rounds + 1, tried, d =>
    match inv.refusedFile? d.tables with
    | none => return d
    | some path => do
      if tried.contains path then return d
      else gather inv rounds (path :: tried) (← fetch path d)

/-- What the environment says about logging. -/
def environment : IO Environment := do
  let filter ← IO.getEnv "PARAMTREE_LOG"
  let modules ← IO.getEnv "PARAMTREE_LOG_MODULES"
  let format ← IO.getEnv "PARAMTREE_LOG_FORMAT"
  let output ← IO.getEnv "PARAMTREE_LOG_OUTPUT"
  return ⟨filter, modules, format, output⟩

/-- The folder of a file by its path. -/
def folderOf (name : String) : String :=
  Directory.placeName (Directory.start name ++ (Directory.parts name).dropLast)

/-- Makes a file that is not there yet, with its folders. -/
def makeFile (name : String) : IO Unit := do
  let folder := folderOf name
  if !folder.isEmpty then IO.FS.createDirAll folder
  let handle ← IO.FS.Handle.mk name .append
  handle.flush

/-- Makes the files that a run leaves and that were not there before. -/
def makeNew (before after : Directory) : IO Unit := do
  for entry in after.files do
    if !before.files.contains entry.1 then makeFile entry.1

/-- The program on the words of a line. -/
def run (line : List String) : IO UInt32 := do
  let before ← match Invocation.ofWords line with
    | .ok inv => gather inv 8 [] .empty
    | .error _ => pure .empty
  let exit := program Directory.tables Directive.rules (← environment) before line
  makeNew before exit.directory
  IO.print exit.stdout
  IO.eprint exit.stderr
  return exit.code.toUInt32

end ParamStore.Main

/-- The executable. -/
def main (line : List String) : IO UInt32 := ParamStore.Main.run line
