import ParamStore.Command.Reading
import ParamStore.Command.Run
import ParamStore.Logging.Setup

/-!
# The program — a line, an environment and files, to an exit

A line that is no command ends the program with code two and nothing on the standard output. A
    refusal ends it with code one and one line on the standard error. The file is loaded before
    logging is set up, because the file may say how: its settings are used unless they
    cannot be read, and options on the line come before them. The output ends in a new line.
    How files are read and what a filter is are the program's to be given.

* **`Exit`** — the code, the two outputs and the files that the program leaves.
* **`program`** — the whole run.
-/

namespace ParamStore.Command

/-- What the program leaves. -/
structure Exit where
  code : Nat
  stdout : String
  stderr : String
  directory : Directory

/-- The text with a new line at its end. -/
def closed (text : String) : String :=
  if text.toList.getLast? == some '\n' then text else text ++ "\n"

/-- A refusal as a line for the standard error, its first word bold and red. -/
def errorLine (e : Error) : String :=
  "\x1b[1m\x1b[31merror:\x1b[39m\x1b[0m " ++ e.message

/-- The refusal to set logging up as a line for the standard error. -/
def loggingLine (e : Error) : String := "Failed to initialize logging: " ++ e.message

/-- The help text. -/
def helpText : String :=
  "Inspect and query hierarchical parameter files\n\n"
    ++ "Usage: paramtree [OPTIONS] <COMMAND>\n\n"
    ++ "Commands:\n"
    ++ "  report    Print the tree report\n"
    ++ "  get       Look up one key as a typed value\n"
    ++ "  keys      List every key with its value\n"
    ++ "  merge     Merge a second parameter file and print the result\n"
    ++ "  requests  Perform lookups with defaults and dump the request ledger\n"
    ++ "  help      Print this message\n\n"
    ++ "Options:\n"
    ++ "      --file <FILE>              Parameter file to load\n"
    ++ "      --log-level <LOG_LEVEL>    Log level (trace, debug, info, warn, error, off)\n"
    ++ "      --log-format <LOG_FORMAT>  Log format (json, text)\n"
    ++ "      --log-output <LOG_OUTPUT>  Log output (stdout, stderr, file)\n"
    ++ "  -h, --help                     Print help\n"

/-- The settings of the file, or standard ones if they cannot be read, with the options of the line
    in front. -/
def Invocation.settings (inv : Invocation) (s : Store) : Logging.Settings :=
  let stored : Logging.Settings :=
    match Logging.Settings.ofStore s with
    | .ok settings => settings
    | .error _ => .standard
  { stored with
    level := inv.logLevel.getD stored.level
    format := inv.logFormat.getD stored.format
    output := inv.logOutput.getD stored.output }

/-- A command as a program: it loads, sets logging up, executes. -/
def Invocation.exit (inv : Invocation) (files : Directory → FileReader)
    (rules : Logging.FilterRules) (env : Logging.Environment) (d : Directory) : Exit :=
  match inv.load (files d) with
  | .error e => ⟨1, "", errorLine e ++ "\n", d⟩
  | .ok s =>
    let logging := Logging.Setup.begin rules (inv.settings s) env false d
    match logging.result with
    | .error e => ⟨1, "", loggingLine e ++ "\n", logging.state⟩
    | .ok _ =>
      match inv.execute (files logging.state) s with
      | .error e => ⟨1, "", errorLine e ++ "\n", logging.state⟩
      | .ok text => ⟨0, closed text, "", logging.state⟩

/-- The whole run. -/
def program (files : Directory → FileReader) (rules : Logging.FilterRules)
    (env : Logging.Environment) (d : Directory) (line : List String) : Exit :=
  match Invocation.ofWords line with
  | .error .wrong => ⟨2, "", helpText, d⟩
  | .error .help => ⟨0, helpText, "", d⟩
  | .ok inv => inv.exit files rules env d

end ParamStore.Command
