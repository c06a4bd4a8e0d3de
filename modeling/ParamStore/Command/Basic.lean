/-!
# Commands — what can be asked of a parameter file from a command line

A command loads a file if one is named, lays overrides over it, and then reports the tree, looks one
    key up, lists all keys, merges a second file, or performs look-ups to show the requests they
    leave. How a command is written down is the matter of `ParamStore.Command.Reading`.

* **`Action`** — what is asked.
* **`Invocation`** — an action with its file, its overrides and its wishes about logging.
-/

namespace ParamStore.Command

/-- The types that a look-up can ask for. -/
inductive Kind where
  | string | int | float | bool | vector | matrix
deriving DecidableEq, Repr

/-- A type by its name. -/
def Kind.ofName? : String → Option Kind
  | "string" => some string
  | "int" => some int
  | "float" => some float
  | "bool" => some bool
  | "vector" => some vector
  | "matrix" => some matrix
  | _ => none

/-- What is asked of the parameters. -/
inductive Action where
  /-- The report of the tree, each line led by a text. -/
  | report (lead : String)
  /-- One value, or a default for it. -/
  | get (key : String) (default : Option String) (kind : Kind)
  /-- Every key with its value. -/
  | keys (format : String)
  /-- The report after a second file has been merged. -/
  | merge (other under : String) (overwrite : Bool)
  /-- The requests that look-ups leave. -/
  | requests (lookups : List String) (format : String)
deriving DecidableEq, Repr

/-- A command with everything it needs. -/
structure Invocation where
  file : Option String
  logLevel : Option String
  logFormat : Option String
  logOutput : Option String
  action : Action
  /-- Keys with values, as they stand on the command line. -/
  overrides : List String
deriving DecidableEq, Repr

end ParamStore.Command
