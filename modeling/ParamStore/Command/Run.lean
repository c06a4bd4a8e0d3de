import ParamStore.Command.Basic
import ParamStore.Command.Listing
import ParamStore.Ledger.Json
import ParamStore.Store.Ingest
import ParamStore.Store.Lookup

/-!
# Running a command — from a file and overrides to a text

The file is loaded first, or the store starts out empty; the overrides follow; then the action is
    performed and its text is the answer. A look-up reads its default before it looks at the store,
    so a default of the wrong type is refused even where it is not needed. The name of an output
    form is looked at last.

* **`Invocation.load`** — the store of the file.
* **`Invocation.run`** — the text of the command.
-/

namespace ParamStore.Command

open Number

/-- The store of a file, or an empty one. -/
def Invocation.load (inv : Invocation) (files : FileReader) : Except Error Store :=
  match inv.file with
  | some path => Store.ofFile files path .quiet
  | none => .ok .empty

/-- What marks a text as a default's. -/
def defaultMark : String := "  (default)"

/-- The value of a key in its stored form, marked if the default was used. -/
def lookUp (α : Type) [Codec α] (s : Store) (key : String) (default : Option String) :
    Except Error String :=
  match default with
  | none => (s.get key (Validator.any : Validator α) .any).map Codec.encode
  | some raw =>
    match (Codec.read raw : Except Error α) with
    | .error e => .error e
    | .ok value =>
      let mark := if s.tree.hasKey key then "" else defaultMark
      (s.getOr key value).result.map fun found => Codec.encode found ++ mark

/-- `lookUp` at the type of a kind. -/
def lookUpKind (s : Store) (key : String) (default : Option String) : Kind → Except Error String
  | .string => lookUp String s key default
  | .int => lookUp (Ranged .i64) s key default
  | .float => lookUp (Binary .double) s key default
  | .bool => lookUp Bool s key default
  | .vector => lookUp (List String) s key default
  | .matrix => lookUp (Matrix (Binary .double)) s key default

/-- The refusal of an output form. -/
def unknownFormat (format choices : String) : Error :=
  .invalidArgument ("--format " ++ format ++ " (must be " ++ choices ++ ")")

/-- Every key with its value. -/
def listKeys (s : Store) (format : String) : Except Error String :=
  if format = "text" then .ok (Listing.lines s.tree.flatten)
  else if format = "table" then .ok (Listing.table s.tree.flatten)
  else .error (unknownFormat format "'text' or 'table'")

/-- The report after a second file has been merged. -/
def mergeFile (s : Store) (files : FileReader) (other under : String) (overwrite : Bool) :
    Except Error String :=
  match Store.ofFile files other .quiet with
  | .error e => .error e
  | .ok incoming =>
    let merged := s.add incoming under overwrite
    merged.result.map fun _ => merged.state.tree.report ""

/-- Performs look-ups of texts, each written as a key and a default with an equals sign between
    them, and keeps the requests. -/
def performLookUps : List String → Store → Except Error Store
  | [], s => .ok s
  | text :: rest, s =>
    match Text.splitOnce (· = '=') text with
    | none => .error (.invalidArgument text)
    | some (key, default) =>
      performLookUps rest (s.getOr (Text.trim key) (Text.trim default)).store

/-- The requests that look-ups leave. -/
def showRequests (s : Store) (lookups : List String) (format : String) : Except Error String :=
  match performLookUps lookups s with
  | .error e => .error e
  | .ok s =>
    if format = "json" then .ok s.ledger.pretty
    else if format = "text" then .ok (s.ledger.text ++ s.ledger.conflictPart)
    else .error (unknownFormat format "'text' or 'json'")

/-- Performs an action. -/
def Action.perform (s : Store) (files : FileReader) : Action → Except Error String
  | report lead => .ok (s.tree.report lead)
  | get key default kind => lookUpKind s key default kind
  | keys format => listKeys s format
  | merge other under overwrite => mergeFile s files other under overwrite
  | requests lookups format => showRequests s lookups format

/-- The store with the overrides; without any, no parameter file is looked for. -/
def Invocation.override (inv : Invocation) (files : FileReader) (s : Store) : Except Error Store :=
  if inv.overrides.isEmpty then .ok s
  else
    let filled := s.readOptions files inv.overrides
    filled.result.map fun _ => filled.state

/-- The text of a command on a loaded store. -/
def Invocation.execute (inv : Invocation) (files : FileReader) (s : Store) : Except Error String :=
  match inv.override files s with
  | .error e => .error e
  | .ok s => inv.action.perform s files

/-- The parameter file that a command is refused for. -/
def Invocation.refusedFile? (inv : Invocation) (files : FileReader) : Option String :=
  match inv.load files with
  | .error (.source path) => some path
  | .error _ => none
  | .ok s =>
    match inv.execute files s with
    | .error (.source path) => some path
    | _ => none

/-- The text of a command. -/
def Invocation.run (inv : Invocation) (files : FileReader) : Except Error String :=
  match inv.load files with
  | .error e => .error e
  | .ok s => inv.execute files s

end ParamStore.Command
