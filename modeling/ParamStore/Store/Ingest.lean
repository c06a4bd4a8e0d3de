import ParamStore.Format.Basic
import ParamStore.Store.Exit

/-!
# Filling a store — arguments and parameter files

An argument is a key and a value: in one token, with or without dashes before the key and with an
    equals sign between them, or in two tokens, the first of which has dashes and no equals
    sign. All arguments are looked at before the first one is stored. They replace what is
    there; then the file that the parameter `paramfile` names, by now, adds what is
    still missing. Files are read by the reader that is given.

* **`Argument.parse`** — the keys and values of some tokens.
* **`Store.readOptions`** — arguments into a store.
* **`Store.ofFile`**, **`Store.ofArgs`**, **`Store.ofArgsOrFile`** — stores from files and arguments.
-/

namespace ParamStore

namespace Argument

/-- The token without the dashes at its front. -/
def undashed (token : String) : String := String.ofList (token.toList.dropWhile (· = '-'))

/-- A key without the blanks around it; one that names no place refuses the token. -/
def checkedKey (key token : String) : Except Error String :=
  let key := Text.trim key
  match Path.segments? key with
  | some _ => .ok key
  | none => .error (.invalidArgument token)

/-- The keys and values of some tokens, in order. -/
def parse : List String → Except Error (List (String × String))
  | [] => .ok []
  | token :: rest =>
    match Text.splitOnce (· = '=') (undashed token) with
    | some (key, value) =>
      match checkedKey key token with
      | .error e => .error e
      | .ok key => (parse rest).map ((key, Text.trim value) :: ·)
    | none =>
      if undashed token = token then .error (.invalidArgument token)
      else
        match rest with
        | [] => .error (.invalidArgument token)
        | value :: rest =>
          match checkedKey (undashed token) token with
          | .error e => .error e
          | .ok key => (parse rest).map ((key, value) :: ·)

/-- The token looks like an argument and not like the name of a file. -/
def isOption (token : String) : Bool :=
  token.toList.head? == some '-' || token.toList.contains '='

end Argument

namespace Store

/-- The key that names a parameter file. -/
def paramfileKey : String := "paramfile"

/-- Stores arguments and then adds what is missing from the parameter file, if one is named. -/
def readOptions (s : Store) (files : FileReader) (args : List String) : Attempt Store Unit :=
  match Argument.parse args with
  | .error e => .refuse e s
  | .ok pairs =>
    (s.onTree (Tree.setAll true pairs s.tree)).andThen fun _ s =>
      match s.tree.get? paramfileKey with
      | none => .pure () s
      | some file =>
        match readTree files file with
        | .error e => .refuse e s
        | .ok tree => .pure () { s with tree := (s.tree.fillMissing tree).2 }

/-- A store of a parameter file. -/
def ofFile (files : FileReader) (path : String) (options : Options) : Except Error Store :=
  (readTree files path).map fun tree => ofTree tree options

/-- What building a store comes to: the store or a refusal, the directory afterwards, and remarks. -/
structure Opening where
  result : Except Error Store
  directory : Directory
  warnings : List Warning

/-- A store of arguments. One whose arguments are refused goes away at once, with its log if the
    options ask for it. -/
def ofArgs (files : FileReader) (d : Directory) (args : List String) (options : Options) : Opening :=
  let filled := (new options).readOptions files args
  match filled.result with
  | .ok _ => ⟨.ok filled.state, d, []⟩
  | .error e =>
    let left := filled.state.close d
    ⟨.error e, left.1, left.2⟩

/-- A store of arguments, or of a file: the fallback if there are no arguments, and the file that a
    single token names unless it looks like an argument. -/
def ofArgsOrFile (files : FileReader) (d : Directory) (args : List String) (fallback : String)
    (options : Options) : Opening :=
  match args with
  | [] => ⟨ofFile files fallback options, d, []⟩
  | [token] =>
    if Argument.isOption token then ofArgs files d args options
    else ⟨ofFile files token options, d, []⟩
  | _ => ofArgs files d args options

end Store

end ParamStore
