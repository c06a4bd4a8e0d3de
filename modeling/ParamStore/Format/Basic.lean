import ParamStore.Directory
import ParamStore.Format.Datum

/-!
# Parameter files — a file as a tree

The ending of a file's name says which format it has; INI is the format of every ending that no
    other format claims, and of names without one. What a file of a format holds is not decided
    here: a reader of files is given, and finds the table of a file or none. A file without a table
    is refused under the name as given; what its table cannot be turned into a tree for is
    refused as any other change is.

* **`Format`** — the formats, and which one a name tells.
* **`FileReader`** — what a reader of files finds.
* **`readTree`** — the tree of a file.
-/

namespace ParamStore

/-- The formats of parameter files. -/
inductive Format where
  | ini | json | toml | yaml
deriving DecidableEq, Repr

namespace Format

/-- The name of a file without the folders before it; two dots are no name. -/
def fileName (path : String) : Option String :=
  match (Directory.parts path).getLast? with
  | some name => if name = ".." then none else some name
  | none => none

/-- What follows the last point of a name, if the point is not its first character. -/
def ending (name : String) : Option String :=
  let parts := Text.split (· = '.') name
  match parts.getLast? with
  | some last => if parts.dropLast.all (· = "") && parts.length ≤ 2 then none else some last
  | none => none

/-- The format that the name of a file tells. -/
def ofPath (path : String) : Format :=
  match (fileName path).bind ending with
  | some "toml" => toml
  | some "json" => json
  | some "yaml" => yaml
  | some "yml" => yaml
  | _ => ini

end Format

/-- What a reader of files finds in a file of a format, by the name of the file: its table, if there is
    such a file and it parses. -/
abbrev FileReader := Format → String → Option (List (String × Datum))

/-- The tree of a parameter file. -/
def readTree (files : FileReader) (path : String) : Except Error Tree :=
  match files (Format.ofPath path) path with
  | none => .error (.source path)
  | some members => Datum.toTree members

end ParamStore
