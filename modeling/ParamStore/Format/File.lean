import ParamStore.Format.Basic
import ParamStore.Format.Ini
import ParamStore.Format.JsonFile
import ParamStore.Format.Toml
import ParamStore.Format.Yaml

/-!
# Files of the four formats — the table that a file in a directory holds

If there is no file of the given name, the endings of the format are added to it in turn. A byte
    order mark at the front of a file is passed over. A file that does not parse, or holds no
    table at its root, has none.

* **`Format.endings`**, **`Format.parse?`** — the formats, one by one.
* **`Directory.tables`** — the reader of the files in a directory.
-/

namespace ParamStore

namespace Format

/-- The endings of a format. -/
def endings : Format → List String
  | ini => ["ini"]
  | json => ["json"]
  | toml => ["toml"]
  | yaml => ["yaml", "yml"]

/-- The table of a text in a format. -/
def parse? : Format → String → Option (List (String × Datum))
  | ini => Ini.parse?
  | json => JsonFile.parse?
  | toml => Toml.parse?
  | yaml => Yaml.parse?

end Format

/-- The path of a file with another ending added to its name. -/
def withEnding (path extra : String) : Option String :=
  match Format.fileName path with
  | none => none
  | some _ =>
    let place := Directory.placeName (Directory.start path ++ Directory.parts path)
    some (place ++ "." ++ extra)

/-- The text of a file, or of the first one that an ending added to the name finds. -/
def findFile (d : Directory) (format : Format) (path : String) : Option String :=
  match d.read? path with
  | some text => some text
  | none =>
    format.endings.findSome? fun extra => (withEnding path extra).bind d.read?

/-- A text without the byte order mark at its front. -/
def withoutMark (text : String) : String :=
  match text.toList with
  | '\ufeff' :: rest => String.ofList rest
  | _ => text

/-- The reader of the files in a directory. -/
def Directory.tables (d : Directory) : FileReader := fun format path =>
  (findFile d format path).bind fun text => format.parse? (withoutMark text)

end ParamStore
