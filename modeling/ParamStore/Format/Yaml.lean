import ParamStore.Format.Yaml.Layout
import ParamStore.Format.Yaml.Node

/-!
# YAML files — one document with a mapping at its root

The text is taken apart into tokens, which tell its indentation and its names, and the tokens add
    up to the value of its document. A file without a document is an empty table. A file with more
    than one is refused, and so is one whose value is no mapping.

* **`Yaml.parse?`** — a whole file.
-/

namespace ParamStore.Yaml

/-- The table of a YAML file. -/
def parse? (text : String) : Option (List (String × Datum)) :=
  match (tokens? text).bind readDocument with
  | some none => some []
  | some (some (some (.table members))) => some members
  | _ => none

end ParamStore.Yaml
