import ParamStore.Codec.Scalar
import ParamStore.Json.Record
import ParamStore.Store.Basic

/-!
# Logging settings — where a log goes, in which form, and how much of it

The settings are a level, a form, a destination with its file, whether to use colours, and levels
    of their own for single modules. They are kept as texts: whether a text names a level, a form or
    a destination is decided when logging is set up. A store holds them under `logging`, where the
    blanks around a text do not count, and a record holds them by name; what is missing is as in
    `standard`.

* **`Settings`** — the settings.
* **`Settings.ofStore`**, **`Settings.parse?`** — read from a store and from a JSON record.
-/

namespace ParamStore.Logging

/-- What to log, how and where. -/
structure Settings where
  level : String
  format : String
  output : String
  file : String
  color : Bool
  modules : KeyMap String
deriving DecidableEq, Repr

namespace Settings

/-- The settings of a program that says nothing about them. -/
def standard : Settings := ⟨"warn", "text", "stderr", "data/log/paramtree-trace.log", true, []⟩

instance : Inhabited Settings := ⟨standard⟩

-- ── From a store ──────────────────────────────────────────────────────────────────

/-- The path under which a store holds the settings. -/
def storePath : String := "logging"

/-- A text of a tree without the blanks around it, or what stands for it. -/
def textOr (t : Tree) (key standsFor : String) : String :=
  match t.get? key with
  | some raw => Text.trim raw
  | none => standsFor

/-- The levels of single modules: every value below `modules` under its dotted key. -/
def modulesOf (t : Tree) : KeyMap String :=
  match t.findSub? "modules" with
  | some modules => KeyMap.ofList modules.flatten
  | none => []

/-- The settings of a tree; colours are refused if their text is no truth value. -/
def ofTree (t : Tree) : Except Error Settings :=
  let color : Except Error Bool :=
    match t.get? "color" with
    | some raw => Codec.read raw
    | none => .ok standard.color
  color.map fun color =>
    ⟨textOr t "level" standard.level, textOr t "format" standard.format,
      textOr t "output" standard.output, textOr t "file" standard.file, color, modulesOf t⟩

/-- The settings of a store. -/
def ofStore (s : Store) : Except Error Settings :=
  match s.tree.findSub? storePath with
  | some t => ofTree t
  | none => .ok standard

-- ── From a record ─────────────────────────────────────────────────────────────────

/-- The names of the settings, in order. -/
def fields : List String := ["level", "format", "output", "file", "color", "modules"]

/-- Texts by name; the last of several with one name counts. -/
def textsOfJson? : Json → Option (KeyMap String)
  | .object members =>
    (members.mapM fun member => (Json.asText member.2).map fun text => (member.1, text)).map
      KeyMap.ofList
  | _ => none

/-- The settings of a record. -/
def ofJson? (j : Json) : Option Settings :=
  match j.slots fields with
  | some [level, format, output, file, color, modules] => do
    let level ← level.withDefault Json.asText standard.level
    let format ← format.withDefault Json.asText standard.format
    let output ← output.withDefault Json.asText standard.output
    let file ← file.withDefault Json.asText standard.file
    let color ← color.withDefault Json.asBool standard.color
    let modules ← modules.withDefault textsOfJson? standard.modules
    some ⟨level, format, output, file, color, modules⟩
  | _ => none

/-- The settings by name. -/
def toJson (s : Settings) : Json :=
  .object [("level", .string s.level), ("format", .string s.format), ("output", .string s.output),
    ("file", .string s.file), ("color", .bool s.color),
    ("modules", .object (s.modules.map fun entry => (entry.1, .string entry.2)))]

/-- The settings of a text. -/
def parse? (text : String) : Option Settings := (Json.parse text).bind ofJson?

end Settings

end ParamStore.Logging
