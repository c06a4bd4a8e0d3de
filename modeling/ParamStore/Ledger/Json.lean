import ParamStore.Json.Record
import ParamStore.Ledger.Basic

/-!
# Ledgers as JSON — an object of arrays of requests

A ledger is written as an object with its keys as names; a request is an object of its five
    fields, a missing line being null. Reading keeps the keys as they are given, even where a
    request under a key says another one, and an empty set under a key stays a key. A key
    given twice counts as it was given last.

* **`Ledger.toJson`**, **`Ledger.ofJson?`** — the two directions.
* **`Ledger.pretty`**, **`Ledger.parse?`** — the same on texts.
-/

namespace ParamStore

open Number

/-- A line number is written in digits alone. -/
def Line.ofJson? : Json → Option Line
  | .number numeral =>
    let cs := numeral.toList
    if cs.all isDigit then
      match IntKind.parse .u32 cs with
      | .ok line => some line
      | .error _ => none
    else none
  | _ => none

namespace Request

/-- The fields of a request, in order. -/
def fields : List String := ["key", "default", "file", "line", "validator"]

/-- The fields of a request by name. -/
def toJson (r : Request) : Json :=
  .object [("key", .string r.key), ("default", .string r.default), ("file", .string r.file),
    ("line", match r.line with
      | some line => .number (decimal line.val)
      | none => .null),
    ("validator", .string r.validator)]

/-- A request of five fields; only the line may be missing, and only in an object. -/
def ofJson? (j : Json) : Option Request :=
  match j.slots fields with
  | some [key, default, file, line, validator] => do
    let key ← key.required Json.asText
    let default ← default.required Json.asText
    let file ← file.required Json.asText
    let line ← line.optional Line.ofJson?
    let validator ← validator.required Json.asText
    some ⟨key, default, file, line, validator⟩
  | _ => none

end Request

namespace Ledger

/-- The sets of requests by key. -/
def toJson (l : Ledger) : Json :=
  .object (l.requests.map fun entry => (entry.1, .array (entry.2.map Request.toJson)))

/-- A set of requests from an array. -/
def setOfJson? : Json → Option (List Request)
  | .array items => (items.mapM Request.ofJson?).map (Request.union [])
  | _ => none

/-- A ledger from an object. -/
def ofJson? : Json → Option Ledger
  | .object members =>
    (members.mapM fun member => (setOfJson? member.2).map fun rs => (member.1, rs)).map
      fun entries => ⟨KeyMap.ofList entries⟩
  | _ => none

/-- The indented text. -/
def pretty (l : Ledger) : String := l.toJson.pretty

/-- Reads a text. -/
def parse? (text : String) : Option Ledger := (Json.parse text).bind ofJson?

end Ledger

end ParamStore
