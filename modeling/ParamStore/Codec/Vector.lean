import ParamStore.Codec.Literal

/-!
# Vectors — lists of entries in brackets

The entries of a literal are separated by semicolons outside inner brackets. One semicolon
    after the last entry only closes it, so `[a b;]` has one entry and `[;]` one empty
    entry; the writer closes a single entry and an empty last one in this way. A literal without a
    top-level semicolon is cut at blanks instead. A text without brackets is one entry, or as many
    copies of it as are requested. A requested size takes that many entries from the front.

* **`entryTokens`** — the texts of the entries.
* **`writeEntries`** — the literal of some entry texts.
* **`FixedList`** — lists whose length belongs to the type; they read as many entries as that.
-/

namespace ParamStore

namespace Literal

/-- A literal's entries before any size is requested: cut at semicolons, or at blanks if there
    is no semicolon. -/
def entriesOf (cs : List Char) : List String :=
  match cutTop (· = ';') cs with
  | [_] =>
    ((cutTop Text.isBlank cs).filter fun part => !part.isEmpty).map String.ofList
  | parts =>
    let kept :=
      match parts.getLast? with
      | some last => if (Text.trimChars last).isEmpty then parts.dropLast else parts
      | none => parts
    kept.map fun part => String.ofList (Text.trimChars part)

/-- The texts of the entries of a vector, cut to a requested size. -/
def entryTokens (raw : String) (size : Nat) : Except Error (List String) :=
  match inner raw with
  | .error e => .error e
  | .ok none =>
    let entry := Text.trim raw
    if size = 0 then .ok (if entry.isEmpty then [] else [entry])
    else .ok (List.replicate size entry)
  | .ok (some cs) =>
    let entries := entriesOf cs
    if entries.length < size then
      .error (.unreadable raw "vector"
        ("expected at least " ++ toString size ++ " entries, found " ++ toString entries.length))
    else .ok (if size = 0 then entries else entries.take size)

/-- The literal of some entry texts. A single entry and an empty last one are closed. -/
def writeEntries (entries : List String) : String :=
  let closing :=
    match entries.getLast? with
    | some last => if entries.length = 1 || last.isEmpty then ";" else ""
    | none => ""
  "[" ++ String.intercalate "; " entries ++ closing ++ "]"

end Literal

/-- Reads every text on its own; the first refusal is the answer. -/
def readAll {α : Type} [Codec α] (texts : List String) : Except Error (List α) :=
  texts.mapM fun text => Codec.read text

instance {α : Type} [Codec α] : Codec (List α) where
  typeName := .generic "alloc::vec::" "Vec" (Codec.typeName α)
  encode xs := Literal.writeEntries (xs.map Codec.encode)
  decode raw shape :=
    match Literal.entryTokens raw shape.size with
    | .error e => .error e
    | .ok texts => readAll texts

/-- A list of a given length. -/
structure FixedList (α : Type) (n : Nat) where
  toList : List α
  length_eq : toList.length = n
deriving DecidableEq

instance {α : Type} {n : Nat} [Codec α] : Codec (FixedList α n) where
  typeName := .array (Codec.typeName α) n
  encode xs := Codec.encode xs.toList
  decode raw shape :=
    let name := (TypeName.array (Codec.typeName α) n).full
    if shape.size ≠ 0 ∧ shape.size ≠ n then
      .error (.unreadable raw name
        ("requested size " ++ toString shape.size ++ " does not match fixed size " ++ toString n))
    else
      match (Codec.decode raw (.vector n) : Except Error (List α)) with
      | .error e => .error e
      | .ok entries =>
        if h : entries.length = n then .ok ⟨entries, h⟩
        else .error (.unreadable raw name ("expected " ++ toString n ++ " entries"))

end ParamStore
