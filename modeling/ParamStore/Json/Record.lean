import ParamStore.Json.Parser

/-!
# Records in JSON — fields by name or by position

A record is read from an object or from an array. In an object a field is found by its name, names
    that are no field's are passed over with whatever value they have, even a garbled one, and
    a field given twice is refused. In an array the fields stand in their order; further items
    are refused. What a missing field means is decided by the field: it may have a default, be
    absent in an object only, or be required.

* **`Slot`** — what is found for a field: a value, or nothing by name or by position.
* **`slots`** — what is found for each field of a record.
-/

namespace ParamStore.Json

/-- What a record holds for a field. -/
inductive Slot where
  | given (value : Json)
  /-- An object without the name. -/
  | unnamed
  /-- An array that ends before the field. -/
  | beyond
deriving Repr

/-- The number of times a name is given. -/
def occurrences (members : List (String × Json)) (name : String) : Nat :=
  (members.filter fun member => member.1 == name).length

/-- The field of an object. -/
def namedSlot (members : List (String × Json)) (name : String) : Slot :=
  match members.find? fun member => member.1 == name with
  | some member => .given member.2
  | none => .unnamed

/-- What is found for each field; nothing if the value is no record of these fields. -/
def slots (fields : List String) : Json → Option (List Slot)
  | object members =>
    if fields.any fun name => 1 < occurrences members name then none
    else some (fields.map (namedSlot members))
  | array items =>
    if fields.length < items.length then none
    else
      let missing := fields.length - items.length
      some (items.map Slot.given ++ List.replicate missing .beyond)
  | _ => none

/-- A text. -/
def asText : Json → Option String
  | string s => some s
  | _ => none

/-- A truth value. -/
def asBool : Json → Option Bool
  | bool b => some b
  | _ => none

/-- A field that has to be there. -/
def Slot.required {α : Type} (readAs : Json → Option α) : Slot → Option α
  | given value => readAs value
  | _ => none

/-- A field with a default. -/
def Slot.withDefault {α : Type} (readAs : Json → Option α) (default : α) : Slot → Option α
  | given value => readAs value
  | _ => some default

/-- A field that may be null, or unnamed in an object. -/
def Slot.optional {α : Type} (readAs : Json → Option α) : Slot → Option (Option α)
  | given null => some none
  | given value => (readAs value).map some
  | unnamed => some none
  | beyond => none

end ParamStore.Json
