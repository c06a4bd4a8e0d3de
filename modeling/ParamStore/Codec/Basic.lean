import ParamStore.Error

/-!
# Codecs — typed values and their stored texts

A type takes part in the store when its values have a stored text and a stored text can be read
    as one of them. Reading is asked for a shape: a number of entries or rows, and a
    number of columns, zero leaving it to the text. Types without entries ignore the shape.

* **`Shape`** — what a reader asks for.
* **`TypeName`** — how a type is called in a refusal and in a validator's name.
* **`Codec`** — the two directions.
-/

namespace ParamStore

/-- A requested number of entries (or rows) and of columns; zero requests nothing. -/
structure Shape where
  size : Nat
  cols : Nat
deriving DecidableEq, Repr

namespace Shape

/-- Everything is left to the text. -/
def any : Shape := ⟨0, 0⟩

/-- A number of entries. -/
def vector (size : Nat) : Shape := ⟨size, 0⟩

/-- A number of rows and of columns. -/
def matrix (rows cols : Nat) : Shape := ⟨rows, cols⟩

end Shape

/-- The name of a type: its home and its own name, perhaps with the type of its entries; or a fixed
    number of entries of a type. -/
inductive TypeName where
  | named (home name : String)
  | generic (home name : String) (entry : TypeName)
  | array (entry : TypeName) (size : Nat)
deriving DecidableEq, Repr

namespace TypeName

/-- The name with the home of every part. -/
def full : TypeName → String
  | named home name => home ++ name
  | generic home name entry => home ++ name ++ "<" ++ entry.full ++ ">"
  | array entry size => "[" ++ entry.full ++ "; " ++ toString size ++ "]"

/-- The name without homes. -/
def short : TypeName → String
  | named _ name => name
  | generic _ name entry => name ++ "<" ++ entry.short ++ ">"
  | array entry size => "[" ++ entry.short ++ "; " ++ toString size ++ "]"

end TypeName

/-- A type whose values are stored as texts. -/
class Codec (α : Type) where
  /-- The name of the type. -/
  typeName : TypeName
  /-- The text of a value. -/
  encode : α → String
  /-- The value of a text, as far as the shape asks for it. -/
  decode : String → Shape → Except Error α

/-- Reads a text without asking for a shape. -/
def Codec.read {α : Type} [Codec α] (raw : String) : Except Error α := Codec.decode raw .any

end ParamStore
