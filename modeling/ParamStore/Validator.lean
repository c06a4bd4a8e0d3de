import ParamStore.Codec.Scalar
import ParamStore.Codec.Vector
import ParamStore.Codec.Matrix
import ParamStore.Text.Quoted

/-!
# Validators — which values a lookup hands out

A validator is a test on values, a diagnostic for those it turns down, and a name under which a
    request is recorded. Bounds compare by the order of the type and are shown as the
    type stores them; a choice compares by the type's own equality and is shown in detail, texts
    quoted.

* **`Ordered`**, **`Detailed`** — what a type needs for a bound and for a choice.
* **`Validator`** — the test, the diagnostic and the name.
-/

namespace ParamStore

open Number

/-- A type with an order; values may be unrelated. -/
class Ordered (α : Type) where
  lt : α → α → Bool
  le : α → α → Bool

/-- A type with an equality of its own and a detailed text. -/
class Detailed (α : Type) where
  same : α → α → Bool
  detail : α → String

instance : Ordered String := ⟨fun a b => a < b, fun a b => a ≤ b⟩
instance : Ordered Bool := ⟨fun a b => !a && b, fun a b => !a || b⟩
instance : Ordered Char := ⟨fun a b => a < b, fun a b => a ≤ b⟩
instance (k : IntKind) : Ordered (Ranged k) := ⟨fun a b => a.val < b.val, fun a b => a.val ≤ b.val⟩
instance (f : BinaryFormat) : Ordered (Binary f) := ⟨Binary.lt, Binary.le⟩

instance : Detailed String := ⟨fun a b => a == b, Text.quoted⟩
instance : Detailed Bool := ⟨fun a b => a == b, Codec.encode⟩
instance : Detailed Char := ⟨fun a b => a == b, Text.quotedChar⟩
instance (k : IntKind) : Detailed (Ranged k) := ⟨fun a b => a.val == b.val, Codec.encode⟩
instance (f : BinaryFormat) : Detailed (Binary f) := ⟨Binary.same, Binary.detailed⟩

/-- Lists are the same entry by entry. -/
def sameLists {α : Type} [Detailed α] : List α → List α → Bool
  | [], [] => true
  | a :: as, b :: bs => Detailed.same a b && sameLists as bs
  | _, _ => false

/-- The entries in detail, between brackets. -/
def detailList {α : Type} [Detailed α] (xs : List α) : String :=
  "[" ++ String.intercalate ", " (xs.map Detailed.detail) ++ "]"

instance {α : Type} [Detailed α] : Detailed (List α) := ⟨sameLists, detailList⟩

instance {α : Type} {n : Nat} [Detailed α] : Detailed (FixedList α n) :=
  ⟨fun a b => sameLists a.toList b.toList, fun a => detailList a.toList⟩

instance {α : Type} [Detailed α] : Detailed (Matrix α) where
  same a b := a.rows == b.rows && a.cols == b.cols && sameLists a.entries b.entries
  detail m :=
    "DenseMatrix \x7b rows: " ++ toString m.rows ++ ", cols: " ++ toString m.cols
      ++ ", entries: " ++ detailList m.entries ++ " \x7d"

/-- A test on values, with a name and a diagnostic. -/
structure Validator (α : Type) where
  name : String
  describe : String
  accepts : α → Bool

namespace Validator

variable {α : Type}

/-- The name of a validator over a type. -/
def nameOver (α : Type) [Codec α] (kind : String) : String :=
  kind ++ "<" ++ (Codec.typeName α).short ++ ">"

/-- Every value passes. -/
def any : Validator α := ⟨"ValidateAny", "ValidateAny: all values are valid", fun _ => true⟩

/-- No value passes. -/
def none : Validator α := ⟨"ValidateNone", "ValidateNone: no value is valid", fun _ => false⟩

/-- Values strictly below the bound. -/
def lessThan [Codec α] [Ordered α] (bound : α) : Validator α where
  name := nameOver α "LessThan"
  describe := "LessThan: value must be < " ++ Codec.encode bound
  accepts value := Ordered.lt value bound

/-- Values strictly above the bound. -/
def greaterThan [Codec α] [Ordered α] (bound : α) : Validator α where
  name := nameOver α "GreaterThan"
  describe := "GreaterThan: value must be > " ++ Codec.encode bound
  accepts value := Ordered.lt bound value

/-- Values up to the bound. -/
def atMost [Codec α] [Ordered α] (bound : α) : Validator α where
  name := nameOver α "AtMost"
  describe := "AtMost: value must be <= " ++ Codec.encode bound
  accepts value := Ordered.le value bound

/-- Values from the bound on. -/
def atLeast [Codec α] [Ordered α] (bound : α) : Validator α where
  name := nameOver α "AtLeast"
  describe := "AtLeast: value must be >= " ++ Codec.encode bound
  accepts value := Ordered.le bound value

/-- Values between two bounds, which belong to the range. -/
def inRange [Codec α] [Ordered α] (low high : α) : Validator α where
  name := nameOver α "InRange"
  describe :=
    "InRange: value must lie in [" ++ Codec.encode low ++ ", " ++ Codec.encode high ++ "]"
  accepts value := Ordered.le low value && Ordered.le value high

/-- One of some values. -/
def oneOf [Codec α] [Detailed α] (choices : List α) : Validator α where
  name := nameOver α "OneOf"
  describe := "OneOf: value must be one of " ++ detailList choices
  accepts value := choices.any fun choice => Detailed.same choice value

/-- A test under a label, which is its name too. -/
def predicate (label : String) (test : α → Bool) : Validator α where
  name := label
  describe := "Predicate: value must satisfy '" ++ label ++ "'"
  accepts := test

end Validator

end ParamStore
