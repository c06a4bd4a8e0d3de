import ParamStore.Format.Datum
import ParamStore.Json.Parser

/-!
# JSON files — an object as a table

The root of a JSON file is an object. A name given twice counts as it was given last. An integer
    that fits 64 bits with a sign stays an integer; every other number is floating-point. Its value
    is computed in floating point: the digits are gathered into an integer of 64 bits, digits
    that no longer fit are dropped, and the result is multiplied or divided by a power of ten.
    So it can differ from the nearest number in its last digit, and a number beyond the
    range is refused. Refused are also garbled values anywhere in the file, and containers that nest
    too deep.

* **`scaleByTen`** — the floating-point step.
* **`numeralValue?`** — the datum of a numeral.
* **`nestsWithin`** — how deep a value may be.
* **`JsonFile.parse?`** — a whole file.
-/

namespace ParamStore.JsonFile

open Number

/-- The greatest integer of 64 bits. -/
def gatherLimit : Nat := Nat.pow 2 64 - 1

/-- Gathers digits as long as they fit: the integer and the digits that are left. -/
def gather : Nat → List Char → Nat × List Char
  | acc, [] => (acc, [])
  | acc, c :: cs =>
    let next := acc * 10 + (c.toNat - '0'.toNat)
    if gatherLimit < next then (acc, c :: cs) else gather next cs

/-- The power of ten that a double is nearest to. -/
def tenPower (n : Nat) : Binary .double := Binary.ofRatio false (Nat.pow 10 n) 1

/-- A number times a power of ten, one rounding for each factor. Exponents beyond 308 are taken off
    in steps; too large a result is refused. -/
def scaleByTen : Nat → Binary .double → Int → Option (Binary .double)
  | 0, x, _ => some x
  | fuel + 1, x, exponent =>
    if exponent.natAbs ≤ 308 then
      if 0 ≤ exponent then
        match x.mul (tenPower exponent.natAbs) with
        | .infinite _ => none
        | y => some y
      else some (x.div (tenPower exponent.natAbs))
    else if x.same (.zero false) then some x
    else if 0 ≤ exponent then none
    else scaleByTen fuel (x.div (tenPower 308)) (exponent + 308)

/-- A numeral in its parts. -/
structure Numeral where
  negative : Bool
  whole : List Char
  fraction : List Char
  power : List Char

/-- The parts of a numeral, which is well formed. -/
def Numeral.ofChars (cs : List Char) : Numeral :=
  let negative := cs.head? == some '-'
  let cs := if negative then cs.tail else cs
  let whole := cs.takeWhile isDigit
  let rest := cs.dropWhile isDigit
  let fraction := match rest with
    | '.' :: more => more.takeWhile isDigit
    | _ => []
  let rest := match rest with
    | '.' :: more => more.dropWhile isDigit
    | more => more
  ⟨negative, whole, fraction, rest.drop 1⟩

/-- The exponent that follows the letter e. -/
def Numeral.exponent (n : Numeral) : Int :=
  match n.power with
  | '-' :: ds => -(readDigits 0 ds : Int)
  | '+' :: ds => readDigits 0 ds
  | ds => readDigits 0 ds

/-- The floating-point value of a numeral. -/
def Numeral.real? (n : Numeral) : Option (Binary .double) :=
  let (front, dropped) := gather 0 n.whole
  let (digits, unused) := gather front n.fraction
  let places := n.fraction.length - unused.length
  let exponent := (dropped.length : Int) - places + n.exponent
  (scaleByTen 8 (Binary.ofInt digits) exponent).map fun x => if n.negative then x.neg else x

/-- The datum of a numeral. -/
def numeralValue? (numeral : String) : Option Datum :=
  let n := Numeral.ofChars numeral.toList
  let isInteger := n.fraction.isEmpty && n.power.isEmpty
  let size : Int := readDigits 0 n.whole
  let value := if n.negative then -size else size
  if isInteger && !(n.negative && size = 0) && IntKind.i64.holds value then some (.integer value)
  else n.real?.map .real

mutual

/-- Containers nest at most so deep. -/
def nestsWithin (depth : Nat) : Json → Bool
  | .array items => depth != 0 && itemsNestWithin (depth - 1) items
  | .object members => depth != 0 && membersNestWithin (depth - 1) members
  | _ => true

/-- The items of an array nest at most so deep. -/
def itemsNestWithin (depth : Nat) : List Json → Bool
  | [] => true
  | item :: items => nestsWithin depth item && itemsNestWithin depth items

/-- The members of an object nest at most so deep. -/
def membersNestWithin (depth : Nat) : List (String × Json) → Bool
  | [] => true
  | (_, item) :: members => nestsWithin depth item && membersNestWithin depth members

end

/-- How deep the containers of a file may nest. -/
def depthLimit : Nat := 127

mutual

/-- A value as a datum. -/
def datum? : Json → Option Datum
  | .null => some .nothing
  | .bool b => some (.truth b)
  | .number numeral => numeralValue? numeral
  | .string s => some (.text s)
  | .array items => (data? items).map .list
  | .object members => (members? members).map fun ms => .table (KeyMap.ofList ms)
  | .garbled _ => none

/-- The items of an array. -/
def data? : List Json → Option (List Datum)
  | [] => some []
  | item :: items => do
    let first ← datum? item
    let rest ← data? items
    some (first :: rest)

/-- The members of an object. -/
def members? : List (String × Json) → Option (List (String × Datum))
  | [] => some []
  | (name, item) :: members => do
    let first ← datum? item
    let rest ← members? members
    some ((name, first) :: rest)

end

/-- The table of a JSON file. -/
def parse? (text : String) : Option (List (String × Datum)) :=
  match Json.parse text with
  | none => none
  | some value =>
    if nestsWithin depthLimit value then
      match datum? value with
      | some (.table members) => some members
      | _ => none
    else none

end ParamStore.JsonFile
