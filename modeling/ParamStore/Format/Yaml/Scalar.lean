import ParamStore.Format.Datum

/-!
# The meaning of plain scalars

A plain scalar is nothing, a truth value, an integer or a floating-point number if it reads as
    one, and a text otherwise. An integer may be hexadecimal or octal, and may have a plus sign
    before its own sign. A tag of the core vocabulary says what a scalar has to be; one that is
    not that has no value. Behind any other tag a scalar is a text.

Infinity and not-a-number have spellings of their own, which read as numbers and yet have no value
    in floating point: a file with one of them is refused.

* **`resolve`** — a scalar without a tag.
* **`resolveAs`** — a scalar behind a tag.
-/

namespace ParamStore.Yaml

open Number

/-- The values of a document: a scalar behind a tag that does not fit it is lost. -/
abbrev Found := Option Datum

/-- An integer of a base with an optional sign, if it fits 64 bits with a sign. -/
def ofBase? (base : Nat) (cs : List Char) : Option Datum :=
  let (negative, ds) : Bool × List Char := match cs with
    | '-' :: rest => (true, rest)
    | '+' :: rest => (false, rest)
    | rest => (false, rest)
  if ds.isEmpty then none
  else
    match ds.mapM fun c => (hexDigit? c).filter (· < base) with
    | none => none
    | some values =>
      let size : Nat := values.foldl (fun n d => base * n + d) 0
      let n : Int := if negative then -size else size
      if IntKind.i64.holds n then some (.integer n) else none

/-- A decimal integer that fits 64 bits with a sign. -/
def integer? (cs : List Char) : Option Datum :=
  match IntKind.i64.parse cs with
  | .ok n => some (.integer n.val)
  | .error _ => none

/-- An integer behind the mark of its base or behind a plus sign. -/
def marked? : List Char → Option Datum
  | '0' :: 'x' :: ds => ofBase? 16 ds
  | '0' :: 'o' :: ds => ofBase? 8 ds
  | '+' :: ds => integer? ds
  | _ => none

/-- The spellings of infinity and not-a-number that only this format has. -/
def pointWords : List String :=
  [".inf", ".Inf", ".INF", "+.inf", "+.Inf", "+.INF", "-.inf", "-.Inf", "-.INF", ".nan", ".NAN"]

/-- A floating-point number; the outer layer is none for a text that is no number, and the inner one
    for a number without a value. -/
def real? (cs : List Char) : Option (Option Datum) :=
  if String.ofList cs ∈ pointWords then some none
  else
    match (Binary.parse cs : Except FloatFault (Binary .double)) with
    | .ok x => some (some (.real x))
    | .error _ => none

/-- What a plain scalar without a tag means; none for a number without a value. -/
def resolve (word : String) : Option Datum :=
  let cs := word.toList
  if word = "~" ∨ word = "null" then some .nothing
  else if word = "true" then some (.truth true)
  else if word = "false" then some (.truth false)
  else
    match marked? cs <|> integer? cs with
    | some d => some d
    | none => (real? cs).getD (some (.text word))

/-- The vocabulary whose tags say what a scalar has to be. -/
def coreVocabulary : String := "tag:yaml.org,2002:"

/-- What a plain scalar behind a tag means; none for a number without a value. -/
def resolveAs (vocabulary tag word : String) : Option Found :=
  let cs := word.toList
  if vocabulary ≠ coreVocabulary then some (some (.text word))
  else if tag = "bool" then
    if word = "true" then some (some (.truth true))
    else if word = "false" then some (some (.truth false))
    else some none
  else if tag = "int" then some (integer? cs)
  else if tag = "float" then
    match real? cs with
    | some found => found.map some
    | none => some none
  else if tag = "null" then
    if word = "~" ∨ word = "null" then some (some .nothing) else some none
  else some (some (.text word))

end ParamStore.Yaml
