import ParamStore.Number.Shortest
import ParamStore.Number.Integer

/-!
# Floating-point text — reading decimals and the two ways to write them

A decimal text is a sign, digits with at most one point among them, and perhaps an exponent; the
    words inf, infinity and nan are read in any case. Its value is rounded once, to the nearest
    number of the format. Written text uses the shortest digits that read back. The plain form
    never has an exponent and shows an integer without a point; the detailed form always shows
    a point or an exponent, and takes the exponent from ten to the sixteenth on and below
    one ten-thousandth.

* **`Binary.parse`** — reads; `FloatFault` is why it may refuse.
* **`Binary.plain`**, **`Binary.detailed`** — write.
-/

namespace ParamStore.Number

/-- Why a text is no floating-point number. -/
inductive FloatFault where
  | empty
  | invalid
deriving DecidableEq, Repr

/-- The wording of a fault. -/
def FloatFault.message : FloatFault → String
  | .empty => "cannot parse float from empty string"
  | .invalid => "invalid float literal"

/-- The natural number written by digits, appended to a running one. -/
def readDigits (acc : Nat) (cs : List Char) : Nat :=
  cs.foldl (fun n c => 10 * n + (c.toNat - '0'.toNat)) acc

/-- The exponent that follows the digits: nothing, or the letter e, a sign and digits. -/
def readExponent : List Char → Option Int
  | [] => some 0
  | e :: rest =>
    if e = 'e' ∨ e = 'E' then
      let signed : Bool × List Char := match rest with
        | '-' :: ds => (true, ds)
        | '+' :: ds => (false, ds)
        | ds => (false, ds)
      if signed.2.isEmpty || !signed.2.all isDigit then none
      else
        let size : Int := readDigits 0 signed.2
        some (if signed.1 then -size else size)
    else none

/-- An unsigned decimal: digits, a point, digits, an exponent; one digit at least. -/
def readDecimal (cs : List Char) : Option Decimal :=
  let whole := cs.takeWhile isDigit
  let afterWhole := cs.dropWhile isDigit
  let split : List Char × List Char := match afterWhole with
    | '.' :: rest => (rest.takeWhile isDigit, rest.dropWhile isDigit)
    | rest => ([], rest)
  if whole.isEmpty && split.1.isEmpty then none
  else
    (readExponent split.2).map fun exponent =>
      ⟨readDigits (readDigits 0 whole) split.1, exponent - split.1.length⟩

namespace Binary

variable {f : BinaryFormat}

/-- The number nearest to a decimal. A decimal whose leading digit stands far outside the range of
    the format is decided without writing its power of ten out. -/
def ofDecimal (negative : Bool) (d : Decimal) : Binary f :=
  let magnitude : Int := (digits d.coefficient).length + d.exponent
  if d.coefficient = 0 then zero negative
  else if f.top + f.precision < magnitude then infinite negative
  else if magnitude < f.bottom - 1 then zero negative
  else
    let grid := tenTo d.exponent
    ofRatio negative (d.coefficient * grid.1) grid.2

/-- The words that name a number without digits. -/
def ofWord (negative : Bool) (cs : List Char) : Option (Binary f) :=
  let word := String.ofList (cs.map Char.toLower)
  if word = "nan" then some nan
  else if word = "inf" ∨ word = "infinity" then some (infinite negative)
  else none

/-- Reads decimal text without surrounding space. -/
def parse (cs : List Char) : Except FloatFault (Binary f) :=
  let signed : Bool × List Char := match cs with
    | '-' :: rest => (true, rest)
    | '+' :: rest => (false, rest)
    | rest => (false, rest)
  match cs with
  | [] => .error .empty
  | _ =>
    match readDecimal signed.2 with
    | some d => .ok (ofDecimal signed.1 d)
    | none =>
      match ofWord signed.1 signed.2 with
      | some x => .ok x
      | none => .error .invalid

-- ── Writing ───────────────────────────────────────────────────────────────────────

/-- The minus sign of a negative number. -/
def signText (negative : Bool) : List Char := if negative then ['-'] else []

/-- Digits with the point where the exponent puts it, and zeros up to the point. Without digits
    behind the point, `fraction` stands for them. -/
def positional (ds : List Char) (exponent : Int) (fraction : List Char) : List Char :=
  if 0 ≤ exponent then ds ++ List.replicate exponent.toNat '0' ++ fraction
  else
    let places := (-exponent).toNat
    let padded := List.replicate (places + 1 - ds.length) '0' ++ ds
    padded.take (padded.length - places) ++ '.' :: padded.drop (padded.length - places)

/-- The first digit, a point before the others if there are any, and the exponent. -/
def scientific (ds : List Char) (exponent : Int) : List Char :=
  let mantissa := match ds with
    | d :: e :: es => d :: '.' :: e :: es
    | short => short
  mantissa ++ 'e' :: (decimal (exponent + ds.length - 1)).toList

/-- Text without an exponent; an integer has no point. -/
def plain : Binary f → String
  | nan => "NaN"
  | infinite s => String.ofList (signText s ++ ['i', 'n', 'f'])
  | finite s m e =>
    if m = 0 then String.ofList (signText s ++ ['0'])
    else
      let d := shortest f m e
      String.ofList (signText s ++ positional (digits d.coefficient) d.exponent [])

/-- Text that shows a floating-point number as one: with a point or an exponent. -/
def detailed : Binary f → String
  | nan => "NaN"
  | infinite s => String.ofList (signText s ++ ['i', 'n', 'f'])
  | finite s m e =>
    if m = 0 then String.ofList (signText s ++ ['0', '.', '0'])
    else
      let d := shortest f m e
      let ds := digits d.coefficient
      let leading := d.exponent + ds.length - 1
      let body :=
        if 16 ≤ leading ∨ leading < -4 then scientific ds d.exponent
        else positional ds d.exponent ['.', '0']
      String.ofList (signText s ++ body)

end Binary

end ParamStore.Number
