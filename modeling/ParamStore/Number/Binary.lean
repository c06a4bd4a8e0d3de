/-!
# Binary floating-point numbers — exact values and one rounding

A format is a precision and a range of exponents. A finite number of a format is a sign, a
    significand and an exponent, and means significand · 2 ^ exponent; every number has one
    such form, the one whose significand fills the precision or whose exponent is the least.
    All arithmetic is exact on natural numbers and ends in one place: **`nearest`**, which rounds
    a quotient of naturals to the format, a tie going to the even significand.

* **`Binary`** — the numbers of a format, with the two infinities and one NaN.
* **`Binary.ofRatio`** — the number nearest to a quotient.
* **`Binary.lt`**, **`Binary.le`**, **`Binary.same`** — the order, in which NaN is
  unrelated to everything and the two zeros are one.
* **`Binary.bits`** — the interchange encoding.
-/

namespace ParamStore.Number

/-- A binary format: the bits of a significand, the exponents of its last bit, the bits of a
    stored number. -/
structure BinaryFormat where
  name : String
  precision : Nat
  bottom : Int
  top : Int
  width : Nat
deriving DecidableEq, Repr

namespace BinaryFormat

/-- Single precision. -/
def single : BinaryFormat := ⟨"f32", 24, -149, 104, 32⟩

/-- Double precision. -/
def double : BinaryFormat := ⟨"f64", 53, -1074, 971, 64⟩

end BinaryFormat

/-- The numbers of a format. -/
inductive Binary (f : BinaryFormat) where
  | nan
  | infinite (negative : Bool)
  | finite (negative : Bool) (significand : Nat) (exponent : Int)
deriving DecidableEq, Repr

/-- The natural number nearest to a quotient, the even one of two equally near. -/
def divNearest (num den : Nat) : Nat :=
  let floor := num / den
  let rest := num % den
  if den < 2 * rest ∨ (2 * rest = den ∧ floor % 2 = 1) then floor + 1 else floor

/-- The quotient divided by a power of two, again as a quotient. -/
def shiftRatio (num den : Nat) (exponent : Int) : Nat × Nat :=
  if 0 ≤ exponent then (num, den * Nat.pow 2 exponent.toNat)
  else (num * Nat.pow 2 (-exponent).toNat, den)

namespace Binary

variable {f : BinaryFormat}

/-- Zero of either sign. -/
def zero (negative : Bool) : Binary f := .finite negative 0 f.bottom

/-- The exponent whose unit gives the quotient as many bits as the format has, or the least
    one. The two logarithms fix the bit length of the quotient up to one. -/
def unitOf (f : BinaryFormat) (num den : Nat) : Int :=
  let guess := (num.log2 : Int) - den.log2 - f.precision
  let scaled := shiftRatio num den guess
  let fitted := if scaled.1 / scaled.2 < Nat.pow 2 f.precision then guess else guess + 1
  max fitted f.bottom

/-- A significand that rounding may have carried to the next bit length, and the range check. -/
def settle (negative : Bool) (significand : Nat) (exponent : Int) : Binary f :=
  let carried := significand = Nat.pow 2 f.precision
  let significand := if carried then Nat.pow 2 (f.precision - 1) else significand
  let exponent := if carried then exponent + 1 else exponent
  if f.top < exponent then .infinite negative else .finite negative significand exponent

/-- The number nearest to a quotient with a positive divisor, under the given sign. -/
def ofRatio (negative : Bool) (num den : Nat) : Binary f :=
  if num = 0 then zero negative
  else
    let unit := unitOf f num den
    let scaled := shiftRatio num den unit
    settle negative (divNearest scaled.1 scaled.2) unit

/-- The number nearest to an integer. -/
def ofInt (n : Int) : Binary f := ofRatio (n < 0) n.natAbs 1

/-- The same number under the other sign. -/
def neg : Binary f → Binary f
  | nan => nan
  | infinite s => infinite (!s)
  | finite s m e => finite (!s) m e

/-- Significand times power of two, as a quotient. -/
def ratio (m : Nat) (e : Int) : Nat × Nat := shiftRatio m 1 (-e)

/-- The product, rounded once. -/
def mul : Binary f → Binary f → Binary f
  | finite s m e, finite s' m' e' =>
    let a := ratio m e
    let b := ratio m' e'
    ofRatio (s != s') (a.1 * b.1) (a.2 * b.2)
  | infinite s, finite s' m' _ => if m' = 0 then nan else infinite (s != s')
  | finite s m _, infinite s' => if m = 0 then nan else infinite (s != s')
  | infinite s, infinite s' => infinite (s != s')
  | nan, _ => nan
  | _, nan => nan

/-- The quotient, rounded once. -/
def div : Binary f → Binary f → Binary f
  | finite s m e, finite s' m' e' =>
    if m' = 0 then (if m = 0 then nan else infinite (s != s'))
    else
      let a := ratio m e
      let b := ratio m' e'
      ofRatio (s != s') (a.1 * b.2) (a.2 * b.1)
  | infinite s, finite s' _ _ => infinite (s != s')
  | finite s _ _, infinite s' => zero (s != s')
  | infinite _, infinite _ => nan
  | nan, _ => nan
  | _, nan => nan

-- ── Order ─────────────────────────────────────────────────────────────────────────

/-- The finite value in units of two to the power `unit`, which is at most its exponent. -/
def inUnits (unit : Int) (negative : Bool) (m : Nat) (e : Int) : Int :=
  let size := m * Nat.pow 2 (e - unit).toNat
  if negative then -(size : Int) else size

/-- Strictly below. -/
def lt : Binary f → Binary f → Bool
  | nan, _ | _, nan => false
  | infinite s, infinite s' => s && !s'
  | infinite s, finite .. => s
  | finite .., infinite s' => !s'
  | finite s m e, finite s' m' e' =>
    let unit := min e e'
    inUnits unit s m e < inUnits unit s' m' e'

/-- The same value: the zeros of both signs are one, and NaN is not itself. -/
def same : Binary f → Binary f → Bool
  | nan, _ | _, nan => false
  | infinite s, infinite s' => s == s'
  | infinite _, finite .. | finite .., infinite _ => false
  | finite s m e, finite s' m' e' =>
    let unit := min e e'
    inUnits unit s m e == inUnits unit s' m' e'

/-- Below or the same. -/
def le (a b : Binary f) : Bool := lt a b || same a b

-- ── Encoding ──────────────────────────────────────────────────────────────────────

/-- The interchange encoding: sign bit, biased exponent, significand without its leading bit.
    NaN is given the quiet encoding without payload. -/
def bits : Binary f → Nat
  | nan => exponentMask + Nat.pow 2 (f.precision - 2)
  | infinite s => signBit s + exponentMask
  | finite s m e =>
    let hidden := Nat.pow 2 (f.precision - 1)
    if m < hidden then signBit s + m
    else signBit s + (e - f.bottom + 1).toNat * hidden + (m - hidden)
where
  signBit (s : Bool) : Nat := if s then Nat.pow 2 (f.width - 1) else 0
  exponentMask : Nat := Nat.pow 2 (f.width - 1) - Nat.pow 2 (f.precision - 1)

end Binary

end ParamStore.Number
