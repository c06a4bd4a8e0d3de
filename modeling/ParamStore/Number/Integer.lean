/-!
# Integers of a kind — ranges, decimal text and the four ways to refuse one

An integer kind is a width, a sign rule and a name. Its values are the integers of its range,
    so a value out of range cannot be written down. Decimal text is read from the left,
    one digit at a time, and the range is checked at every step: the running value is multiplied
    by ten, then the digit is looked at, then it is added. What is wrong first decides the
    answer, with one exception: a character that is no digit is reported before the
    multiplication that it would have followed.

* **`IntKind`** — the twelve kinds, the machine word being of 64 bits.
* **`Ranged`** — the integers of a kind.
* **`IntKind.parse`** — reads decimal text; `IntFault` is why it may refuse.
* **`decimal`** — writes it.
* **`wrapped`** — what a machine word keeps of a product or of a sum.
-/

namespace ParamStore.Number

/-- The integer kinds: 8 to 128 bits and the machine word, with and without a sign. -/
inductive IntKind where
  | i8 | i16 | i32 | i64 | i128 | isize
  | u8 | u16 | u32 | u64 | u128 | usize
deriving DecidableEq, Repr

namespace IntKind

/-- The name of the kind. -/
def name : IntKind → String
  | i8 => "i8" | i16 => "i16" | i32 => "i32" | i64 => "i64" | i128 => "i128" | isize => "isize"
  | u8 => "u8" | u16 => "u16" | u32 => "u32" | u64 => "u64" | u128 => "u128" | usize => "usize"

/-- Negative numbers belong to the kind. -/
def signed : IntKind → Bool
  | i8 | i16 | i32 | i64 | i128 | isize => true
  | u8 | u16 | u32 | u64 | u128 | usize => false

/-- The width in bits. -/
def bits : IntKind → Nat
  | i8 | u8 => 8
  | i16 | u16 => 16
  | i32 | u32 => 32
  | i64 | u64 | isize | usize => 64
  | i128 | u128 => 128

/-- The least integer of the kind. -/
def least (k : IntKind) : Int := if k.signed then -(Nat.pow 2 (k.bits - 1) : Nat) else 0

/-- The greatest integer of the kind. -/
def greatest (k : IntKind) : Int :=
  if k.signed then (Nat.pow 2 (k.bits - 1) : Nat) - 1 else (Nat.pow 2 k.bits : Nat) - 1

/-- The integer lies in the range of the kind. -/
def holds (k : IntKind) (n : Int) : Prop := k.least ≤ n ∧ n ≤ k.greatest

instance (k : IntKind) (n : Int) : Decidable (k.holds n) :=
  inferInstanceAs (Decidable (k.least ≤ n ∧ n ≤ k.greatest))

/-- Zero belongs to every kind. -/
theorem holds_zero (k : IntKind) : k.holds 0 := by
  cases k <;> decide

end IntKind

/-- The integers of a kind. -/
structure Ranged (k : IntKind) where
  val : Int
  inRange : k.holds val
deriving DecidableEq

namespace Ranged

variable {k : IntKind}

/-- The integer as a value of the kind, if it is one. -/
def ofInt? (k : IntKind) (n : Int) : Option (Ranged k) :=
  if h : k.holds n then some ⟨n, h⟩ else none

/-- Two values of a kind with the same integer are the same value. -/
theorem ext_val {a b : Ranged k} (h : a.val = b.val) : a = b := by
  cases a; cases b; cases h; rfl

instance : Inhabited (Ranged k) := ⟨⟨0, k.holds_zero⟩⟩

end Ranged

/-- Why a text is no integer of a kind. -/
inductive IntFault where
  | empty
  | invalidDigit
  | tooLarge
  | tooSmall
deriving DecidableEq, Repr

/-- The wording of a fault. -/
def IntFault.message : IntFault → String
  | .empty => "cannot parse integer from empty string"
  | .invalidDigit => "invalid digit found in string"
  | .tooLarge => "number too large to fit in target type"
  | .tooSmall => "number too small to fit in target type"

/-- The value of an ASCII decimal digit. -/
def digit? (c : Char) : Option Nat :=
  if '0' ≤ c ∧ c ≤ '9' then some (c.toNat - '0'.toNat) else none

/-- An ASCII decimal digit. -/
def isDigit (c : Char) : Bool := (digit? c).isSome

/-- The value of a hexadecimal digit. -/
def hexDigit? (c : Char) : Option Nat :=
  if '0' ≤ c ∧ c ≤ '9' then some (c.toNat - '0'.toNat)
  else if 'a' ≤ c ∧ c ≤ 'f' then some (c.toNat - 'a'.toNat + 10)
  else if 'A' ≤ c ∧ c ≤ 'F' then some (c.toNat - 'A'.toNat + 10)
  else none

/-- Decimal text of a natural number, without leading zeros. -/
def digits (n : Nat) : List Char := Nat.toDigits 10 n

/-- Decimal text of an integer. -/
def decimal (n : Int) : String :=
  String.ofList (if n < 0 then '-' :: digits n.natAbs else digits n.natAbs)

namespace IntKind

/-- The kind's value for an integer that arithmetic has produced, or `fault`. -/
def check (k : IntKind) (fault : IntFault) (n : Int) : Except IntFault (Ranged k) :=
  if h : k.holds n then .ok ⟨n, h⟩ else .error fault

/-- Reads the digits that follow a running value. Each step multiplies by ten and adds `sign`
    times the digit; `fault` is what leaving the range is called. -/
def accumulate (k : IntKind) (sign : Int) (fault : IntFault) :
    Ranged k → List Char → Except IntFault (Ranged k)
  | acc, [] => .ok acc
  | acc, c :: cs =>
    match digit? c with
    | none => .error .invalidDigit
    | some d => do
      let scaled ← k.check fault (acc.val * 10)
      let next ← k.check fault (scaled.val + sign * d)
      accumulate k sign fault next cs

/-- Reads decimal text: a plus sign, or a minus sign if the kind has negative numbers, may
    precede the digits, and there is at least one digit. -/
def parse (k : IntKind) (cs : List Char) : Except IntFault (Ranged k) :=
  match cs with
  | [] => .error .empty
  | [c] => if c = '+' ∨ c = '-' then .error .invalidDigit else accumulate k 1 .tooLarge default [c]
  | c :: rest =>
    if c = '+' then accumulate k 1 .tooLarge default rest
    else if c = '-' ∧ k.signed then accumulate k (-1) .tooSmall default rest
    else accumulate k 1 .tooLarge default (c :: rest)

end IntKind

-- ── Machine words ─────────────────────────────────────────────────────────────────

/-- How many numbers a machine word without a sign has room for. -/
def capacity : Nat := Nat.pow 2 IntKind.usize.bits

/-- What a machine word keeps of a number: a number that it has no room for starts again at zero. -/
def wrapped (n : Nat) : Nat := n % capacity

theorem wrapped_of_lt {n : Nat} (h : n < capacity) : wrapped n = n := Nat.mod_eq_of_lt h

theorem wrapped_lt (n : Nat) : wrapped n < capacity := Nat.mod_lt n (by decide)

/-- A machine word keeps exactly the numbers that it has room for. -/
theorem wrapped_eq_iff {n : Nat} : wrapped n = n ↔ n < capacity :=
  ⟨fun h => h ▸ wrapped_lt n, wrapped_of_lt⟩

end ParamStore.Number
