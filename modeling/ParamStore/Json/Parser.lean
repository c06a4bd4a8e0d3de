import ParamStore.Json.Basic

/-!
# Reading JSON text

The reader takes one value with the blanks around it and refuses whatever is left over. Texts may
    hold every character but the ASCII controls; a code above the first plane is written as a
    pair of codes, and half a pair makes a value garbled.

* **`readCodes`**, **`charsOf?`** — a quoted text and its characters.
* **`readNumeral`** — a number as it is written.
* **`Json.parse`** — a whole text.
-/

namespace ParamStore.Json

open Number (isDigit hexDigit?)

/-- The four blanks of JSON. -/
def isSpace (c : Char) : Bool := c = ' ' || c = '\n' || c = '\t' || c = '\x0d'

/-- Drops leading blanks. -/
def skip (cs : List Char) : List Char := cs.dropWhile isSpace

/-- The code written by four hexadecimal digits. -/
def code? (a b c d : Char) : Option Nat := do
  let a ← hexDigit? a
  let b ← hexDigit? b
  let c ← hexDigit? c
  let d ← hexDigit? d
  some (((a * 16 + b) * 16 + c) * 16 + d)

/-- The character of an escape letter. -/
def escaped? (c : Char) : Option Char :=
  if c = '"' ∨ c = '\\' ∨ c = '/' then some c
  else if c = 'b' then some '\x08'
  else if c = 'f' then some '\x0c'
  else if c = 'n' then some '\n'
  else if c = 'r' then some '\x0d'
  else if c = 't' then some '\t'
  else none

/-- The first half of a pair of codes. -/
def isHigh (code : Nat) : Bool := 0xD800 ≤ code && code < 0xDC00

/-- The second half of a pair of codes. -/
def isLow (code : Nat) : Bool := 0xDC00 ≤ code && code < 0xE000

/-- The character of a pair of codes. -/
def joinPair (high low : Nat) : Char :=
  Char.ofNat (0x10000 + (high - 0xD800) * 0x400 + (low - 0xDC00))

/-- Reads up to the closing quote of a text: the codes, and what follows the quote. -/
def readCodes : List Char → Option (List Nat × List Char)
  | [] => none
  | '"' :: rest => some ([], rest)
  | '\\' :: 'u' :: a :: b :: c :: d :: rest =>
    match code? a b c d with
    | none => none
    | some code => (readCodes rest).map fun found => (code :: found.1, found.2)
  | '\\' :: letter :: rest =>
    match escaped? letter with
    | some c => (readCodes rest).map fun found => (c.toNat :: found.1, found.2)
    | none => none
  | c :: rest =>
    if c.toNat < 0x20 then none
    else if c = '\\' then none
    else (readCodes rest).map fun found => (c.toNat :: found.1, found.2)

/-- The characters of some codes: one for each code and for each pair, none for half a pair. -/
def charsOf? : List Nat → Option (List Char)
  | [] => some []
  | [code] => if isHigh code || isLow code then none else some [Char.ofNat code]
  | code :: next :: rest =>
    if isHigh code && isLow next then
      (charsOf? rest).map fun found => joinPair code next :: found
    else if isHigh code || isLow code then none
    else (charsOf? (next :: rest)).map fun found => Char.ofNat code :: found

/-- The text of some codes. -/
def textOf? (codes : List Nat) : Option String := (charsOf? codes).map String.ofList

/-- A run of digits and what follows it; none without a digit. -/
def readRun (cs : List Char) : Option (List Char × List Char) :=
  let ds := cs.takeWhile isDigit
  if ds.isEmpty then none else some (ds, cs.dropWhile isDigit)

/-- The whole part of a number: zero, or digits that do not begin with zero. -/
def readWhole (cs : List Char) : Option (List Char × List Char) :=
  match readRun cs with
  | some ('0' :: _ :: _, _) => none
  | found => found

/-- The point and the digits behind it, if there is a point. -/
def readFraction (cs : List Char) : Option (List Char × List Char) :=
  match cs with
  | '.' :: rest => (readRun rest).map fun found => ('.' :: found.1, found.2)
  | rest => some ([], rest)

/-- The exponent, if there is one. -/
def readPower (cs : List Char) : Option (List Char × List Char) :=
  match cs with
  | e :: rest =>
    if e = 'e' ∨ e = 'E' then
      match rest with
      | s :: more =>
        if s = '+' ∨ s = '-' then
          (readRun more).map fun found => (e :: s :: found.1, found.2)
        else (readRun rest).map fun found => (e :: found.1, found.2)
      | [] => none
    else some ([], cs)
  | [] => some ([], [])

/-- A number as it is written, and what follows it. -/
def readNumeral (cs : List Char) : Option (List Char × List Char) :=
  let signed : List Char × List Char := match cs with
    | '-' :: rest => (['-'], rest)
    | rest => ([], rest)
  match readWhole signed.2 with
  | none => none
  | some (whole, rest) =>
    match readFraction rest with
    | none => none
    | some (fraction, rest) =>
      match readPower rest with
      | none => none
      | some (power, rest) => some (signed.1 ++ whole ++ fraction ++ power, rest)

/-- A fixed word at the front. -/
def readWord (word : List Char) (value : Json) (cs : List Char) : Option (Json × List Char) :=
  if word.isPrefixOf cs then some (value, cs.drop word.length) else none

/-- A garbled value: what of a text stands before its rest. -/
def garbledBefore (rest cs : List Char) : Json :=
  garbled (String.ofList (cs.take (cs.length - rest.length)))

/-- The value of a text, written from one position up to another. -/
def ofCodes (cs rest : List Char) (codes : List Nat) : Json :=
  match textOf? codes with
  | some s => string s
  | none => garbledBefore rest cs

/-- The value of an object, written from one position up to another. -/
def ofMembers (cs rest : List Char) (members : List (Option String × Json)) : Json :=
  match members.mapM fun member => member.1.map fun name => (name, member.2) with
  | some members => object members
  | none => garbledBefore rest cs

mutual

/-- Reads a value at the front of the text, which begins with it; `fuel` bounds the number of
    steps. -/
def readValue : Nat → List Char → Option (Json × List Char)
  | 0, _ => none
  | _ + 1, [] => none
  | fuel + 1, c :: rest =>
    if c = '"' then
      (readCodes rest).map fun found => (ofCodes (c :: rest) found.2 found.1, found.2)
    else if c = '[' then
      match skip rest with
      | ']' :: more => some (array [], more)
      | inside =>
        match readValue fuel inside with
        | none => none
        | some (item, more) =>
          (readItems fuel (skip more)).map fun found => (array (item :: found.1), found.2)
    else if c = '\x7b' then
      match skip rest with
      | '\x7d' :: more => some (object [], more)
      | inside =>
        match readMember fuel inside with
        | none => none
        | some (member, more) =>
          (readMembers fuel (skip more)).map fun found =>
            (ofMembers (c :: rest) found.2 (member :: found.1), found.2)
    else if c = 'n' then readWord ['n', 'u', 'l', 'l'] null (c :: rest)
    else if c = 't' then readWord ['t', 'r', 'u', 'e'] (bool true) (c :: rest)
    else if c = 'f' then readWord ['f', 'a', 'l', 's', 'e'] (bool false) (c :: rest)
    else (readNumeral (c :: rest)).map fun found => (number (String.ofList found.1), found.2)

/-- Reads the further items of an array, up to its closing bracket. -/
def readItems : Nat → List Char → Option (List Json × List Char)
  | 0, _ => none
  | fuel + 1, cs =>
    match cs with
    | ']' :: rest => some ([], rest)
    | ',' :: rest =>
      match readValue fuel (skip rest) with
      | none => none
      | some (item, more) =>
        (readItems fuel (skip more)).map fun found => (item :: found.1, found.2)
    | _ => none

/-- Reads a name, which may be garbled, a colon and a value. -/
def readMember : Nat → List Char → Option ((Option String × Json) × List Char)
  | 0, _ => none
  | fuel + 1, cs =>
    match cs with
    | '"' :: rest =>
      match readCodes rest with
      | none => none
      | some (name, more) =>
        match skip more with
        | ':' :: more =>
          (readValue fuel (skip more)).map fun found => ((textOf? name, found.1), found.2)
        | _ => none
    | _ => none

/-- Reads the further members of an object, up to its closing brace. -/
def readMembers : Nat → List Char → Option (List (Option String × Json) × List Char)
  | 0, _ => none
  | fuel + 1, cs =>
    match cs with
    | '\x7d' :: rest => some ([], rest)
    | ',' :: rest =>
      match readMember fuel (skip rest) with
      | none => none
      | some (member, more) =>
        (readMembers fuel (skip more)).map fun found => (member :: found.1, found.2)
    | _ => none

end

/-- Reads a whole text as one value. -/
def parse (text : String) : Option Json :=
  let cs := text.toList
  match readValue (2 * cs.length + 2) (skip cs) with
  | none => none
  | some (value, rest) => if (skip rest).isEmpty then some value else none

end ParamStore.Json
