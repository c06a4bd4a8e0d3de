import ParamStore.Number.Integer

/-!
# JSON values and their indented text

A JSON value keeps what its text says: a number is its numeral, and the members of an object stand
    in the order of the text, repetitions included. What a number is worth and which of two
    members with one name counts is decided by whoever reads the value. A text can be written
    well and yet stand for no characters, because half of a pair of codes is missing; such a
    text, or an object with such a name, is garbled: nobody can read it, but a value that nobody
    asks for may be garbled without harm.

* **`Json`** — the values.
* **`Json.pretty`** — the indented text: two blanks a level, one entry a line, empty containers
  closed at once.
-/

namespace ParamStore

/-- JSON values. -/
inductive Json where
  | null
  | bool (b : Bool)
  | number (numeral : String)
  | string (s : String)
  | array (items : List Json)
  | object (members : List (String × Json))
  | garbled (written : String)
deriving Repr

namespace Json

/-- A natural number as a value. -/
def ofNat (n : Nat) : Json := number (Number.decimal n)

/-- A control character as its four hexadecimal digits. -/
def controlCode (c : Char) : List Char :=
  ['\\', 'u', '0', '0', Nat.digitChar (c.toNat / 16), Nat.digitChar (c.toNat % 16)]

/-- One character of a written text. -/
def escapeChar (c : Char) : List Char :=
  if c = '"' then ['\\', '"']
  else if c = '\\' then ['\\', '\\']
  else if c = '\x08' then ['\\', 'b']
  else if c = '\x0c' then ['\\', 'f']
  else if c = '\n' then ['\\', 'n']
  else if c = '\x0d' then ['\\', 'r']
  else if c = '\t' then ['\\', 't']
  else if c.toNat < 0x20 then controlCode c
  else [c]

/-- A text between quotes. -/
def writeText (s : String) : List Char := '"' :: s.toList.flatMap escapeChar ++ ['"']

/-- A new line at a depth. -/
def newLine (depth : Nat) : List Char := '\n' :: List.replicate (2 * depth) ' '

mutual

/-- A value inside containers of a depth. -/
def write (depth : Nat) : Json → List Char
  | null => ['n', 'u', 'l', 'l']
  | bool true => ['t', 'r', 'u', 'e']
  | bool false => ['f', 'a', 'l', 's', 'e']
  | number numeral => numeral.toList
  | string s => writeText s
  | array [] => ['[', ']']
  | array (item :: items) =>
    '[' :: newLine (depth + 1) ++ write (depth + 1) item ++ writeItems (depth + 1) items
      ++ newLine depth ++ [']']
  | object [] => ['\x7b', '\x7d']
  | object ((name, item) :: members) =>
    '\x7b' :: newLine (depth + 1) ++ writeText name ++ [':', ' '] ++ write (depth + 1) item
      ++ writeMembers (depth + 1) members ++ newLine depth ++ ['\x7d']
  | garbled written => written.toList

/-- The further items of an array. -/
def writeItems (depth : Nat) : List Json → List Char
  | [] => []
  | item :: items => ',' :: newLine depth ++ write depth item ++ writeItems depth items

/-- The further members of an object. -/
def writeMembers (depth : Nat) : List (String × Json) → List Char
  | [] => []
  | (name, item) :: members =>
    ',' :: newLine depth ++ writeText name ++ [':', ' '] ++ write depth item
      ++ writeMembers depth members

end

/-- The indented text of a value. -/
def pretty (j : Json) : String := String.ofList (write 0 j)

end Json

end ParamStore
