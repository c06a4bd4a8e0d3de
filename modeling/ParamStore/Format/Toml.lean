import ParamStore.Format.Datum

/-!
# TOML files — tables, dotted keys and typed values

A file is a sequence of lines: assignments, headers of tables, headers of entries of a list of
    tables. A table can be named on the way to another one and then be given its own header once;
    a table made by dotted keys grows by dotted keys only; a table in braces and a list in
    brackets are closed. A key given twice is refused. A number too large for its range is refused
    as well, but one too far below it is negative infinity. Dates and times keep their text, with a
    single separator and without trailing zeros of a fraction. Values nest, and keys have parts,
    up to a limit.

* **`Item`**, **`Origin`** — a table under construction and how it came to be.
* **`readValue`** — the values.
* **`Toml.parse?`** — a whole file.
-/

namespace ParamStore.Toml

open Number

/-- How a table came to be: by a header of its own, on the way to another table, by a dotted
    key. -/
inductive Origin where
  | header
  | way
  | dotted
deriving DecidableEq

/-- What a name stands for while a file is read. -/
inductive Item where
  | value (d : Datum)
  | table (origin : Origin) (members : List (String × Item))
  | tables (entries : List (List (String × Item)))

/-- The members of a table. -/
abbrev Members := List (String × Item)

-- ── Blanks and keys ───────────────────────────────────────────────────────────────

/-- A blank inside a line. -/
def isBlank (c : Char) : Bool := c = ' ' || c = '\t'

/-- Drops blanks of the line. -/
def skip (cs : List Char) : List Char := cs.dropWhile isBlank

/-- A character that a comment or a literal text may hold. -/
def isText (c : Char) : Bool := c = '\t' || (0x20 ≤ c.toNat && c.toNat != 0x7F)

/-- Drops a line feed, alone or after a carriage return. -/
def newline? : List Char → Option (List Char)
  | '\n' :: rest => some rest
  | '\x0d' :: '\n' :: rest => some rest
  | _ => none

/-- Drops blanks and line ends. -/
def skipBlankLines : List Char → List Char
  | '\x0d' :: '\n' :: rest => skipBlankLines rest
  | c :: rest => if isBlank c || c = '\n' then skipBlankLines rest else c :: rest
  | [] => []

/-- Drops a comment up to the end of its line. -/
def skipComment : List Char → List Char
  | '#' :: rest => rest.dropWhile isText
  | cs => cs

/-- Drops blanks, comments and line ends; each step takes a comment or a line end. -/
def skipLines : Nat → List Char → List Char
  | 0, cs => cs
  | fuel + 1, cs =>
    let cs := skipComment (skip cs)
    match newline? cs with
    | some rest => skipLines fuel rest
    | none => cs

/-- The end of a line, with a comment before it. -/
def endOfLine (cs : List Char) : Option (List Char) :=
  match skipComment (skip cs) with
  | [] => some []
  | rest => newline? rest

/-- A character of a key without quotes. -/
def isBare (c : Char) : Bool := c.isAlphanum || c = '_' || c = '-'

/-- The character of hexadecimal digits. -/
def ofDigits? (ds : List Char) : Option Char :=
  match ds.mapM hexDigit? with
  | none => none
  | some values =>
    let code := values.foldl (fun n d => 16 * n + d) 0
    if h : code.isValidChar then some (Char.ofNatAux code h) else none

/-- The character of an escape letter. -/
def escaped? (c : Char) : Option Char :=
  if c = '"' ∨ c = '\\' then some c
  else if c = 'b' then some '\x08'
  else if c = 't' then some '\t'
  else if c = 'n' then some '\n'
  else if c = 'f' then some '\x0c'
  else if c = 'r' then some '\x0d'
  else none

/-- Reads an escape behind its backslash. -/
def readEscape : List Char → Option (Char × List Char)
  | 'u' :: a :: b :: c :: d :: rest => (ofDigits? [a, b, c, d]).map fun ch => (ch, rest)
  | 'U' :: a :: b :: c :: d :: e :: f :: g :: h :: rest =>
    (ofDigits? [a, b, c, d, e, f, g, h]).map fun ch => (ch, rest)
  | letter :: rest => (escaped? letter).map fun ch => (ch, rest)
  | [] => none

/-- Reads a text up to its double quote. -/
def readBasic : Nat → List Char → Option (List Char × List Char)
  | 0, _ => none
  | fuel + 1, cs =>
    match cs with
    | [] => none
    | '"' :: rest => some ([], rest)
    | '\\' :: rest =>
      match readEscape rest with
      | none => none
      | some (c, rest) => (readBasic fuel rest).map fun found => (c :: found.1, found.2)
    | c :: rest =>
      if isText c then (readBasic fuel rest).map fun found => (c :: found.1, found.2) else none

/-- Reads a literal text up to its single quote. -/
def readLiteral : List Char → Option (List Char × List Char)
  | [] => none
  | c :: rest =>
    if c = '\x27' then some ([], rest)
    else if isText c then (readLiteral rest).map fun found => (c :: found.1, found.2)
    else none

/-- The number of quotes at the front, five at most. -/
def countQuotes (quote : Char) (cs : List Char) : Nat :=
  ((cs.take 5).takeWhile (· = quote)).length

/-- Reads a text of several lines up to its three quotes; up to two more quotes belong to the
    text. -/
def readLong (quote : Char) (escapes : Bool) : Nat → List Char → Option (List Char × List Char)
  | 0, _ => none
  | fuel + 1, cs =>
    match cs with
    | [] => none
    | c :: rest =>
      let count := countQuotes quote cs
      if 3 ≤ count then some (List.replicate (count - 3) quote, cs.drop count)
      else if c = '\\' && escapes then
        match newline? (skip rest) with
        | some more => readLong quote escapes fuel (skipBlankLines more)
        | none =>
          match readEscape rest with
          | none => none
          | some (ch, more) =>
            (readLong quote escapes fuel more).map fun found => (ch :: found.1, found.2)
      else
        match newline? cs with
        | some more =>
          (readLong quote escapes fuel more).map fun found => ('\n' :: found.1, found.2)
        | none =>
          if isText c then
            (readLong quote escapes fuel rest).map fun found => (c :: found.1, found.2)
          else none

/-- Reads any text behind its first quote. -/
def readString (quote : Char) (rest : List Char) : Option (List Char × List Char) :=
  let escapes := quote = '"'
  let fuel := rest.length + 1
  match rest with
  | a :: b :: more =>
    if a = quote ∧ b = quote then
      readLong quote escapes fuel ((newline? more).getD more)
    else if escapes then readBasic fuel rest else readLiteral rest
  | _ => if escapes then readBasic fuel rest else readLiteral rest

/-- Reads one part of a key. -/
def readPart (cs : List Char) : Option (String × List Char) :=
  match cs with
  | '"' :: rest =>
    (readBasic (rest.length + 1) rest).map fun found => (String.ofList found.1, found.2)
  | c :: rest =>
    if c = '\x27' then (readLiteral rest).map fun found => (String.ofList found.1, found.2)
    else
      let bare := cs.takeWhile isBare
      if bare.isEmpty then none else some (String.ofList bare, cs.dropWhile isBare)
  | [] => none

/-- Reads the parts of a dotted key: those before the last one, and the last one. -/
def readParts : Nat → List Char → Option ((List String × String) × List Char)
  | 0, _ => none
  | fuel + 1, cs =>
    match readPart cs with
    | none => none
    | some (part, rest) =>
      match skip rest with
      | '.' :: more =>
        (readParts fuel (skip more)).map fun found =>
          ((part :: found.1.1, found.1.2), found.2)
      | _ => some (([], part), rest)

/-- How deep values may nest, and how many parts a key may have. -/
def depthLimit : Nat := 79

/-- Reads a dotted key of a permitted length. -/
def readKey (cs : List Char) : Option ((List String × String) × List Char) :=
  (readParts (cs.length + 1) cs).filter fun found => found.1.1.length < depthLimit

-- ── Numbers, dates and words ──────────────────────────────────────────────────────

/-- A character that a number, a date or a word consists of. -/
def isPlain (c : Char) : Bool := c.isAlphanum || c = '_' || c = '-' || c = '+' || c = '.' || c = ':'

/-- Digits with single underscores between them. -/
def digitRun (isDigit : Char → Bool) (cs : List Char) : Option (List Char) :=
  let parts := Text.pieces (· = '_') cs
  if parts.all fun part => !part.isEmpty && part.all isDigit then some parts.flatten else none

/-- The integer of digits of a base, if it fits 64 bits with a sign. -/
def ofBase (base : Nat) (ds : List Char) : Option Datum :=
  match ds.mapM hexDigit? with
  | none => none
  | some values =>
    let n := values.foldl (fun n d => base * n + d) 0
    if IntKind.i64.holds n then some (.integer n) else none

/-- An integer with a base. -/
def basedInteger? : List Char → Option Datum
  | '0' :: 'x' :: ds => (digitRun (fun c => (hexDigit? c).isSome) ds).bind (ofBase 16)
  | '0' :: 'o' :: ds => (digitRun (fun c => '0' ≤ c && c ≤ '7') ds).bind (ofBase 8)
  | '0' :: 'b' :: ds => (digitRun (fun c => c = '0' || c = '1') ds).bind (ofBase 2)
  | _ => none

/-- The sign and what follows it. -/
def unsign : List Char → Bool × List Char
  | '-' :: rest => (true, rest)
  | '+' :: rest => (false, rest)
  | rest => (false, rest)

/-- A decimal whole part: digits that begin with zero only if there is one of them. -/
def wholePart? (cs : List Char) : Option (List Char) :=
  match digitRun isDigit cs with
  | some ('0' :: _ :: _) => none
  | found => found

/-- A decimal integer. -/
def integer? (cs : List Char) : Option Datum :=
  let (negative, ds) := unsign cs
  match wholePart? ds with
  | none => none
  | some ds =>
    let size : Int := readDigits 0 ds
    let n := if negative then -size else size
    if IntKind.i64.holds n then some (.integer n) else none

/-- A number with a point or an exponent, or one of the two words. -/
def real? (cs : List Char) : Option Datum :=
  let (negative, body) := unsign cs
  if body = ['i', 'n', 'f'] then some (.real (.infinite negative))
  else if body = ['n', 'a', 'n'] then some (.real .nan)
  else
    let whole := body.takeWhile fun c => isDigit c || c = '_'
    let rest := body.drop whole.length
    let fraction := match rest with
      | '.' :: more => '.' :: more.takeWhile fun c => isDigit c || c = '_'
      | _ => []
    let power := rest.drop fraction.length
    let powerOk := match power with
      | [] => !fraction.isEmpty
      | e :: more => (e = 'e' || e = 'E') && (digitRun isDigit (unsign more).2).isSome
    let fractionOk := match fraction with
      | [] => true
      | _ :: ds => (digitRun isDigit ds).isSome
    if (wholePart? whole).isSome && fractionOk && powerOk then
      match (Binary.parse (cs.filter (· ≠ '_')) : Except FloatFault (Binary .double)) with
      | .ok (.infinite false) => none
      | .ok x => some (.real x)
      | .error _ => none
    else none

/-- A run of exactly so many digits, as a number. -/
def fixedDigits (count : Nat) (cs : List Char) : Option (Nat × List Char) :=
  let ds := cs.take count
  if ds.length = count && ds.all isDigit then some (readDigits 0 ds, cs.drop count) else none

/-- The number of days of a month. -/
def daysIn (year month : Nat) : Nat :=
  if month = 2 then (if year % 4 = 0 ∧ (year % 100 ≠ 0 ∨ year % 400 = 0) then 29 else 28)
  else if month ∈ [4, 6, 9, 11] then 30
  else 31

/-- Reads a date, which is kept as it is. -/
def readDate (cs : List Char) : Option (List Char × List Char) := do
  let (year, rest) ← fixedDigits 4 cs
  let '-' :: rest := rest | none
  let (month, rest) ← fixedDigits 2 rest
  let '-' :: rest := rest | none
  let (day, rest) ← fixedDigits 2 rest
  if 1 ≤ month ∧ month ≤ 12 ∧ 1 ≤ day ∧ day ≤ daysIn year month then
    some (cs.take 10, rest)
  else none

/-- A fraction of a second without trailing zeros, nine digits at most. -/
def shortFraction (ds : List Char) : List Char :=
  let kept := ((ds.take 9).reverse.dropWhile (· = '0')).reverse
  if kept.isEmpty then [] else '.' :: kept

/-- Reads a time of the day. -/
def readTime (cs : List Char) : Option (List Char × List Char) := do
  let (hour, rest) ← fixedDigits 2 cs
  let ':' :: rest := rest | none
  let (minute, rest) ← fixedDigits 2 rest
  let ':' :: rest := rest | none
  let (second, rest) ← fixedDigits 2 rest
  if hour ≤ 23 ∧ minute ≤ 59 ∧ second ≤ 60 then
    match rest with
    | '.' :: more =>
      let ds := more.takeWhile isDigit
      if ds.isEmpty then none
      else some (cs.take 8 ++ shortFraction ds, more.dropWhile isDigit)
    | rest => some (cs.take 8, rest)
  else none

/-- Reads a distance from universal time, which may be missing; no distance is positive. -/
def readOffset (cs : List Char) : Option (List Char × List Char) :=
  match cs with
  | c :: rest =>
    if c = 'Z' ∨ c = 'z' then some (['Z'], rest)
    else if c = '+' ∨ c = '-' then do
      let (hour, more) ← fixedDigits 2 rest
      let ':' :: more := more | none
      let (minute, more) ← fixedDigits 2 more
      let sign := if hour = 0 ∧ minute = 0 then '+' else c
      if hour ≤ 23 ∧ minute ≤ 59 then some (sign :: rest.take 5, more) else none
    else some ([], cs)
  | [] => some ([], [])

/-- Reads a date, a time, or both with or without an offset. -/
def readMoment (cs : List Char) : Option (Datum × List Char) :=
  match readDate cs with
  | some (date, rest) =>
    let timed := match rest with
      | sep :: more => if sep = 'T' ∨ sep = 't' ∨ sep = ' ' then readTime more else none
      | [] => none
    match timed with
    | some (time, more) =>
      (readOffset more).map fun found =>
        (.text (String.ofList (date ++ 'T' :: time ++ found.1)), found.2)
    | none => some (.text (String.ofList date), rest)
  | none =>
    (readTime cs).map fun found => (.text (String.ofList found.1), found.2)

/-- Reads a number, a date or a truth value. -/
def readPlain (cs : List Char) : Option (Datum × List Char) :=
  match readMoment cs with
  | some found =>
    if (found.2.takeWhile isPlain).isEmpty then some found else none
  | none =>
    let word := cs.takeWhile isPlain
    let rest := cs.dropWhile isPlain
    if word = ['t', 'r', 'u', 'e'] then some (.truth true, rest)
    else if word = ['f', 'a', 'l', 's', 'e'] then some (.truth false, rest)
    else
      match basedInteger? word with
      | some d => some (d, rest)
      | none =>
        match integer? word with
        | some d => some (d, rest)
        | none => (real? word).map fun d => (d, rest)

-- ── Tables under construction ─────────────────────────────────────────────────────

mutual

/-- The finished datum of an item. -/
def Item.finish : Item → Datum
  | .value d => d
  | .table _ members => .table (finishMembers members)
  | .tables entries => .list (finishEntries entries)

/-- The finished members of a table. -/
def finishMembers : List (String × Item) → List (String × Datum)
  | [] => []
  | (name, item) :: rest => (name, item.finish) :: finishMembers rest

/-- The finished entries of a list of tables. -/
def finishEntries : List (List (String × Item)) → List Datum
  | [] => []
  | entry :: rest => .table (finishMembers entry) :: finishEntries rest

end

/-- The item of a name. -/
def lookup (name : String) (members : Members) : Option Item :=
  (members.find? fun member => member.1 == name).map Prod.snd

/-- Replaces the item of a name, or adds it at the end. -/
def replace (name : String) (item : Item) : Members → Members
  | [] => [(name, item)]
  | (other, old) :: rest =>
    if other = name then (name, item) :: rest else (other, old) :: replace name item rest

/-- Changes the last of some entries. -/
def changeLast (change : Members → Option Members) : List Members → Option (List Members)
  | [] => none
  | [entry] => (change entry).map fun entry => [entry]
  | entry :: rest => (changeLast change rest).map fun rest => entry :: rest

/-- Changes the table at the end of a way of headers: missing tables are made on the way, and in a
    list of tables the way leads through the last one. -/
def changeAt (change : Members → Option Members) : List String → Members → Option Members
  | [], members => change members
  | name :: rest, members =>
    match lookup name members with
    | none => (changeAt change rest []).map fun made => replace name (.table .way made) members
    | some (.table origin inner) =>
      (changeAt change rest inner).map fun made => replace name (.table origin made) members
    | some (.tables entries) =>
      (changeLast (changeAt change rest) entries).map fun made =>
        replace name (.tables made) members
    | some (.value _) => none

/-- Gives a table its header: it is new, or was only on the way to another one. -/
def openTable (name : String) (members : Members) : Option Members :=
  match lookup name members with
  | none => some (replace name (.table .header []) members)
  | some (.table .way inner) => some (replace name (.table .header inner) members)
  | some _ => none

/-- Starts a new entry of a list of tables. -/
def openEntry (name : String) (members : Members) : Option Members :=
  match lookup name members with
  | none => some (replace name (.tables [[]]) members)
  | some (.tables entries) => some (replace name (.tables (entries ++ [[]])) members)
  | some _ => none

/-- Adds a value under a name that is not there yet. -/
def addValue (name : String) (d : Datum) (members : Members) : Option Members :=
  match lookup name members with
  | none => some (replace name (.value d) members)
  | some _ => none

/-- Adds a value below a way of dotted names. The tables on the way were not given by headers of
    their own, and the table that takes the value is one of dotted names. -/
def addDotted (name : String) (d : Datum) : List String → Members → Option Members
  | [], members => addValue name d members
  | part :: rest, members =>
    match lookup part members with
    | none =>
      (addDotted name d rest []).map fun made => replace part (.table .dotted made) members
    | some (.table origin inner) =>
      if origin = .header || (rest.isEmpty && origin != .dotted) then none
      else (addDotted name d rest inner).map fun made => replace part (.table origin made) members
    | some (.tables entries) =>
      if rest.isEmpty then none
      else
        (changeLast (addDotted name d rest) entries).map fun made =>
          replace part (.tables made) members
    | some (.value _) => none

-- ── Values ────────────────────────────────────────────────────────────────────────

mutual

/-- Reads a value; `room` is how many more levels of lists and tables may open, and `fuel` bounds
    the number of steps. -/
def readValue : Nat → Nat → List Char → Option (Datum × List Char)
  | 0, _, _ => none
  | _ + 1, _, [] => none
  | fuel + 1, room, c :: rest =>
    if c = '"' ∨ c = '\x27' then
      (readString c rest).map fun found => (.text (String.ofList found.1), found.2)
    else if c = '[' then
      if room = 0 then none
      else (readItems fuel (room - 1) rest).map fun found => (.list found.1, found.2)
    else if c = '\x7b' then
      if room = 0 then none
      else
        match skip rest with
        | '\x7d' :: more => some (.table [], more)
        | inside =>
          (readMembers fuel (room - 1) inside []).map fun found =>
            (.table (finishMembers found.1), found.2)
    else readPlain (c :: rest)

/-- Reads the items of a list, up to its bracket. -/
def readItems : Nat → Nat → List Char → Option (List Datum × List Char)
  | 0, _, _ => none
  | fuel + 1, room, cs =>
    match skipLines (cs.length + 1) cs with
    | ']' :: rest => some ([], rest)
    | inside =>
      match readValue fuel room inside with
      | none => none
      | some (item, rest) =>
        match skipLines (rest.length + 1) rest with
        | ',' :: more =>
          (readItems fuel room more).map fun found => (item :: found.1, found.2)
        | ']' :: more => some ([item], more)
        | _ => none

/-- Reads the members of a table in braces, up to its brace. -/
def readMembers : Nat → Nat → List Char → Members → Option (Members × List Char)
  | 0, _, _, _ => none
  | fuel + 1, room, cs, members =>
    match readKey (skip cs) with
    | none => none
    | some ((way, name), rest) =>
      match skip rest with
      | '=' :: more =>
        match readValue fuel room (skip more) with
        | none => none
        | some (d, rest) =>
          match addDotted name d way members with
          | none => none
          | some members =>
            match skip rest with
            | ',' :: more => readMembers fuel room more members
            | '\x7d' :: more => some (members, more)
            | _ => none
      | _ => none

end

-- ── Lines ─────────────────────────────────────────────────────────────────────────

/-- Reads a header behind its brackets, up to the closing ones and the end of the line. -/
def readHeader (closing : List Char) (cs : List Char) :
    Option ((List String × String) × List Char) :=
  match readKey (skip cs) with
  | none => none
  | some (key, rest) =>
    let rest := skip rest
    if closing.isPrefixOf rest then
      (endOfLine (rest.drop closing.length)).map fun rest => (key, rest)
    else none

/-- Reads the lines of a file; `current` is the way to the table that assignments go to. -/
def readLines : Nat → List String → Members → List Char → Option Members
  | 0, _, _, _ => none
  | fuel + 1, current, root, cs =>
    match skipLines (cs.length + 1) cs with
    | [] => some root
    | '[' :: '[' :: rest =>
      match readHeader [']', ']'] rest with
      | none => none
      | some ((way, name), rest) =>
        match changeAt (openEntry name) way root with
        | none => none
        | some root => readLines fuel (way ++ [name]) root rest
    | '[' :: rest =>
      match readHeader [']'] rest with
      | none => none
      | some ((way, name), rest) =>
        match changeAt (openTable name) way root with
        | none => none
        | some root => readLines fuel (way ++ [name]) root rest
    | line =>
      match readKey line with
      | none => none
      | some ((way, name), rest) =>
        match skip rest with
        | '=' :: more =>
          match readValue (more.length + 1) depthLimit (skip more) with
          | none => none
          | some (d, rest) =>
            match endOfLine rest, changeAt (addDotted name d way) current root with
            | some rest, some root => readLines fuel current root rest
            | _, _ => none
        | _ => none

/-- The table of a TOML file. -/
def parse? (text : String) : Option (List (String × Datum)) :=
  let cs := text.toList
  (readLines (cs.length + 1) [] [] cs).map finishMembers

end ParamStore.Toml
