import ParamStore.Format.Datum

/-!
# INI files — keys and values in sections

A file is a sequence of comments, section headers and assignments, with blanks between them. A
    comment begins with a semicolon or a number sign at the start of a line and ends with the
    line. A header is a name in brackets. An assignment is a key, an equals sign or a colon,
    and a value up to the end of the line. A value may begin with a part in quotes, which may
    contain line ends. A backslash escapes the next character, some letters standing for controls;
    before a line feed it continues the line. Blanks around keys, names and values are dropped last,
    so that neither quotes nor escapes protect them. All values are texts.

A key given twice counts as it was given last. A section given twice consists of what its last
    header is followed by, and takes the place of a key of its name.

* **`Entry`** — headers and assignments.
* **`Ini.parse?`** — a whole file.
-/

namespace ParamStore.Ini

open Number (hexDigit?)

/-- What a file consists of, comments aside. -/
inductive Entry where
  | header (name : String)
  | assignment (key value : String)

/-- The control that a letter after a backslash stands for; other characters stand for
    themselves. -/
def control (c : Char) : List Char :=
  if c = '0' then ['\x00']
  else if c = 'a' then ['\x07']
  else if c = 'b' then ['\x08']
  else if c = 't' then ['\t']
  else if c = 'r' then ['\x0d']
  else if c = 'n' then ['\n']
  else if c = '\n' then []
  else [c]

/-- The character of a code in four places: hexadecimal digits, the first of which may be a plus
    sign instead. -/
def ofCode? (places : List Char) : Option Char :=
  let ds := match places with
    | '+' :: ds => ds
    | ds => ds
  match ds.mapM hexDigit? with
  | none => none
  | some values =>
    let code := values.foldl (fun n d => 16 * n + d) 0
    if 0xD800 ≤ code ∧ code < 0xE000 then none else some (Char.ofNat code)

/-- Reads up to a character that ends the text, which is not consumed and is no backslash. The end
    of the file ends it only where that is allowed. -/
def readUntil (ends : Char → Bool) (openEnd : Bool) : List Char → Option (List Char × List Char)
  | [] => if openEnd then some ([], []) else none
  | '\\' :: 'x' :: a :: b :: c :: d :: rest =>
    match ofCode? [a, b, c, d] with
    | none => none
    | some code => (readUntil ends openEnd rest).map fun found => (code :: found.1, found.2)
  | '\\' :: c :: rest =>
    if c = 'x' then none
    else (readUntil ends openEnd rest).map fun found => (control c ++ found.1, found.2)
  | c :: rest =>
    if ends c then some ([], c :: rest)
    else if c = '\\' then none
    else (readUntil ends openEnd rest).map fun found => (c :: found.1, found.2)

/-- The end of a line. -/
def endsLine (c : Char) : Bool := c = '\n' || c = '\x0d'

/-- The text between quotes and what follows on the line. -/
def readQuoted (quote : Char) (cs : List Char) : Option (List Char × List Char) :=
  match readUntil (· = quote) false cs with
  | none => none
  | some (inside, rest) =>
    (readUntil endsLine true (rest.drop 1)).map fun found => (inside ++ found.1, found.2)

/-- The value behind a separator, without the blanks around it. -/
def readValue (cs : List Char) : Option (List Char × List Char) :=
  let cs := cs.dropWhile fun c => !endsLine c && Text.isBlank c
  let found := match cs with
    | [] => some ([], [])
    | c :: rest =>
      if c = '"' ∨ c = '\x27' then readQuoted c rest else readUntil endsLine true cs
  found.map fun found => (Text.trimChars found.1, found.2)

/-- Whether a position is the first one of its line, given what precedes it. -/
def atLineStart : Option Char → Bool
  | none => true
  | some c => c = '\n'

/-- The last character of a run that has been passed over, or the one before it. -/
def lastOf (before : Option Char) (passed : List Char) : Option Char :=
  match passed.getLast? with
  | some c => some c
  | none => before

/-- Reads the entries of a file; `before` is the character in front of the position, and `fuel`
    bounds the number of steps. -/
def readEntries : Nat → Option Char → List Char → Option (List Entry)
  | 0, _, _ => none
  | fuel + 1, before, cs =>
    let before := lastOf before (cs.takeWhile Text.isBlank)
    match cs.dropWhile Text.isBlank with
    | [] => some []
    | c :: rest =>
      if c = ';' ∨ c = '#' then
        if atLineStart before then
          readEntries fuel (some '\n') ((rest.dropWhile (· ≠ '\n')).drop 1)
        else none
      else if c = '[' then
        match readUntil (· = ']') false rest with
        | none => none
        | some (name, after) =>
          (readEntries fuel (some ']') (after.drop 1)).map fun entries =>
            .header (Text.trim (String.ofList name)) :: entries
      else
        match readUntil (fun c => c = '=' || c = ':') false (c :: rest) with
        | none => none
        | some (key, after) =>
          let key := Text.trim (String.ofList key)
          if key.isEmpty then none
          else
            match readValue (after.drop 1) with
            | none => none
            | some (value, after) =>
              (readEntries fuel (some ' ') after).map fun entries =>
                .assignment key (String.ofList value) :: entries

/-- The assignments up to the next header, and the rest. -/
def spanSection : List Entry → List (String × Datum) × List Entry
  | .assignment key value :: rest =>
    let more := spanSection rest
    ((key, .text value) :: more.1, more.2)
  | rest => ([], rest)

/-- The sections in order, each with its assignments. -/
def sections : List Entry → List (String × Datum)
  | [] => []
  | .header name :: rest => (name, .table (KeyMap.ofList (spanSection rest).1)) :: sections rest
  | .assignment .. :: rest => sections rest

/-- The table of an INI file. -/
def parse? (text : String) : Option (List (String × Datum)) :=
  let cs := text.toList
  (readEntries (cs.length + 1) none cs).map fun entries =>
    KeyMap.ofList ((spanSection entries).1 ++ sections entries)

end ParamStore.Ini
