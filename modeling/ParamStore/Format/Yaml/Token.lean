import ParamStore.Format.Yaml.Cursor
import ParamStore.Number.Integer

/-!
# Tokens of a YAML text — and the ones that are words behind a sign

A text consists of scalars, of what is said about them, and of marks for documents, blocks and
    brackets. Anchors and aliases are names behind a sign. A tag is a handle and a suffix, or a
    whole name in angle brackets; codes of two digits behind a percent sign stand for the
    bytes of a character. A directive stands on a line of its own.

* **`Token`** — the tokens.
* **`readAnchor`**, **`readTag`**, **`readDirective`** — the words behind a sign.
-/

namespace ParamStore.Yaml

open Number (hexDigit?)

/-- The tokens of a text. -/
inductive Token where
  /-- A directive on the version. -/
  | version
  /-- A directive that gives a handle of tags its meaning. -/
  | handle (name meaning : String)
  | documentStart
  | documentEnd
  /-- The start of a list or a mapping of indented entries. -/
  | listStart
  | mappingStart
  | blockEnd
  | bracketOpen
  | bracketClose
  | braceOpen
  | braceClose
  | comma
  /-- The dash before an entry of a list. -/
  | dash
  /-- A name follows, or a value. -/
  | key
  | value
  | anchor (name : String)
  | reference (name : String)
  | tag (handle suffix : String)
  | scalar (plain : Bool) (text : String)
deriving DecidableEq, Repr

-- ── Anchors ───────────────────────────────────────────────────────────────────────

/-- A character of an anchor. -/
def isAnchor (c : Char) : Bool := !isGap c && !isFlow c && c != '\ufeff'

/-- Reads the name behind the sign of an anchor or alias. -/
def readAnchor (start : Cursor) : Option (String × Cursor) :=
  let name := (start.rest.drop 1).takeWhile isAnchor
  if name.isEmpty then none else some (String.ofList name, start.skip (name.length + 1))

-- ── Tags ──────────────────────────────────────────────────────────────────────────

/-- A character of a name of a tag. -/
def isUri (c : Char) : Bool :=
  c.isAlphanum || c = '-'
    || ['#', ';', '/', '?', ':', '@', '&', '=', '+', '$', ',', '_', '.', '!', '~', '*', '\x27',
        '(', ')', '[', ']', '%'].contains c

/-- A character of a tag behind its handle. -/
def isTag (c : Char) : Bool := isUri c && !isFlow c && c != '!'

/-- The byte that two digits behind a percent sign stand for. -/
def takeByte : List Char → Option (Nat × List Char)
  | '%' :: a :: b :: rest => do
    let a ← hexDigit? a
    let b ← hexDigit? b
    some (16 * a + b, rest)
  | _ => none

/-- The number of bytes of a character with this first one. -/
def bytesOf? (first : Nat) : Option Nat :=
  if first < 0x80 then some 1
  else if 0xC0 ≤ first ∧ first < 0xE0 then some 2
  else if 0xE0 ≤ first ∧ first < 0xF0 then some 3
  else if 0xF0 ≤ first ∧ first < 0xF8 then some 4
  else none

/-- Takes further bytes of a character; the bytes are read as one number. -/
def takeBytes : Nat → Nat → List Char → Option (Nat × List Char)
  | 0, code, cs => some (code, cs)
  | n + 1, code, cs =>
    match takeByte cs with
    | none => none
    | some (byte, rest) =>
      if 0x80 ≤ byte ∧ byte < 0xC0 then takeBytes n (256 * code + byte) rest else none

/-- The character that codes of bytes stand for. -/
def takeCode (cs : List Char) : Option (Char × List Char) :=
  match takeByte cs with
  | none => none
  | some (first, rest) =>
    match bytesOf? first with
    | none => none
    | some count =>
      match takeBytes (count - 1) first rest with
      | none => none
      | some (code, rest) =>
        if h : code.isValidChar then some (Char.ofNatAux code h, rest) else none

/-- Takes the characters of a class, codes standing for the characters that they mean. -/
def takeUri (isMember : Char → Bool) : Nat → List Char → Option (List Char × List Char)
  | 0, cs => some ([], cs)
  | _ + 1, [] => some ([], [])
  | fuel + 1, c :: rest =>
    if !isMember c then some ([], c :: rest)
    else if c = '%' then
      match takeCode (c :: rest) with
      | none => none
      | some (ch, rest) =>
        (takeUri isMember fuel rest).map fun found => (ch :: found.1, found.2)
    else (takeUri isMember fuel rest).map fun found => (c :: found.1, found.2)

/-- Takes a handle: an exclamation mark, a word, and perhaps another mark. -/
def takeHandle : List Char → Option (List Char × List Char)
  | '!' :: rest =>
    let word := rest.takeWhile isWord
    match rest.dropWhile isWord with
    | '!' :: rest => some ('!' :: word ++ ['!'], rest)
    | rest => some ('!' :: word, rest)
  | _ => none

/-- A handle that another exclamation mark closes. -/
def isClosed (handle : List Char) : Bool := 2 ≤ handle.length && handle.getLast? == some '!'

/-- The handle and the suffix of a tag, and what follows it. -/
def takeTag (cs : List Char) : Option (String × String × List Char) :=
  match cs with
  | '!' :: '<' :: inside =>
    match takeUri isUri inside.length inside with
    | some (name, '>' :: rest) => some ("", String.ofList name, rest)
    | _ => none
  | _ => do
    let (handle, rest) ← takeHandle cs
    let (suffix, rest) ← takeUri isTag rest.length rest
    if isClosed handle then
      if suffix.isEmpty then none
      else some (String.ofList handle, String.ofList suffix, rest)
    else
      let suffix := handle.drop 1 ++ suffix
      if suffix.isEmpty then some ("", "!", rest) else some ("!", String.ofList suffix, rest)

/-- Reads a tag, which a blank or a line end follows, or between brackets another sign. -/
def readTag (flow : Bool) (start : Cursor) : Option (Token × Cursor) := do
  let (handle, suffix, rest) ← takeTag start.rest
  if stops rest || (flow && startsFlow rest) then
    some (.tag handle suffix, start.skip (start.rest.length - rest.length))
  else none

-- ── Directives ────────────────────────────────────────────────────────────────────

/-- A run of one to nine digits. -/
def takeVersion (cs : List Char) : Option (List Char) :=
  let count := (cs.takeWhile Number.isDigit).length
  if 1 ≤ count ∧ count ≤ 9 then some (cs.drop count) else none

/-- What stands behind the name of a directive on the version. -/
def takeVersions (cs : List Char) : Option (Token × List Char) := do
  let rest ← takeVersion (cs.dropWhile isBlank)
  let '.' :: rest := rest | none
  let rest ← takeVersion rest
  some (.version, rest)

/-- What stands behind the name of a directive on a handle. -/
def takeMeaning (cs : List Char) : Option (Token × List Char) := do
  let (name, rest) ← takeHandle (cs.dropWhile isBlank)
  if name != ['!'] && !isClosed name then none
  let rest := rest.dropWhile isBlank
  let first ← rest.head?
  if first != '!' && !isTag first then none
  let (meaning, rest) ←
    if first = '!' then
      (takeUri isUri rest.length (rest.drop 1)).map fun found => ('!' :: found.1, found.2)
    else takeUri isUri rest.length rest
  if stops rest then some (.handle (String.ofList name) (String.ofList meaning), rest) else none

/-- Reads a directive and the end of its line. One of an unknown name gives the empty handle no
    meaning. -/
def readDirective (start : Cursor) : Option (Token × Cursor) := do
  let cs := start.rest.drop 1
  let name := cs.takeWhile isWord
  let after := cs.drop name.length
  if name.isEmpty || !stops after then none
  let (token, rest) ←
    if name = ['Y', 'A', 'M', 'L'] then takeVersions after
    else if name = ['T', 'A', 'G'] then takeMeaning after
    else some (.handle "" "", after.dropWhile (· ≠ '\n'))
  let (c, _) ← (start.skip (start.rest.length - rest.length)).skipInLine true
  if endsLine c.rest then some (token, if c.rest.isEmpty then c else c.nextLine) else none

end ParamStore.Yaml
