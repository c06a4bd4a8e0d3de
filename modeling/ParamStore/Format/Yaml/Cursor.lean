/-!
# Positions in a YAML text — what comes next, and where on its line

A position knows what is left of the text, its line and column, how many characters precede it, and
    whether only blanks stand before it on its line. Every line ends with a line feed: a carriage
    return counts as one, alone or before a line feed. A null character ends the text.

* **`Cursor`** — a position.
* **`Cursor.ofText`** — the first one of a text.
* **`Cursor.skipInLine`** — what may stand between a token and the end of its line.
-/

namespace ParamStore.Yaml

-- ── Characters ────────────────────────────────────────────────────────────────────

/-- A blank inside a line. -/
def isBlank (c : Char) : Bool := c = ' ' || c = '\t'

/-- A blank or a line end. -/
def isGap (c : Char) : Bool := isBlank c || c = '\n'

/-- A character that has a meaning of its own between brackets. -/
def isFlow (c : Char) : Bool := c = ',' || c = '[' || c = ']' || c = '\x7b' || c = '\x7d'

/-- A character of a name: a letter or digit of ASCII, an underscore or a dash. -/
def isWord (c : Char) : Bool := c.isAlphanum || c = '_' || c = '-'

/-- A text that ends, or goes on with a blank or a line end. -/
def stops : List Char → Bool
  | [] => true
  | c :: _ => isGap c

/-- A text that ends, or goes on with a line end. -/
def endsLine : List Char → Bool
  | [] => true
  | c :: _ => c = '\n'

/-- A text that goes on with a character which has a meaning of its own between brackets. -/
def startsFlow : List Char → Bool
  | [] => false
  | c :: _ => isFlow c

/-- The text with line feeds only, up to a null character. -/
def lineFeeds : List Char → List Char
  | [] => []
  | '\x0d' :: '\n' :: rest => '\n' :: lineFeeds rest
  | c :: rest =>
    if c = '\x00' then []
    else if c = '\x0d' then '\n' :: lineFeeds rest
    else c :: lineFeeds rest

-- ── Positions ─────────────────────────────────────────────────────────────────────

/-- A position in a text; it is fresh while only blanks stand before it on its line. -/
structure Cursor where
  rest : List Char
  line : Nat
  column : Nat
  index : Nat
  fresh : Bool

namespace Cursor

/-- The first position of a text. -/
def ofText (text : String) : Cursor := ⟨lineFeeds text.toList, 0, 0, 0, true⟩

/-- Passes over some blanks. -/
def skipBlanks (n : Nat) (c : Cursor) : Cursor :=
  { c with rest := c.rest.drop n, column := c.column + n, index := c.index + n }

/-- Passes over some characters of a line. -/
def skip (n : Nat) (c : Cursor) : Cursor := { c.skipBlanks n with fresh := false }

/-- Passes over a line end. -/
def nextLine (c : Cursor) : Cursor := ⟨c.rest.drop 1, c.line + 1, 0, c.index + 1, true⟩

/-- Passes over what is left of a line. -/
def skipLine (c : Cursor) : Cursor := c.skip (c.rest.takeWhile (· ≠ '\n')).length

/-- Passes over blanks and a comment behind them, and tells the blanks. A comment without a blank
    before it is refused. -/
def skipInLine (tabs : Bool) (c : Cursor) : Option (Cursor × List Char) :=
  let blanks := c.rest.takeWhile fun ch => ch = ' ' || (tabs && ch = '\t')
  let c := c.skipBlanks blanks.length
  match c.rest with
  | '#' :: _ => if blanks.isEmpty then none else some (c.skipLine, blanks)
  | _ => some (c, blanks)

/-- A line that begins with a sign three times. -/
def isMark (sign : Char) (c : Cursor) : Bool :=
  c.column = 0 && [sign, sign, sign].isPrefixOf c.rest && stops (c.rest.drop 3)

/-- A line that starts a document. -/
def startsDocument (c : Cursor) : Bool := c.isMark '-'

/-- A line that ends a document. -/
def endsDocument (c : Cursor) : Bool := c.isMark '.'

/-- A line that starts or ends a document. -/
def bounds (c : Cursor) : Bool := c.startsDocument || c.endsDocument

/-- A column that lies before an indentation. -/
def before (indent : Int) (c : Cursor) : Bool := (c.column : Int) < indent

end Cursor

end ParamStore.Yaml
