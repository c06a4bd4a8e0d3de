import ParamStore.Format.Yaml.Cursor
import ParamStore.Number.Integer

/-!
# Quoted scalars — texts between single or double quotes

Between single quotes only the quote is special: two stand for one. Between double quotes a
    backslash begins an escape. A quoted scalar may take several lines; then blanks around a
    line end are dropped, one line end stands for a blank, and each further one for a line feed.
    Behind an escaped line end nothing stands for the first one. The further lines keep the
    indentation of the block.

* **`readEscape`** — an escape behind its backslash.
* **`readQuoted`** — a scalar behind its quote.
-/

namespace ParamStore.Yaml

open Number (hexDigit?)

/-- The character of hexadecimal digits. -/
def ofDigits? (ds : List Char) : Option Char :=
  match ds.mapM hexDigit? with
  | none => none
  | some values =>
    let code := values.foldl (fun n d => 16 * n + d) 0
    if h : code.isValidChar then some (Char.ofNatAux code h) else none

/-- The character of an escape letter. -/
def escaped? (c : Char) : Option Char :=
  if c = '"' ∨ c = '\\' ∨ c = '/' ∨ c = ' ' ∨ c = '\t' then some c
  else if c = '0' then some '\x00'
  else if c = 'a' then some '\x07'
  else if c = 'b' then some '\x08'
  else if c = 't' then some '\t'
  else if c = 'n' then some '\n'
  else if c = 'v' then some '\x0b'
  else if c = 'f' then some '\x0c'
  else if c = 'r' then some '\x0d'
  else if c = 'e' then some '\x1b'
  else if c = 'N' then some '\u0085'
  else if c = '_' then some '\u00a0'
  else if c = 'L' then some '\u2028'
  else if c = 'P' then some '\u2029'
  else none

/-- Reads an escape behind its backslash: its character and its length. -/
def readEscape : List Char → Option (Char × Nat)
  | 'x' :: a :: b :: _ => (ofDigits? [a, b]).map fun ch => (ch, 3)
  | 'u' :: a :: b :: c :: d :: _ => (ofDigits? [a, b, c, d]).map fun ch => (ch, 5)
  | 'U' :: a :: b :: c :: d :: e :: f :: g :: h :: _ =>
    (ofDigits? [a, b, c, d, e, f, g, h]).map fun ch => (ch, 9)
  | letter :: _ => (escaped? letter).map fun ch => (ch, 1)
  | [] => none

/-- The character of a quote. -/
def quoteOf (single : Bool) : Char := if single then '\x27' else '"'

/-- Reads up to a gap, the closing quote or behind an escaped line end; whether it was the latter.
    -/
def readQuotedWord (single : Bool) : Nat → Cursor → Option (List Char × Bool × Cursor)
  | 0, _ => none
  | fuel + 1, c =>
    let more := fun (ch : Char) (n : Nat) =>
      (readQuotedWord single fuel (c.skip n)).map fun found => (ch :: found.1, found.2)
    match c.rest with
    | [] => some ([], false, c)
    | ch :: rest =>
      if isGap ch then some ([], false, c)
      else if ch = quoteOf single then
        if single && rest.head? == some ch then more ch 2 else some ([], false, c)
      else if ch = '\\' && !single then
        if rest.head? == some '\n' then some ([], true, (c.skip 1).nextLine)
        else
          match readEscape rest with
          | none => none
          | some (value, n) => more value (n + 1)
      else more ch 1

/-- Passes over blanks and line ends and counts the line ends. A tab cannot indent a further line.
    -/
def skipQuotedGap (indent : Int) : Nat → Bool → Cursor → Option (Nat × Cursor)
  | 0, _, _ => none
  | fuel + 1, inIndent, c =>
    match c.rest with
    | [] => some (0, c)
    | ch :: _ =>
      if ch = '\n' then
        (skipQuotedGap indent fuel true c.nextLine).map fun found => (found.1 + 1, found.2)
      else if ch = '\t' && inIndent && c.before indent then none
      else if isBlank ch then skipQuotedGap indent fuel inIndent (c.skipBlanks 1)
      else some (0, c)

/-- What blanks and line ends stand for. -/
def foldGap (blanks : List Char) (lineEnds : Nat) : List Char :=
  match lineEnds with
  | 0 => blanks
  | 1 => [' ']
  | n + 1 => List.replicate n '\n'

/-- Reads up to the closing quote. -/
def readQuotedBody (single : Bool) (indent : Int) : Nat → Cursor → Option (List Char × Cursor)
  | 0, _ => none
  | fuel + 1, c =>
    if c.bounds || c.rest.isEmpty || c.before indent then none
    else
      match readQuotedWord single (c.rest.length + 1) c with
      | none => none
      | some (word, broken, c) =>
        if c.rest.head? == some (quoteOf single) then some (word, c.skip 1)
        else
          match skipQuotedGap indent (c.rest.length + 1) broken c with
          | none => none
          | some (lineEnds, after) =>
            let gap :=
              if broken then List.replicate lineEnds '\n'
              else foldGap (c.rest.takeWhile isBlank) lineEnds
            (readQuotedBody single indent fuel after).map fun found =>
              (word ++ gap ++ found.1, found.2)

/-- Reads a scalar that begins with a quote, and passes over what follows it on the line: nothing, a
    comment, a bracket or comma, or the colon behind a name. -/
def readQuoted (flow : Bool) (indent : Int) (start : Cursor) : Option (String × Cursor) := do
  let single := start.rest.head? == some '\x27'
  let (text, c) ← readQuotedBody single indent (start.rest.length + 2) (start.skip 1)
  let (c, _) ← c.skipInLine true
  let proper := match c.rest with
    | [] => true
    | ch :: _ =>
      if ch = ',' || ch = '\x7d' || ch = ']' then flow
      else if ch = ':' then flow || start.line = c.line
      else ch = '\n'
  if proper then some (String.ofList text, c) else none

end ParamStore.Yaml
