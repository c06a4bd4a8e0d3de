import ParamStore.Format.Yaml.Cursor

/-!
# Block scalars — texts of whole lines

Behind an indicator stand, in either order, how the text ends and how far it is indented. Without
    the latter the first line that is not empty tells it, but at least one column more than the
    block. A literal text keeps its line ends; in a folded one a single line end between two lines
    that do not begin with a blank stands for a blank. At the end of the text one line end is
    kept, or none, or all.

* **`BlockEnding`** — which line ends are kept at the end.
* **`readBlock`** — a scalar behind its indicator.
-/

namespace ParamStore.Yaml

/-- Which line ends at the end of a text are kept. -/
inductive BlockEnding where
  | one | none | all
deriving DecidableEq

/-- The sign that tells the ending, if there is one. -/
def takeEnding : List Char → Option BlockEnding × List Char
  | '+' :: rest => (some .all, rest)
  | '-' :: rest => (some .none, rest)
  | rest => (none, rest)

/-- The digit that tells the indentation, or zero without one. The digit zero is refused. -/
def takeStep : List Char → Option (Nat × List Char)
  | [] => some (0, [])
  | c :: rest =>
    if c = '0' then none
    else if '1' ≤ c && c ≤ '9' then some (c.toNat - '0'.toNat, rest)
    else some (0, c :: rest)

/-- The ending and the indentation that stand behind an indicator, and what follows. -/
def takeBlockHeader (cs : List Char) : Option (BlockEnding × Nat × List Char) :=
  let (first, cs) := takeEnding cs
  match takeStep cs with
  | none => none
  | some (step, cs) =>
    match first with
    | some ending => some (ending, step, cs)
    | none =>
      let (second, cs) := takeEnding cs
      some (second.getD .one, step, cs)

/-- Passes over empty lines and the indentation of the next one: the longest indentation, the
    number of lines, and the next position. -/
def skipLeadingLines : Nat → Cursor → Nat × Nat × Cursor
  | 0, c => (0, 0, c)
  | fuel + 1, c =>
    let c := c.skipBlanks (c.rest.takeWhile (· = ' ')).length
    if c.rest.head? == some '\n' then
      let (longest, count, after) := skipLeadingLines fuel c.nextLine
      (max c.column longest, count + 1, after)
    else (c.column, 0, c)

/-- Passes over empty lines and up to so many blanks of the next one, and counts the lines. -/
def skipIndent (indent : Nat) : Nat → Cursor → Nat × Cursor
  | 0, c => (0, c)
  | fuel + 1, c =>
    let blanks := (c.rest.takeWhile (· = ' ')).length
    let c := c.skipBlanks (min blanks (indent - c.column))
    if c.rest.head? == some '\n' then
      let (count, after) := skipIndent indent fuel c.nextLine
      (count + 1, after)
    else (0, c)

/-- What stands before a line: `broken` if a line precedes it, `empty` many empty lines, and whether
    the two lines begin with a blank. -/
def joinLines (literal broken : Bool) (empty : Nat) (spaced nextSpaced : Bool) : List Char :=
  if !literal && broken && !spaced && !nextSpaced then
    if empty = 0 then [' '] else List.replicate empty '\n'
  else List.replicate (if broken then empty + 1 else empty) '\n'

/-- Reads the lines of an indentation: the text, whether its last line has an end, how many empty
    lines follow it, and the next position. -/
def readBlockLines (literal : Bool) (indent : Nat) : Nat → Bool → Nat → Bool → Cursor →
    List Char × Bool × Nat × Cursor
  | 0, broken, empty, _, c => ([], broken, empty, c)
  | fuel + 1, broken, empty, spaced, c =>
    if c.column = indent && !c.rest.isEmpty then
      let nextSpaced := c.rest.head?.any isBlank
      let line := c.rest.takeWhile (· ≠ '\n')
      let front := joinLines literal broken empty spaced nextSpaced ++ line
      let c := c.skip line.length
      if c.rest.isEmpty then (front, false, 0, c)
      else
        let (count, c) := skipIndent indent (c.rest.length + 1) c.nextLine
        let found := readBlockLines literal indent fuel true count nextSpaced c
        (front ++ found.1, found.2)
    else ([], broken, empty, c)

/-- The text of a block that the end of the file follows without a line of content; `ended` if its
    first line has an end. -/
def emptyBlock (ending : BlockEnding) (ended : Bool) (lineEnds : Nat) : List Char :=
  match ending with
  | .none => []
  | .one => if ended then ['\n'] else []
  | .all => if ended then List.replicate (max lineEnds 1) '\n' else []

/-- Reads a block scalar that begins with its indicator, in a block of an indentation. -/
def readBlock (literal : Bool) (outer : Int) (start : Cursor) : Option (String × Cursor) := do
  let c := start.skip 1
  let (ending, step, rest) ← takeBlockHeader c.rest
  let (c, _) ← (c.skip (c.rest.length - rest.length)).skipInLine true
  if !endsLine c.rest then none
  let ended := !c.rest.isEmpty
  let c := if ended then c.nextLine else c
  if c.rest.head? == some '\t' then none
  let fuel := c.rest.length + 1
  let (indent, lineEnds, c) :=
    if step = 0 then
      let (longest, lineEnds, c) := skipLeadingLines fuel c
      (max longest (outer + 1).toNat, lineEnds, c)
    else
      let indent := outer.toNat + step
      (indent, skipIndent indent fuel c)
  if c.rest.isEmpty then some (String.ofList (emptyBlock ending ended lineEnds), c)
  else if c.column < indent && !c.before (outer + 1) then none
  else
    let (text, broken, empty, c) := readBlockLines literal indent fuel false lineEnds false c
    let lastEnd :=
      (if broken then ['\n'] else [])
        ++ (if c.rest.isEmpty && max indent 1 ≤ c.column then ['\n'] else [])
    let tail := match ending with
      | .none => []
      | .one => lastEnd
      | .all => lastEnd ++ List.replicate empty '\n'
    some (String.ofList (text ++ tail), c)

end ParamStore.Yaml
