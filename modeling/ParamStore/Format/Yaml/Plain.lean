import ParamStore.Format.Yaml.Quoted

/-!
# Plain scalars — texts without quotes

A plain scalar ends before a colon that a blank follows, before a comment, before a line that is not
    indented further than its block, and between brackets also before a bracket, brace or comma.
    Line ends inside it stand for what they do in a quoted scalar.

* **`takeWord`** — the characters up to a blank or the end of the scalar.
* **`readPlain`** — a scalar.
-/

namespace ParamStore.Yaml

/-- The characters up to a blank or the end of a plain scalar. -/
def takeWord (flow : Bool) : List Char → List Char
  | [] => []
  | c :: rest =>
    let colonEnds := stops rest || (flow && startsFlow rest)
    if isGap c || (flow && isFlow c) || (c = ':' && colonEnds) then []
    else c :: takeWord flow rest

/-- Passes over blanks and line ends behind a word: whether a line ended, how many empty lines
    followed, and the next position. A line before the indentation may begin with a tab only if it
    holds nothing but a comment. -/
def skipPlainGap (indent : Int) : Nat → Cursor → Option (Bool × Nat × Cursor)
  | 0, _ => none
  | fuel + 1, c =>
    match c.rest with
    | [] => some (false, 0, c)
    | ch :: _ =>
      if ch = '\n' then
        (skipPlainGap indent fuel c.nextLine).map fun (ended, empty, after) =>
          if c.fresh then (ended, empty + 1, after) else (true, empty, after)
      else if ch = '\t' && c.fresh && c.before indent then
        match c.skipInLine true with
        | none => none
        | some (c, _) => if endsLine c.rest then skipPlainGap indent fuel c else none
      else if isBlank ch then skipPlainGap indent fuel (c.skipBlanks 1)
      else some (false, 0, c)

/-- A dash that only a bracket, brace or comma follows. -/
def loneDash : List Char → Bool
  | '-' :: rest => startsFlow rest
  | _ => false

/-- Reads the words of a plain scalar; `gap` is what stands before the next one. -/
def readWords (flow : Bool) (indent : Int) : Nat → List Char → Cursor →
    Option (List Char × Cursor)
  | 0, _, _ => none
  | fuel + 1, gap, c =>
    let word := takeWord flow c.rest
    if c.bounds || c.rest.head? == some '#' then some ([], c)
    else if flow && loneDash c.rest then none
    else if word.isEmpty then some ([], c)
    else
      let c := c.skip word.length
      if !(c.rest.head?.any isGap) then some (gap ++ word, c)
      else
        match skipPlainGap indent (c.rest.length + 1) c with
        | none => none
        | some (ended, empty, after) =>
          let between :=
            if after.fresh then foldGap [] (if ended then empty + 1 else empty)
            else c.rest.takeWhile isBlank
          if !flow && after.before indent then some (gap ++ word, after)
          else
            (readWords flow indent fuel between after).map fun found =>
              (gap ++ word ++ found.1, found.2)

/-- Reads a plain scalar, which is not empty, in a block of an indentation. -/
def readPlain (flow : Bool) (indent : Int) (start : Cursor) : Option (String × Cursor) :=
  if flow && start.before (indent + 1) then none
  else
    match readWords flow (indent + 1) (start.rest.length + 1) [] start with
    | none => none
    | some (text, c) => if text.isEmpty then none else some (String.ofList text, c)

end ParamStore.Yaml
