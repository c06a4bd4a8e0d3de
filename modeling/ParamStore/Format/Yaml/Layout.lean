import ParamStore.Format.Yaml.Block
import ParamStore.Format.Yaml.Plain
import ParamStore.Format.Yaml.Token

/-!
# The layout of a YAML text — indentation and names

What the indentation of a text says is told by tokens: the start of a list or mapping where a dash
    or a name is indented further than what surrounds it, and the end where a line is indented
    less. Behind a dash, a colon or an opening bracket one more column is required of whatever
    follows, until a block of its own takes its place or a scalar has been read.

Whether a scalar, or anything else, is a name is known only when its colon comes; until then it is a
    candidate. Outside brackets a candidate must find its colon on its own line, within a
    limited distance; and one that stands where an entry of the surrounding mapping is due must
    find it at all. A colon between brackets can make a mapping of one name.

* **`Layout`** — what is known at a position.
* **`Layout.step`** — the next token.
* **`tokens?`** — the tokens of a text.
-/

namespace ParamStore.Yaml

/-- What may turn out to be a name: where it begins, and how many tokens precede it. -/
structure Candidate where
  possible : Bool
  required : Bool
  line : Nat
  column : Nat
  index : Nat
  place : Nat

/-- No candidate. -/
def Candidate.none : Candidate := ⟨false, false, 0, 0, 0, 0⟩

/-- A level of indentation: the one that it is in, and whether it is a block of its own. -/
structure Level where
  outer : Int
  block : Bool

/-- What is known at a position. -/
structure Layout where
  cursor : Cursor
  tokens : Array Token
  /-- The candidate here, and those outside the innermost brackets. -/
  candidate : Candidate
  waiting : List Candidate
  /-- A name may begin here. -/
  nameAllowed : Bool
  indent : Int
  levels : List Level
  /-- The number of open brackets. -/
  depth : Nat
  /-- Where a colon needs no blank behind it. -/
  colonAt : Nat
  /-- Colons belong to a mapping that is open already. -/
  inMapping : Bool
  /-- For each open list between brackets, whether a mapping of one name is open in it. -/
  pairs : List Bool

namespace Layout

/-- The start of a text. -/
def start (text : String) : Layout :=
  ⟨Cursor.ofText text, #[], Candidate.none, [], true, -1, [], 0, 0, false, []⟩

/-- Adds a token. -/
def push (t : Token) (s : Layout) : Layout := { s with tokens := s.tokens.push t }

/-- Puts a token before the ones from a place on. -/
def insertAt (place : Nat) (t : Token) (s : Layout) : Layout :=
  { s with tokens := (s.tokens.toList.take place ++ t :: s.tokens.toList.drop place).toArray }

-- ── Candidates ────────────────────────────────────────────────────────────────────

/-- How far from its colon a name may begin. -/
def nameLimit : Nat := 1024

/-- Gives the candidate up; none if it had to be a name. -/
def dropCandidate (s : Layout) : Option Layout :=
  if s.candidate.possible && s.candidate.required then none
  else some { s with candidate := { s.candidate with possible := false } }

/-- Gives the candidate up if its colon can no longer come. -/
def dropLate (s : Layout) : Option Layout :=
  let c := s.candidate
  if s.depth = 0 && (c.line < s.cursor.line || c.index + nameLimit < s.cursor.index) then
    s.dropCandidate
  else some s

/-- Makes what comes next a candidate, if a name may begin here. -/
def saveCandidate (s : Layout) : Option Layout :=
  if !s.nameAllowed then some s
  else
    let inBlock := s.levels.head?.any fun level => level.block
    let required := s.depth = 0 && s.indent = s.cursor.column && inBlock
    (s.dropCandidate).map fun s =>
      { s with candidate := ⟨true, required, s.cursor.line, s.cursor.column, s.cursor.index,
          s.tokens.size⟩ }

-- ── Indentation ───────────────────────────────────────────────────────────────────

/-- Leaves the levels that are indented further than a column. -/
def unrollTo (column : Int) : Int → List Level → Array Token → Int × List Level × Array Token
  | indent, [], tokens => (indent, [], tokens)
  | indent, level :: levels, tokens =>
    if column < indent then
      unrollTo column level.outer levels
        (if level.block then tokens.push .blockEnd else tokens)
    else (indent, level :: levels, tokens)

/-- Leaves the levels that are indented further than a column, outside brackets. -/
def unroll (column : Int) (s : Layout) : Layout :=
  if s.depth ≠ 0 then s
  else
    let (indent, levels, tokens) := unrollTo column s.indent s.levels s.tokens
    { s with indent := indent, levels := levels, tokens := tokens }

/-- Leaves a level that is no block of its own. -/
def dropColumn (s : Layout) : Layout :=
  match s.levels with
  | [] => s
  | level :: levels => if level.block then s else { s with indent := level.outer, levels := levels }

/-- Requires one more column of what follows. -/
def addColumn (s : Layout) : Layout :=
  if s.depth = 0 && s.levels.head?.any fun level => level.block then
    { s with levels := ⟨s.indent, false⟩ :: s.levels, indent := s.indent + 1 }
  else s

/-- Opens a block at a column, unless it is open already; its token stands at a place. -/
def openBlock (column place : Nat) (t : Token) (s : Layout) : Layout :=
  if s.depth ≠ 0 then s
  else
    let s := if s.indent ≤ column then s.dropColumn else s
    if s.indent < column then
      { s.insertAt place t with levels := ⟨s.indent, true⟩ :: s.levels, indent := column }
    else s

-- ── Blanks ────────────────────────────────────────────────────────────────────────

/-- Passes over blanks and a comment up to the end of the line. -/
def skipInLine (s : Layout) : Option Layout :=
  (s.cursor.skipInLine true).map fun found => { s with cursor := found.1 }

/-- Passes over blanks, comments and line ends. Tabs do not indent a block. -/
def skipGaps : Nat → Layout → Option Layout
  | 0, s => some s
  | fuel + 1, s =>
    match s.cursor.rest with
    | [] => some s
    | c :: _ =>
      if c = '\n' then
        skipGaps fuel
          { s with cursor := s.cursor.nextLine, nameAllowed := s.nameAllowed || s.depth = 0 }
      else if c = '#' then skipGaps fuel { s with cursor := s.cursor.skipLine }
      else if c = '\t' && !s.levels.isEmpty && s.cursor.fresh && s.cursor.before s.indent then
        match s.skipInLine with
        | none => none
        | some s => if endsLine s.cursor.rest then skipGaps fuel s else none
      else if isBlank c then skipGaps fuel { s with cursor := s.cursor.skipBlanks 1 }
      else some s

/-- Passes over all that stands before the next token. -/
def skip (s : Layout) : Option Layout := skipGaps (s.cursor.rest.length + 1) s

/-- Passes over what must follow a question mark: a blank or a line end, and no tab. -/
def skipBehindQuestion : Nat → Bool → Layout → Option Layout
  | 0, _, _ => none
  | fuel + 1, found, s =>
    match s.cursor.rest with
    | [] => if found then some s else none
    | c :: _ =>
      if c = ' ' then skipBehindQuestion fuel true { s with cursor := s.cursor.skipBlanks 1 }
      else if c = '\n' then
        skipBehindQuestion fuel true
          { s with cursor := s.cursor.nextLine, nameAllowed := s.nameAllowed || s.depth = 0 }
      else if c = '#' then skipBehindQuestion fuel found { s with cursor := s.cursor.skipLine }
      else if found && c != '\t' then some s
      else none

-- ── Tokens ────────────────────────────────────────────────────────────────────────

/-- The most brackets that may be open. -/
def depthLimit : Nat := 255

/-- Takes the mark of a document. -/
def takeMark (t : Token) (s : Layout) : Option Layout :=
  (s.unroll (-1)).dropCandidate.map fun s =>
    { s.push t with nameAllowed := false, cursor := s.cursor.skip 3 }

/-- Takes a directive. -/
def takeDirective (s : Layout) : Option Layout := do
  let s ← (s.unroll (-1)).dropCandidate
  let (t, c) ← readDirective s.cursor
  some { s.push t with nameAllowed := false, cursor := c }

/-- Takes an opening bracket or brace. -/
def takeOpening (list : Bool) (s : Layout) : Option Layout := do
  let s := (← s.saveCandidate).addColumn
  if s.depth = depthLimit then none
  let s : Layout :=
    { s with
      waiting := s.candidate :: s.waiting, candidate := Candidate.none, depth := s.depth + 1,
      nameAllowed := true, cursor := s.cursor.skip 1, inMapping := s.inMapping || !list,
      pairs := if list then false :: s.pairs else s.pairs }
  let s ← s.skipInLine
  some (s.push (if list then .bracketOpen else .braceOpen))

/-- Closes a mapping of one name between brackets. -/
def closePair (s : Layout) : Layout :=
  match s.pairs with
  | true :: pairs => { s.push .braceClose with inMapping := false, pairs := false :: pairs }
  | _ => s

/-- Takes a closing bracket or brace. -/
def takeClosing (list : Bool) (s : Layout) : Option Layout := do
  let s ← s.dropCandidate
  let s : Layout := match s.waiting with
    | [] => s
    | c :: waiting => { s with candidate := c, waiting := waiting, depth := s.depth - 1 }
  let s := { s with nameAllowed := false }
  let s := if list then { s.closePair with pairs := s.closePair.pairs.drop 1 } else s
  let s ← { s with cursor := s.cursor.skip 1 }.skipInLine
  let s := if s.depth ≠ 0 then { s with colonAt := s.cursor.index } else s
  some (s.push (if list then .bracketClose else .braceClose))

/-- Takes a comma. -/
def takeComma (s : Layout) : Option Layout := do
  let s := { ← s.dropCandidate with nameAllowed := true }.closePair
  let s ← { s with cursor := s.cursor.skip 1 }.skipInLine
  some (s.push .comma)

/-- Takes a dash before an entry of a list. -/
def takeDash (s : Layout) : Option Layout := do
  if s.depth ≠ 0 || !s.nameAllowed then none
  let column := s.cursor.column
  let s := { s with cursor := s.cursor.skip 1 }.openBlock column s.tokens.size .listStart
  let (c, blanks) ← s.cursor.skipInLine true
  let dashed := match c.rest with
    | '-' :: rest => stops rest
    | _ => false
  if blanks.contains '\t' && dashed then none
  let (c, _) ← c.skipInLine false
  let s := { s with cursor := c }
  let s := if c.rest.head? == some '\n' || startsFlow c.rest then s.addColumn else s
  let s ← s.dropCandidate
  some { s.push .dash with nameAllowed := true }

/-- Takes a question mark before a name. -/
def takeQuestion (s : Layout) : Option Layout := do
  if s.depth = 0 && !s.nameAllowed then none
  let s :=
    if s.depth = 0 then s.openBlock s.cursor.column s.tokens.size .mappingStart
    else { s with inMapping := true }
  let s := { ← s.dropCandidate with nameAllowed := s.depth = 0 }
  let s ← skipBehindQuestion (s.cursor.rest.length + 1) false { s with cursor := s.cursor.skip 1 }
  some (s.push .key)

/-- Passes over a tab behind a colon, which does not separate it from a word. -/
def skipTabBehindColon (c : Cursor) : Option Cursor :=
  if c.rest.head? == some '\t' then
    match c.skipInLine true with
    | none => none
    | some (c, blanks) =>
      if !blanks.contains ' ' && c.rest.head?.any isWord then none else some c
  else some c

/-- Takes a colon: the candidate becomes a name, or the name is what a question mark precedes. -/
def takeColon (s : Layout) : Option Layout := do
  let found := s.candidate
  let column := s.cursor.column
  let line := s.cursor.line
  let opensPair := !s.pairs.isEmpty && !s.inMapping
  let s := if opensPair then { s with pairs := true :: s.pairs.drop 1 } else s
  let c ← skipTabBehindColon (s.cursor.skip 1)
  let s := { s with cursor := c }
  if found.possible then
    let s := s.insertAt found.place .key
    if opensPair && found.line < line then none
    let s := if opensPair then s.insertAt found.place .braceOpen else s
    let s := (s.openBlock found.column found.place .mappingStart).addColumn
    some { s.push .value with
      candidate := { s.candidate with possible := false }, nameAllowed := false }
  else
    let s := if opensPair then s.push .braceOpen else s
    if s.depth = 0 && !s.nameAllowed then none
    let s := (s.openBlock column s.tokens.size .mappingStart).addColumn
    some { s.push .value with nameAllowed := s.depth = 0 }

/-- Takes an anchor or an alias. -/
def takeAnchor (make : String → Token) (s : Layout) : Option Layout := do
  let s ← s.saveCandidate
  let (name, c) ← readAnchor s.cursor
  some { s.push (make name) with nameAllowed := false, cursor := c }

/-- Takes a tag. -/
def takeTag (s : Layout) : Option Layout := do
  let s ← s.saveCandidate
  let (t, c) ← readTag (s.depth ≠ 0) s.cursor
  some { s.push t with nameAllowed := false, cursor := c }

/-- Takes a block scalar. -/
def takeBlock (literal : Bool) (s : Layout) : Option Layout := do
  let s := (← s.saveCandidate).dropColumn
  let (text, c) ← readBlock literal s.indent s.cursor
  some { s.push (.scalar false text) with nameAllowed := true, cursor := c }

/-- Takes a quoted scalar. -/
def takeQuoted (s : Layout) : Option Layout := do
  let s ← s.saveCandidate
  let (text, c) ← readQuoted (s.depth ≠ 0) s.indent s.cursor
  let s ← { s with nameAllowed := false, cursor := c }.skip
  some { s.push (.scalar false text) with colonAt := s.cursor.index }

/-- Takes a plain scalar. -/
def takePlain (s : Layout) : Option Layout := do
  let s := (← s.saveCandidate).dropColumn
  let (text, c) ← readPlain (s.depth ≠ 0) s.indent s.cursor
  some { s.push (.scalar true text) with nameAllowed := c.fresh, cursor := c }

/-- A colon that is a sign of its own and no part of a scalar. -/
def isColon (rest : List Char) (s : Layout) : Bool :=
  stops rest || (s.depth ≠ 0 && (startsFlow rest || s.cursor.index = s.colonAt))

/-- Takes the next token, which begins here. -/
def step (s : Layout) : Option Layout :=
  match s.cursor.rest with
  | [] => none
  | c :: rest =>
    if s.cursor.column = 0 && c = '%' then s.takeDirective
    else if s.cursor.startsDocument then s.takeMark .documentStart
    else if s.cursor.endsDocument then
      (s.takeMark .documentEnd).bind skipInLine |>.filter fun s => endsLine s.cursor.rest
    else if s.cursor.before s.indent then none
    else if c = '[' then s.takeOpening true
    else if c = '\x7b' then s.takeOpening false
    else if c = ']' then s.takeClosing true
    else if c = '\x7d' then s.takeClosing false
    else if c = ',' then s.takeComma
    else if c = '-' && stops rest then s.takeDash
    else if c = '?' && stops rest then s.takeQuestion
    else if c = ':' && s.isColon rest then s.takeColon
    else if c = '*' then s.takeAnchor .reference
    else if c = '&' then s.takeAnchor .anchor
    else if c = '!' then s.takeTag
    else if c = '|' && s.depth = 0 then s.takeBlock true
    else if c = '>' && s.depth = 0 then s.takeBlock false
    else if c = '"' || c = '\x27' then s.takeQuoted
    else if c = '%' || c = '@' || c = '\x60' then none
    else s.takePlain

/-- Takes the tokens up to the end of the text; `fuel` bounds their number. -/
def run : Nat → Layout → Option (List Token)
  | 0, _ => none
  | fuel + 1, s =>
    match s.skip.bind dropLate with
    | none => none
    | some s =>
      let s := s.unroll s.cursor.column
      if s.cursor.rest.isEmpty then (s.dropCandidate).map fun s => (s.unroll (-1)).tokens.toList
      else s.step.bind (run fuel)

end Layout

/-- The tokens of a text. -/
def tokens? (text : String) : Option (List Token) :=
  let s := Layout.start text
  s.run (s.cursor.rest.length + 1)

end ParamStore.Yaml
