import ParamStore.Format.Yaml.Scalar
import ParamStore.Format.Yaml.Token

/-!
# The values of a YAML document — what its tokens add up to

A value is a scalar, a list, a mapping, or one that an anchor has marked before. Where an entry or a
    value is left out, there is nothing. An anchor marks a value for the rest of the document, and
    marking another one under the same name is allowed; inside the value that it marks it stands
    for no value yet.

The names of a mapping are texts or integers and do not repeat, an integer and a text that spells it
    being different names. A name without a value of its own is passed over, what follows taking
    its place.

* **`Reading`** — the tokens that are left, and what the ones before have introduced.
* **`table?`** — the mapping of names and values in turn.
* **`readNode`** — a value.
* **`readDocument`** — the only document of a file.
-/

namespace ParamStore.Yaml

open Number

/-- What is left of a document, the meanings of handles, the last mark of each name, and the marked
    values. -/
structure Reading where
  tokens : List Token
  handles : List (String × String)
  marks : List (String × Nat)
  values : List (Nat × Datum)

namespace Reading

/-- Passes over a token. -/
def next (r : Reading) : Reading := { r with tokens := r.tokens.drop 1 }

/-- Marks the value that follows, and tells the number of the mark. -/
def mark (name : String) (r : Reading) : Nat × Reading :=
  let n := r.marks.length
  (n, { r with marks := (name, n) :: r.marks })

/-- Gives the value of a mark. -/
def define (n : Option Nat) (found : Found) (r : Reading) : Reading :=
  match n, found with
  | some n, some d => { r with values := (n, d) :: r.values }
  | _, _ => r

/-- The value under a name; the outer layer is none for a name that marks nothing. -/
def valueOf (name : String) (r : Reading) : Option Found :=
  (r.marks.lookup name).map fun n => r.values.lookup n

end Reading

-- ── Mappings ──────────────────────────────────────────────────────────────────────

/-- A datum as a name, with whether it is a text. -/
def asName : Datum → Option (Bool × String)
  | .text s => some (true, s)
  | .integer n => some (false, decimal n)
  | _ => none

/-- Names and values, in turn; none for what cannot be a name. -/
def members? : List Found → Option (List ((Bool × String) × Datum))
  | [] => some []
  | none :: rest => members? rest
  | [some _] => some []
  | some key :: value :: rest =>
    match asName key, members? rest with
    | some name, some members => some ((name, value.getD .nothing) :: members)
    | _, _ => none

/-- Names that do not repeat. -/
def areDistinct (names : List (Bool × String)) : Bool := names.eraseDups.length = names.length

/-- The mapping of names and values in turn. Of an integer and a text that are spelled alike the
    later one counts. -/
def table? (parts : List Found) : Option Datum :=
  match members? parts with
  | none => none
  | some members =>
    if areDistinct (members.map Prod.fst) then
      some (.table (KeyMap.ofList (members.map fun member => (member.1.2, member.2))))
    else none

-- ── What stands before a value ────────────────────────────────────────────────────

/-- The vocabulary of a handle and the tag in it; none for a handle without a meaning. -/
def vocabulary? (handles : List (String × String)) (handle suffix : String) :
    Option (String × String) :=
  if handle = "!!" then some ((handles.lookup "!!").getD coreVocabulary, suffix)
  else if handle = "" ∧ suffix = "!" then some ((handles.lookup "").getD "", suffix)
  else
    match handles.lookup handle with
    | some meaning => some (meaning, suffix)
    | none => if isClosed handle.toList then none else some (handle, suffix)

/-- What is said about a value: the number of its mark, and its tag. -/
structure Properties where
  anchor : Option Nat
  tag : Option (String × String)

/-- Reads what is said about a value: an anchor, a tag, or both in either order. -/
def readProperties (r : Reading) : Option (Properties × Reading) :=
  match r.tokens with
  | .anchor name :: .tag handle suffix :: rest =>
    let (n, r) := r.mark name
    (vocabulary? r.handles handle suffix).map fun tag =>
      (⟨some n, some tag⟩, { r with tokens := rest })
  | .anchor name :: rest =>
    let (n, r) := r.mark name
    some (⟨some n, none⟩, { r with tokens := rest })
  | .tag handle suffix :: .anchor name :: rest =>
    let (n, r) := r.mark name
    (vocabulary? r.handles handle suffix).map fun tag =>
      (⟨some n, some tag⟩, { r with tokens := rest })
  | .tag handle suffix :: rest =>
    (vocabulary? r.handles handle suffix).map fun tag =>
      (⟨none, some tag⟩, { r with tokens := rest })
  | _ => some (⟨none, none⟩, r)

/-- The value of a scalar. -/
def scalarValue (plain : Bool) (tag : Option (String × String)) (text : String) : Option Found :=
  if !plain then some (some (.text text))
  else
    match tag with
    | some (vocabulary, tag) => resolveAs vocabulary tag text
    | none => (resolve text).map some

-- ── Values ────────────────────────────────────────────────────────────────────────

/-- An entry is left out: a name, a value or the end of the block comes next. -/
def isOmitted : List Token → Bool
  | .key :: _ | .value :: _ | .blockEnd :: _ => true
  | _ => false

/-- The value of a pair between brackets is left out: what comes next separates or closes. -/
def isFlowOmitted (close : Token) : List Token → Bool
  | [] => false
  | t :: _ => t = .comma || t = close

mutual

/-- Reads a value. Blocks are only possible outside brackets, and the dashes of a list need no
    indentation of their own below a name. -/
def readNode : Nat → Bool → Bool → Reading → Option (Found × Reading)
  | 0, _, _, _ => none
  | fuel + 1, block, dashes, r =>
    match r.tokens with
    | .reference name :: _ => (r.valueOf name).map fun found => (found, r.next)
    | _ =>
      match readProperties r with
      | none => none
      | some (said, r) =>
        (readContent fuel block dashes said r).map fun (found, r) =>
          (found, r.define said.anchor found)

/-- Reads a value behind what is said about it. -/
def readContent : Nat → Bool → Bool → Properties → Reading → Option (Found × Reading)
  | 0, _, _, _, _ => none
  | fuel + 1, block, dashes, said, r =>
    let listed := fun (read : Option (List Found × Reading)) => read.map fun (items, r) =>
      ((some (.list (items.map fun item => item.getD .nothing)) : Found), r)
    let mapped := fun (read : Option (List Found × Reading)) => do
      let (parts, r) ← read
      let d ← table? parts
      some ((some d : Found), r)
    let empty :=
      if said.anchor.isSome || said.tag.isSome then
        (scalarValue true said.tag "").map fun found => (found, r)
      else none
    match r.tokens with
    | .scalar plain text :: _ =>
      (scalarValue plain said.tag text).map fun found => (found, r.next)
    | .dash :: _ => if dashes then listed (readDashes fuel r) else empty
    | .bracketOpen :: _ => listed (readItems fuel true r.next)
    | .braceOpen :: _ => mapped (readPairs fuel true r.next)
    | .listStart :: _ => if block then listed (readEntries fuel r.next) else empty
    | .mappingStart :: _ => if block then mapped (readMembers fuel r.next) else empty
    | _ => empty

/-- Reads a value, or nothing where it is left out. -/
def readOptional : Nat → Bool → Bool → Bool → Reading → Option (Found × Reading)
  | 0, _, _, _, _ => none
  | fuel + 1, omitted, block, dashes, r =>
    if omitted then some (some .nothing, r) else readNode fuel block dashes r

/-- Reads the names and values of a block, in turn, up to its end. -/
def readMembers : Nat → Reading → Option (List Found × Reading)
  | 0, _ => none
  | fuel + 1, r =>
    let pair := fun (omitted : Bool) (r : Reading) => do
      let (name, r) ← readOptional fuel omitted true true r
      let (value, r) ← match r.tokens with
        | .value :: rest => readOptional fuel (isOmitted rest) true true r.next
        | _ => some (some .nothing, r)
      let (more, r) ← readMembers fuel r
      some (name :: value :: more, r)
    match r.tokens with
    | .blockEnd :: _ => some ([], r.next)
    | .key :: rest => pair (isOmitted rest) r.next
    | .value :: _ => pair true r
    | _ => none

/-- Reads the entries of a list, up to its end. -/
def readEntries : Nat → Reading → Option (List Found × Reading)
  | 0, _ => none
  | fuel + 1, r =>
    match r.tokens with
    | .blockEnd :: _ => some ([], r.next)
    | .dash :: rest => do
      let omitted := match rest with
        | .dash :: _ | .blockEnd :: _ => true
        | _ => false
      let (item, r) ← readOptional fuel omitted true false r.next
      let (more, r) ← readEntries fuel r
      some (item :: more, r)
    | _ => none

/-- Reads the entries of a list without an indentation of its own, as long as there are any. -/
def readDashes : Nat → Reading → Option (List Found × Reading)
  | 0, _ => none
  | fuel + 1, r =>
    match r.tokens with
    | .dash :: rest => do
      let omitted := match rest with
        | .dash :: _ => true
        | rest => isOmitted rest
      let (item, r) ← readOptional fuel omitted true false r.next
      let (more, r) ← readDashes fuel r
      some (item :: more, r)
    | _ => some ([], r)

/-- Reads the items of a list between brackets, up to its end. -/
def readItems : Nat → Bool → Reading → Option (List Found × Reading)
  | 0, _, _ => none
  | fuel + 1, first, r =>
    let item := fun (r : Reading) =>
      match r.tokens with
      | .bracketClose :: _ => some ([], r.next)
      | .key :: _ => do
        let (d, r) ← readPair fuel r.next
        let (more, r) ← readItems fuel false r
        some (some d :: more, r)
      | _ => do
        let (found, r) ← readNode fuel false false r
        let (more, r) ← readItems fuel false r
        some (found :: more, r)
    match r.tokens with
    | .bracketClose :: _ => some ([], r.next)
    | .comma :: _ => item (if first then r else r.next)
    | _ => if first then item r else none

/-- Reads a mapping of one name in a list between brackets, behind the mark of the name. -/
def readPair : Nat → Reading → Option (Datum × Reading)
  | 0, _ => none
  | fuel + 1, r => do
    let omitted := match r.tokens with
      | .value :: _ => true
      | rest => isFlowOmitted .bracketClose rest
    let (name, r) ← if omitted then some (some .nothing, r.next) else readNode fuel false false r
    let (value, r) ← match r.tokens with
      | .value :: rest => readOptional fuel (isFlowOmitted .bracketClose rest) false false r.next
      | _ => some (some .nothing, r)
    let d ← table? [name, value]
    some (d, r)

/-- Reads the names and values of a mapping between braces, in turn, up to its end. -/
def readPairs : Nat → Bool → Reading → Option (List Found × Reading)
  | 0, _, _ => none
  | fuel + 1, first, r =>
    let value := fun (r : Reading) =>
      match r.tokens with
      | .value :: rest => readOptional fuel (isFlowOmitted .braceClose rest) false false r.next
      | _ => some (some .nothing, r)
    let pair := fun (r : Reading) => do
      let ((name, value), r) ← match r.tokens with
        | .key :: rest => do
          let omitted := match rest with
            | .value :: _ => true
            | rest => isFlowOmitted .braceClose rest
          let (name, r) ← readOptional fuel omitted false false r.next
          let (found, r) ← value r
          some ((name, found), r)
        | .value :: _ => (value r).map fun (found, r) => ((some .nothing, found), r)
        | _ =>
          (readNode fuel false false r).map fun (name, r) => ((name, some .nothing), r)
      let (more, r) ← readPairs fuel false r
      some (name :: value :: more, r)
    let start := fun (r : Reading) =>
      match r.tokens with
      | .braceClose :: _ => some ([], r.next)
      | _ => pair r
    match r.tokens with
    | .braceClose :: _ => some ([], r.next)
    | .comma :: _ => if first then pair r else start r.next
    | _ => if first then pair r else none

end

-- ── Documents ─────────────────────────────────────────────────────────────────────

/-- The meanings of handles that directives give, up to the line that starts the document; only the
    last directive counts, and the version may be given once. -/
def readDirectives : List (String × String) → Bool → List Token →
    Option (List (String × String) × List Token)
  | _, versioned, .version :: rest => if versioned then none else readDirectives [] true rest
  | _, versioned, .handle name meaning :: rest =>
    readDirectives [(name, meaning)] versioned rest
  | handles, _, .documentStart :: rest => some (handles, rest)
  | _, _, _ => none

/-- A document without a value: its end, or the start of another one, comes next. -/
def isEmptyDocument : List Token → Bool
  | [] | .version :: _ | .handle _ _ :: _ | .documentStart :: _ | .documentEnd :: _ => true
  | _ => false

/-- A token that tells that a document begins explicitly. -/
def opensDocument : Token → Bool
  | .version | .handle _ _ | .documentStart => true
  | _ => false

/-- Reads the only document of a file: no value if there is none, and none where it cannot be read
    or another one follows. -/
def readDocument (tokens : List Token) : Option (Option Found) :=
  let tokens := tokens.dropWhile (· = .documentEnd)
  let fuel := 6 * tokens.length + 6
  let only := fun (read : Option (Found × Reading)) => do
    let (found, r) ← read
    if r.tokens.all (· = .documentEnd) then some (some found) else none
  match tokens with
  | [] => some none
  | t :: _ =>
    if opensDocument t then do
      let (handles, rest) ← readDirectives [] false tokens
      let r : Reading := ⟨rest, handles, [], []⟩
      only (if isEmptyDocument rest then some (some .nothing, r) else readNode fuel true false r)
    else only (readNode fuel true false ⟨tokens, [], [], []⟩)

end ParamStore.Yaml
