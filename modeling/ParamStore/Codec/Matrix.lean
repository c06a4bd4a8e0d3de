import ParamStore.Matrix
import ParamStore.Codec.Vector

/-!
# Matrix literals — rows between semicolons, entries between blanks

A literal is cut at every semicolon into rows, blank ones left out, and each row at blanks into
    entries. Requested numbers of rows and columns take the upper left block; without
    them the rows must be equally long. A text without brackets fills the requested block, which has
    at least one row and one column, and as many texts as a machine word counts.

* **`blockTokens`** — the entry texts of the block, with its numbers of rows and columns.
-/

namespace ParamStore

open Number (wrapped)

namespace Literal

/-- A block of entry texts, row by row. -/
structure Block where
  rows : Nat
  cols : Nat
  texts : List String

/-- The rows of a literal as lists of entry texts. -/
def rowTokens (cs : List Char) : List (List String) :=
  (((Text.split (· = ';') (String.ofList cs)).map Text.trim).filter
    fun row => !row.isEmpty).map Text.words

/-- The rows that a requested number takes; zero takes all. -/
def chooseRows (raw : String) (rows : Nat) (parsed : List (List String)) :
    Except Error (List (List String)) :=
  if rows = 0 then .ok parsed
  else if parsed.length < rows then
    .error (.unreadable raw "matrix"
      ("expected at least " ++ toString rows ++ " rows, found " ++ toString parsed.length))
  else .ok (parsed.take rows)

/-- The number of columns of chosen rows: the requested one, which every row must reach, or the
    common length. -/
def chooseCols (raw : String) (cols : Nat) (chosen : List (List String)) : Except Error Nat :=
  if cols = 0 then
    let width := match chosen with
      | [] => 0
      | first :: _ => first.length
    if chosen.any fun row => row.length != width then
      .error (.unreadable raw "matrix" "rows differ in length")
    else .ok width
  else
    match chosen.find? fun row => row.length < cols with
    | some short =>
      .error (.unreadable raw "matrix"
        ("expected at least " ++ toString cols ++ " columns, found " ++ toString short.length))
    | none => .ok cols

/-- The block of entry texts that a text and a requested shape give. -/
def blockTokens (raw : String) (rows cols : Nat) : Except Error Block :=
  match inner raw with
  | .error e => .error e
  | .ok none =>
    let rows := max rows 1
    let cols := max cols 1
    .ok ⟨rows, cols, List.replicate (wrapped (rows * cols)) (Text.trim raw)⟩
  | .ok (some cs) =>
    match chooseRows raw rows (rowTokens cs) with
    | .error e => .error e
    | .ok chosen =>
      match chooseCols raw cols chosen with
      | .error e => .error e
      | .ok width => .ok ⟨chosen.length, width, chosen.flatMap fun row => row.take width⟩

end Literal

instance {α : Type} [Codec α] : Codec (Matrix α) where
  typeName := .generic "paramtree::codec::matrix::" "DenseMatrix" (Codec.typeName α)
  encode m :=
    let rows := m.rowSlices.map fun row => String.intercalate " " (row.map Codec.encode)
    "[" ++ String.intercalate "; " rows ++ "]"
  decode raw shape :=
    match Literal.blockTokens raw shape.size shape.cols with
    | .error e => .error e
    | .ok block =>
      match (readAll block.texts : Except Error (List α)) with
      | .error e => .error e
      | .ok entries => Matrix.ofEntries block.rows block.cols entries

end ParamStore
