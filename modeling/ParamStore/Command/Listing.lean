import ParamStore.Text.Blank

/-!
# Listings — keys with their values, in lines or in a table

In lines, each key has its value after an equals sign. In a table, keys and values stand in two
    columns below a header, inside a border; a column is as wide as its widest line, and a text of
    several lines takes several lines of the table.

* **`Listing.lines`**, **`Listing.table`** — the two forms, neither ending in a new line.
-/

namespace ParamStore.Command.Listing

/-- A key and its value on each line. -/
def lines (pairs : List (String × String)) : String :=
  String.intercalate "\n" (pairs.map fun pair => pair.1 ++ " = " ++ pair.2)

/-- Some characters of one kind. -/
def run (c : Char) (count : Nat) : String := String.ofList (List.replicate count c)

/-- The lines of a text. -/
def linesOf (text : String) : List String := Text.split (· = '\n') text

/-- The columns that a line of text takes. -/
def width (line : String) : Nat := line.length

/-- The widest line of some texts. -/
def widest (texts : List String) : Nat :=
  (texts.flatMap linesOf).foldl (fun most line => max most (width line)) 0

/-- A line filled up with blanks. -/
def padded (columns : Nat) (line : String) : String := line ++ run ' ' (columns - width line)

/-- The lines of one row: as many as the text with more lines has. -/
def row (left right : Nat) (pair : String × String) : List String :=
  let keys := linesOf pair.1
  let values := linesOf pair.2
  (List.range (max keys.length values.length)).map fun i =>
    "│ " ++ padded left (keys[i]?.getD "") ++ "   " ++ padded right (values[i]?.getD "") ++ " │"

/-- A table of keys and values. -/
def table (pairs : List (String × String)) : String :=
  let header := ("Key", "Value")
  let left := widest ((header :: pairs).map Prod.fst)
  let right := widest ((header :: pairs).map Prod.snd)
  let across := left + right + 5
  String.intercalate "\n"
    (["┌" ++ run '─' across ++ "┐"] ++ row left right header ++ ["╞" ++ run '═' across ++ "╡"]
      ++ pairs.flatMap (row left right) ++ ["└" ++ run '─' across ++ "┘"])

end ParamStore.Command.Listing
