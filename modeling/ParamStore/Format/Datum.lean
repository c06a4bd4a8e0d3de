import ParamStore.Codec.Scalar
import ParamStore.Codec.Vector
import ParamStore.Text.Quoted
import ParamStore.Tree.Basic

/-!
# Data of a parameter file — what the formats have in common

Every file format yields a table of named data: scalars, lists and tables, or an explicit lack of a
    value. A table becomes a part of the tree, one value for each datum in it under its dotted path,
    in the order of the names; a lacking value and a table without entries leave no trace. A list
    becomes the literal of its entries. A table inside a list has only a text for a reader.

* **`Datum`** — the data.
* **`Datum.stored`** — the text that is stored for a datum.
* **`Datum.toTree`** — the tree of a table.
-/

namespace ParamStore

open Number

/-- The data of a parameter file. -/
inductive Datum where
  | nothing
  | truth (b : Bool)
  | integer (n : Int)
  | real (x : Binary .double)
  | text (s : String)
  | list (items : List Datum)
  | table (members : List (String × Datum))

namespace Datum

mutual

/-- The text of a datum for a reader: inside lists and tables, and of every scalar. -/
def shown : Datum → String
  | nothing => "nil"
  | truth b => Codec.encode b
  | integer n => decimal n
  | real x => x.plain
  | text s => s
  | list items => Text.quoted (shownItems items)
  | table members => "\x7b " ++ shownMembers members ++ " \x7d"

/-- The items of a list, each with a comma. -/
def shownItems : List Datum → String
  | [] => ""
  | item :: items => shown item ++ ", " ++ shownItems items

/-- The members of a table, each with a comma. -/
def shownMembers : List (String × Datum) → String
  | [] => ""
  | (name, item) :: members => name ++ " => " ++ shown item ++ ", " ++ shownMembers members

end

mutual

/-- The text that is stored for a datum. -/
def stored : Datum → String
  | nothing => ""
  | list items => Literal.writeEntries (storedItems items)
  | text s => s
  | truth b => Codec.encode b
  | integer n => decimal n
  | real x => x.plain
  | table members => shown (table members)

/-- The texts of the entries of a list. -/
def storedItems : List Datum → List String
  | [] => []
  | item :: items => stored item :: storedItems items

end

mutual

/-- The same datum with the members of every table in the order of their names. -/
def sorted : Datum → Datum
  | table members => table (KeyMap.ofList (sortedMembers members))
  | other => other

/-- The members of a table, each sorted. -/
def sortedMembers : List (String × Datum) → List (String × Datum)
  | [] => []
  | (name, item) :: members => (name, sorted item) :: sortedMembers members

end

mutual

/-- Stores a datum at a path: a table member by member, and a lacking value not at all. -/
def store (path : String) : Datum → Tree → Attempt Tree Unit
  | table members, t => storeMembers path members t
  | nothing, t => .pure () t
  | other, t => t.set path (stored other) true

/-- Stores the members of a table below a path; the first refusal ends the attempt. -/
def storeMembers (path : String) : List (String × Datum) → Tree → Attempt Tree Unit
  | [], t => .pure () t
  | (name, item) :: members, t =>
    (store (Path.join path name) item t).andThen fun _ next => storeMembers path members next

end

/-- The tree of a table's members. -/
def toTree (members : List (String × Datum)) : Except Error Tree :=
  let built := storeMembers "" (KeyMap.ofList (sortedMembers members)) .empty
  built.result.map fun _ => built.state

end Datum

end ParamStore
