import ParamStore.Error
import ParamStore.Number.Integer

/-!
# Dense matrices — rows of equal length, stored one after the other

A matrix is its number of rows, its number of columns and its entries, row by row. How many entries
    it has is the product of the two numbers, and the product belongs to the type. It is a
    product of machine words, and so is the position of an entry: if there would be more entries
    than a word can count, both wrap, and the matrix has fewer entries than places. A matrix
    with rows but without columns has no entries and yields no row slices.

* **`ofEntries`**, **`ofRows`** — the two ways to build one; both count the entries.
* **`get?`**, **`index`** — one entry, or why there is none.
* **`rowSlices`** — the entries row by row.
-/

namespace ParamStore

open Number (capacity wrapped wrapped_eq_iff)

/-- A matrix stored row by row. -/
structure Matrix (α : Type) where
  rows : Nat
  cols : Nat
  entries : List α
  length_eq : entries.length = wrapped (rows * cols)
deriving DecidableEq

namespace Matrix

variable {α : Type}

/-- Neither rows nor columns. -/
def empty : Matrix α := ⟨0, 0, [], rfl⟩

/-- The matrix of some entries, refused if they do not fill it. -/
def ofEntries (rows cols : Nat) (entries : List α) : Except Error (Matrix α) :=
  if h : entries.length = wrapped (rows * cols) then .ok ⟨rows, cols, entries, h⟩
  else .error (.wrongCount (wrapped (rows * cols)) entries.length)

/-- The matrix of some rows, as wide as the first one. The entries are counted, not the rows
    measured. -/
def ofRows (rows : List (List α)) : Except Error (Matrix α) :=
  let width := match rows with
    | [] => 0
    | first :: _ => first.length
  ofEntries rows.length width rows.flatten

/-- Where the entry of a row and a column stands. -/
def position (m : Matrix α) (row col : Nat) : Nat := wrapped (row * m.cols + col)

/-- The entry of a row and a column. -/
def get? (m : Matrix α) (row col : Nat) : Option α :=
  if row < m.rows ∧ col < m.cols then m.entries[m.position row col]? else none

/-- Why an index has no entry: its row or its column is outside the matrix, or its position is behind
    the last entry. -/
inductive OutOfBounds where
  | place (row col rows cols : Nat)
  | entry (position count : Nat)
deriving DecidableEq, Repr

/-- The wording of an index without an entry. -/
def OutOfBounds.message : OutOfBounds → String
  | place row col rows cols =>
    "index (" ++ toString row ++ ", " ++ toString col ++ ") out of bounds for "
      ++ toString rows ++ "x" ++ toString cols ++ " matrix"
  | entry position count =>
    "index out of bounds: the len is " ++ toString count ++ " but the index is "
      ++ toString position

/-- The entry of a row and a column, or why there is none. -/
def index (m : Matrix α) (row col : Nat) : Except OutOfBounds α :=
  if row < m.rows ∧ col < m.cols then
    match m.entries[m.position row col]? with
    | some a => .ok a
    | none => .error (.entry (m.position row col) m.entries.length)
  else .error (.place row col m.rows m.cols)

/-- The first `count` pieces of a width; fewer if the list ends before. -/
def slices (width : Nat) : Nat → List α → List (List α)
  | 0, _ => []
  | _ + 1, [] => []
  | count + 1, x :: xs =>
    (x :: xs).take width :: slices width count ((x :: xs).drop width)

/-- The rows, as far as there are entries. -/
def rowSlices (m : Matrix α) : List (List α) := slices (max m.cols 1) m.rows m.entries

-- ── Entries ───────────────────────────────────────────────────────────────────────

/-- **A matrix has an entry for each of its places exactly if a word can count them.** -/
theorem length_eq_iff {m : Matrix α} :
    m.entries.length = m.rows * m.cols ↔ m.rows * m.cols < capacity := by
  rw [m.length_eq]
  exact wrapped_eq_iff

/-- The position of a place is before that of the place behind the last one. -/
theorem position_lt {rows cols row col : Nat} (hr : row < rows) (hc : col < cols) :
    row * cols + col < rows * cols := by
  have step : row * cols + col < (row + 1) * cols := by
    rw [Nat.succ_mul]; omega
  exact Nat.lt_of_lt_of_le step (Nat.mul_le_mul_right cols hr)

/-- **An index has the entry that the query finds**, and no other. -/
theorem index_eq_ok_iff {m : Matrix α} {row col : Nat} {a : α} :
    m.index row col = .ok a ↔ m.get? row col = some a := by
  rw [index, get?]
  by_cases inside : row < m.rows ∧ col < m.cols
  · rw [if_pos inside, if_pos inside]
    cases m.entries[m.position row col]? with
    | none => simp
    | some b => simp
  · rw [if_neg inside, if_neg inside]
    simp

end Matrix

end ParamStore
