import ParamStore.Proofs.Matrix.Slices

/-!
# Entries — a matrix by what stands at each place

A matrix stores its rows one after the other, so the entry of a row and a column stands as far behind
    the front as the rows above it are long together, as long as a machine word can count the
    places. That is the place where a list of rows has it too, if the rows are equally long; a
    matrix is known by its size and these entries. Building one from rows counts the entries
    and does not measure the rows, so rows of different lengths pass if their lengths add up, and
    then some entries change their row.

* **`cell?`** — the entry of a list of rows; `getElem?_flatten_of_width` finds it among all entries.
* **`isSome_get?_iff`**, **`index_eq_error_iff`** — where there is an entry.
* **`eq_of_get?_eq`** — two matrices of one size with the same entries are the same.
* **`ofRows_counts`** — which rows make a matrix, and when their entries stay in their rows.
* **`row_slices_agree`** — the slices of a matrix: their number, their length and their entries.
-/

namespace ParamStore.Matrix

open Number (capacity wrapped wrapped_of_lt wrapped_lt)

variable {α : Type}

/-- The entry of a list of rows in a row and a column. -/
def cell? (rows : List (List α)) (row col : Nat) : Option α :=
  (rows[row]?).bind fun entries => entries[col]?

/-- The length of the first row; nothing where there is no row. -/
def firstWidth : List (List α) → Nat
  | [] => 0
  | first :: _ => first.length

/-- All rows are equally long. -/
def Rectangular (rows : List (List α)) : Prop :=
  ∀ row ∈ rows, ∀ other ∈ rows, row.length = other.length

instance (rows : List (List α)) : Decidable (Rectangular rows) :=
  inferInstanceAs (Decidable (∀ row ∈ rows, ∀ other ∈ rows, _))

-- ── Lists of rows ─────────────────────────────────────────────────────────────────

variable {rows : List (List α)} {width i j : Nat}

/-- Equally long rows are all as long as the first one. -/
theorem rectangular_iff : Rectangular rows ↔ ∀ row ∈ rows, row.length = firstWidth rows := by
  constructor
  · intro h row hrow
    cases rows with
    | nil => exact absurd hrow List.not_mem_nil
    | cons first more => exact h row hrow first List.mem_cons_self
  · intro h row hrow other hother
    rw [h row hrow, h other hother]

/-- The first row is no longer than all rows together. -/
theorem firstWidth_le : firstWidth rows ≤ rows.flatten.length := by
  cases rows with
  | nil => exact Nat.le_refl 0
  | cons first more =>
      rw [List.flatten_cons, List.length_append]
      exact Nat.le_add_right first.length _

theorem cell?_zero (row : List α) (rows : List (List α)) (j : Nat) :
    cell? (row :: rows) 0 j = row[j]? := rfl

theorem cell?_succ (row : List α) (rows : List (List α)) (i j : Nat) :
    cell? (row :: rows) (i + 1) j = cell? rows i j := by
  rw [cell?, List.getElem?_cons_succ, cell?]

theorem cell?_map {β : Type} (f : α → β) (rows : List (List α)) (i j : Nat) :
    cell? (rows.map (List.map f)) i j = (cell? rows i j).map f := by
  rw [cell?, cell?, List.getElem?_map]
  cases rows[i]? with
  | none => rfl
  | some row => exact List.getElem?_map

/-- A row has an entry in each of its columns. -/
theorem isSome_cell?_iff {row : List α} (h : rows[i]? = some row) :
    (cell? rows i j).isSome ↔ j < row.length := by
  rw [cell?, h, Option.bind_some, isSome_getElem?]

/-- An entry of rows stands in one of them. -/
theorem exists_row_of_cell? (h : (cell? rows i j).isSome) :
    ∃ row, rows[i]? = some row ∧ j < row.length := by
  cases hrow : rows[i]? with
  | none =>
      rw [cell?, hrow] at h
      cases h
  | some row => exact ⟨row, rfl, (isSome_cell?_iff hrow).mp h⟩

theorem cell?_eq_none_of_rows (h : rows.length ≤ i) : cell? rows i j = none := by
  rw [cell?, List.getElem?_eq_none h]
  rfl

/-- Rows of one length have no entry beyond it. -/
theorem cell?_eq_none_of_width (h : ∀ row ∈ rows, row.length = width) (hj : width ≤ j) :
    cell? rows i j = none := by
  rw [cell?, Option.bind_eq_none_iff]
  intro row hrow
  exact List.getElem?_eq_none (h row (List.mem_of_getElem? hrow) ▸ hj)

theorem length_flatten_of_width (h : ∀ row ∈ rows, row.length = width) :
    rows.flatten.length = rows.length * width := by
  induction rows with
  | nil => rw [List.flatten_nil, List.length_nil, List.length_nil, Nat.zero_mul]
  | cons row rows ih =>
      obtain ⟨hrow, hrows⟩ := List.forall_mem_cons.mp h
      rw [List.flatten_cons, List.length_append, ih hrows, hrow, List.length_cons, Nat.succ_mul,
        Nat.add_comm]

/-- **The entries of rows of one length** stand where the rows above them end. -/
theorem getElem?_flatten_of_width (h : ∀ row ∈ rows, row.length = width) (hj : j < width) :
    rows.flatten[i * width + j]? = cell? rows i j := by
  induction rows generalizing i with
  | nil => rfl
  | cons row rows ih =>
      obtain ⟨hrow, hrows⟩ := List.forall_mem_cons.mp h
      cases i with
      | zero =>
          rw [List.flatten_cons, Nat.zero_mul, Nat.zero_add,
            List.getElem?_append_left (hrow.symm ▸ hj), cell?_zero]
      | succ i =>
          have hshift : (i + 1) * width + j - row.length = i * width + j := by
            rw [Nat.succ_mul, hrow]
            omega
          have hbehind : row.length ≤ (i + 1) * width + j := by
            rw [Nat.succ_mul, hrow]
            omega
          rw [List.flatten_cons, List.getElem?_append_right hbehind, hshift, ih hrows, cell?_succ]

-- ── Positions ─────────────────────────────────────────────────────────────────────

/-- Every position among the entries is that of a row and a column. -/
theorem exists_position {rows cols k : Nat} (h : k < rows * cols) :
    ∃ i < rows, ∃ j < cols, i * cols + j = k := by
  have hpos : 0 < cols := Nat.pos_of_mul_pos_left (Nat.zero_lt_of_lt h)
  exact ⟨k / cols, (Nat.div_lt_iff_lt_mul hpos).mpr h, k % cols, Nat.mod_lt k hpos,
    Nat.div_add_mod' k cols⟩

/-- **Positions go row by row**, and from column to column in a row. -/
theorem before_of_position_lt {cols i j i' j' : Nat} (hj : j < cols)
    (h : i' * cols + j' < i * cols + j) : i' < i ∨ i' = i ∧ j' < j := by
  rcases Nat.lt_trichotomy i' i with hlt | rfl | hgt
  · exact .inl hlt
  · exact .inr ⟨rfl, by omega⟩
  · -- a later row begins behind all columns of this one
    have hrow : (i + 1) * cols ≤ i' * cols := Nat.mul_le_mul_right cols hgt
    rw [Nat.succ_mul] at hrow
    omega

-- ── The entries of a matrix ───────────────────────────────────────────────────────

variable {m : Matrix α}

theorem get?_of_not_lt (h : ¬(i < m.rows ∧ j < m.cols)) : m.get? i j = none := if_neg h

theorem mem_of_get? {a : α} (h : m.get? i j = some a) : a ∈ m.entries := by
  rw [get?] at h
  split at h
  · exact List.mem_of_getElem? h
  · cases h

section Counted

variable (hcount : m.rows * m.cols < capacity)

include hcount

/-- **No position wraps** where a word can count the places. -/
theorem get?_of_lt (hi : i < m.rows) (hj : j < m.cols) :
    m.get? i j = m.entries[i * m.cols + j]? := by
  rw [get?, if_pos ⟨hi, hj⟩, position,
    wrapped_of_lt (Nat.lt_trans (position_lt hi hj) hcount)]

/-- **There is an entry exactly within the bounds.** -/
theorem isSome_get?_iff : (m.get? i j).isSome ↔ i < m.rows ∧ j < m.cols := by
  by_cases hin : i < m.rows ∧ j < m.cols
  · have hposition : i * m.cols + j < m.entries.length := by
      rw [length_eq_iff.mpr hcount]
      exact position_lt hin.1 hin.2
    rw [get?_of_lt hcount hin.1 hin.2, List.getElem?_eq_getElem hposition]
    exact iff_of_true rfl hin
  · rw [get?_of_not_lt hin]
    exact iff_of_false Bool.false_ne_true hin

/-- **An index fails outside the bounds only**, and says where. -/
theorem index_eq_error_iff {e : OutOfBounds} :
    m.index i j = .error e ↔ ¬(i < m.rows ∧ j < m.cols) ∧ e = .place i j m.rows m.cols := by
  by_cases hin : i < m.rows ∧ j < m.cols
  · obtain ⟨a, ha⟩ := Option.isSome_iff_exists.mp ((isSome_get?_iff hcount).mpr hin)
    rw [index_eq_ok_iff.mpr ha]
    exact iff_of_false nofun fun h => h.1 hin
  · rw [index, if_neg hin, Except.error.injEq]
    exact ⟨fun h => ⟨hin, h.symm⟩, fun h => h.2.symm⟩

/-- **A matrix is known by its size and its entries.** -/
theorem eq_of_get?_eq {n : Matrix α} (hrows : m.rows = n.rows) (hcols : m.cols = n.cols)
    (h : ∀ i < m.rows, ∀ j < m.cols, m.get? i j = n.get? i j) : m = n := by
  have hcount' : n.rows * n.cols < capacity := hrows ▸ hcols ▸ hcount
  have hentries : m.entries = n.entries := by
    refine List.ext_getElem? fun k => ?_
    by_cases hk : k < m.rows * m.cols
    · obtain ⟨i, hi, j, hj, rfl⟩ := exists_position hk
      have heq := h i hi j hj
      rwa [get?_of_lt hcount hi hj, get?_of_lt hcount' (hrows ▸ hi) (hcols ▸ hj), ← hcols] at heq
    · have hm : m.entries.length ≤ k := by
        rw [length_eq_iff.mpr hcount]
        exact Nat.le_of_not_lt hk
      have hn : n.entries.length ≤ k := by
        rw [length_eq_iff.mpr hcount', ← hrows, ← hcols]
        exact Nat.le_of_not_lt hk
      rw [List.getElem?_eq_none hm, List.getElem?_eq_none hn]
  obtain ⟨_, _, _, _⟩ := m
  obtain ⟨_, _, _, _⟩ := n
  obtain rfl := hrows
  obtain rfl := hcols
  obtain rfl := hentries
  rfl

/-- **A matrix has the entries of its rows in these rows**, whatever rows of its width it is put
    together from. -/
theorem get?_eq_cell? (hrows : m.rows = rows.length) (hwidth : ∀ row ∈ rows, row.length = m.cols)
    (hentries : m.entries = rows.flatten) (i j : Nat) : m.get? i j = cell? rows i j := by
  by_cases hj : j < m.cols
  · by_cases hi : i < m.rows
    · rw [get?_of_lt hcount hi hj, hentries, getElem?_flatten_of_width hwidth hj]
    · rw [get?_of_not_lt fun hin => hi hin.1, cell?_eq_none_of_rows (hrows ▸ Nat.le_of_not_lt hi)]
  · rw [get?_of_not_lt fun hin => hj hin.2, cell?_eq_none_of_width hwidth (Nat.le_of_not_lt hj)]

end Counted

-- ── Matrices from rows ────────────────────────────────────────────────────────────

theorem ofEntries_of_length {rows cols : Nat} {entries : List α}
    (h : entries.length = wrapped (rows * cols)) :
    ofEntries rows cols entries = .ok ⟨rows, cols, entries, h⟩ := dif_pos h

/-- A matrix that is made has the size and the entries it is made from. -/
theorem ofEntries_eq_ok_iff {rows cols : Nat} {entries : List α} :
    ofEntries rows cols entries = .ok m ↔ m.rows = rows ∧ m.cols = cols ∧ m.entries = entries := by
  constructor
  · intro h
    rw [ofEntries] at h
    split at h
    · obtain rfl := Except.ok.inj h
      exact ⟨rfl, rfl, rfl⟩
    · cases h
  · rintro ⟨rfl, rfl, rfl⟩
    exact ofEntries_of_length m.length_eq

theorem ofRows_eq (rows : List (List α)) :
    ofRows rows = ofEntries rows.length (firstWidth rows) rows.flatten := by
  cases rows with
  | nil => rfl
  | cons first more => rfl

/-- Rows make a matrix if their entries are as many as if all were as long as the first one. -/
theorem ofRows_eq_ok_iff :
    ofRows rows = .ok m ↔ m.rows = rows.length ∧ m.cols = firstWidth rows
      ∧ m.entries = rows.flatten := by
  rw [ofRows_eq]
  exact ofEntries_eq_ok_iff

/-- Rows that have an entry in every place up to some count have together as many. -/
theorem le_length_flatten_take {count : Nat}
    (h : ∀ i j, j < width → i * width + j < count → (cell? rows i j).isSome) (height : Nat) :
    min count (height * width) ≤ (rows.take height).flatten.length := by
  induction height with
  | zero => rw [Nat.zero_mul, Nat.min_zero]; exact Nat.zero_le _
  | succ height ih =>
      have hnext : ∀ j, (cell? rows height j).isSome → j < rows[height]?.toList.flatten.length := by
        intro j hfound
        obtain ⟨row, hrow, hj⟩ := exists_row_of_cell? hfound
        rw [hrow]
        simpa using hj
      rw [List.take_add_one, List.flatten_append, List.length_append, Nat.succ_mul]
      refine Nat.le_of_not_lt fun hless => ?_
      -- the row that comes next would end before its place in the count is reached
      have hplace := h height rows[height]?.toList.flatten.length (by omega) (by omega)
      exact Nat.lt_irrefl _ (hnext _ hplace)

/-- So they have more than the count, if one of them has an entry in a place behind it. -/
theorem lt_length_flatten {count : Nat}
    (h : ∀ i j, j < width → i * width + j < count → (cell? rows i j).isSome)
    (hfound : (cell? rows i j).isSome) (hbehind : count ≤ i * width + j) :
    count < rows.flatten.length := by
  obtain ⟨row, hrow, hj⟩ := exists_row_of_cell? hfound
  have habove := le_length_flatten_take h i
  have hsplit : rows.take i ++ row :: rows.drop (i + 1) = rows := by
    rw [← List.singleton_append, ← Option.toList_some, ← hrow,
      ← List.drop_eq_getElem?_toList_append, List.take_append_drop]
  rw [← hsplit, List.flatten_append, List.flatten_cons, List.length_append, List.length_append]
  omega

section OfRows

variable (h : ofRows rows = .ok m)

include h

/-- **Entries that stay in their rows can be counted**: where a position wraps, an entry is found twice,
    and so there would have to be more of them than there are. -/
theorem counted_of_get?_eq (hget : ∀ i j, m.get? i j = cell? rows i j) :
    m.rows * m.cols < capacity := by
  obtain ⟨-, hcols, hentries⟩ := ofRows_eq_ok_iff.mp h
  have hlength : rows.flatten.length = wrapped (m.rows * m.cols) := hentries ▸ m.length_eq
  have hfew := wrapped_lt (m.rows * m.cols)
  rw [← hlength] at hfew
  refine Nat.lt_of_not_le fun hover => ?_
  -- the places before the last entry do not wrap, so that each has an entry among the rows
  have hfilled : ∀ i j, j < m.cols → i * m.cols + j < rows.flatten.length →
      (cell? rows i j).isSome := by
    intro i j hj hbefore
    have hi : i < m.rows := by
      refine Nat.lt_of_mul_lt_mul_right (a := m.cols) ?_
      omega
    rw [← hget, get?, if_pos ⟨hi, hj⟩, position, wrapped_of_lt (by omega), hentries,
      isSome_getElem?]
    exact hbefore
  -- the first row is as wide as the matrix, so there is an entry
  have hsome : 0 < rows.flatten.length := by
    have hplaces : 0 < m.rows * m.cols := Nat.lt_of_lt_of_le (by decide) hover
    exact Nat.lt_of_lt_of_le (hcols ▸ Nat.pos_of_mul_pos_left hplaces) firstWidth_le
  -- the first place that wraps has this entry, behind as many places as there are entries
  have hwraps : capacity < m.rows * m.cols := by
    refine Nat.lt_of_le_of_ne hover fun hfull => ?_
    rw [hlength, ← hfull, wrapped, Nat.mod_self] at hsome
    exact Nat.lt_irrefl 0 hsome
  obtain ⟨i, hi, j, hj, hplace⟩ := exists_position hwraps
  have hfound : (cell? rows i j).isSome := by
    rw [← hget, get?, if_pos ⟨hi, hj⟩, position, hplace, wrapped, Nat.mod_self, hentries,
      isSome_getElem?]
    exact hsome
  exact Nat.lt_irrefl _ (lt_length_flatten hfilled hfound (hplace ▸ Nat.le_of_lt hfew))

/-- **Entries stay in their rows just if the rows are equally long.** -/
theorem get?_ofRows_iff : (∀ i j, m.get? i j = cell? rows i j) ↔ Rectangular rows := by
  obtain ⟨hrows, hcols, hentries⟩ := ofRows_eq_ok_iff.mp h
  rw [rectangular_iff, ← hcols]
  constructor
  · -- a row ends where the query finds no entry any more, which is at the same column for all
    intro hget row hrow
    have hcount := counted_of_get?_eq h hget
    obtain ⟨i, hi⟩ := List.getElem?_of_mem hrow
    have hin : i < m.rows := hrows ▸ (List.getElem?_eq_some_iff.mp hi).1
    have hends : ∀ j, j < row.length ↔ j < m.cols := by
      intro j
      rw [← isSome_cell?_iff hi, ← hget, isSome_get?_iff hcount]
      exact and_iff_right hin
    have hle := (not_congr (hends row.length)).mp (Nat.lt_irrefl _)
    have hge := (not_congr (hends m.cols)).mpr (Nat.lt_irrefl _)
    omega
  · intro hwidth
    have hlength : m.entries.length = m.rows * m.cols := by
      rw [hentries, length_flatten_of_width hwidth, hrows]
    exact get?_eq_cell? (length_eq_iff.mp hlength) hrows hwidth hentries

end OfRows

/-- **Which rows make a matrix**: those that have as many entries together as if all were as long as
    the first one, by a product of machine words. Rows of one length are among them, if their
    entries can be counted at all, and of all these only they keep every entry in its row. -/
theorem ofRows_counts (rows : List (List α)) :
    let size := rows.flatten.length
    let full := wrapped (rows.length * firstWidth rows)
    ((∃ m, ofRows rows = .ok m) ↔ size = full)
    ∧ (size ≠ full → ofRows rows = .error (.wrongCount full size))
    ∧ (Rectangular rows → size < capacity → ∃ m, ofRows rows = .ok m)
    ∧ ∀ m, ofRows rows = .ok m →
      m.rows = rows.length ∧ m.cols = firstWidth rows ∧ m.entries = rows.flatten
      ∧ ((∀ i j, m.get? i j = cell? rows i j) ↔ Rectangular rows) := by
  intro size full
  have hok : size = full → ∃ m, ofRows rows = .ok m := by
    intro h
    exact ⟨_, (ofRows_eq rows).trans (ofEntries_of_length h)⟩
  refine ⟨⟨?_, hok⟩, ?_, ?_, ?_⟩
  · rintro ⟨m, hm⟩
    obtain ⟨hrows, hcols, hentries⟩ := ofRows_eq_ok_iff.mp hm
    have hlength := m.length_eq
    rwa [hentries, hrows, hcols] at hlength
  · intro h
    rw [ofRows_eq, ofEntries, dif_neg h]
  · intro h hsize
    have hproduct := length_flatten_of_width (rectangular_iff.mp h)
    refine hok (hproduct.trans (wrapped_of_lt ?_).symm)
    rwa [← hproduct]
  · intro m hm
    obtain ⟨hrows, hcols, hentries⟩ := ofRows_eq_ok_iff.mp hm
    exact ⟨hrows, hcols, hentries, get?_ofRows_iff hm⟩

/-- Two rows of two, and two rows that differ in length and in their number of entries. -/
theorem ofRows_counts_square :
    let square := [[1, 2], [3, 4]]
    (Rectangular square ∧ ∃ m, ofRows square = .ok m ∧ m.rows = 2 ∧ m.cols = 2
      ∧ ∀ i j, m.get? i j = cell? square i j)
    ∧ ofRows [[1], [2, 3]] = .error (.wrongCount 2 3) := by
  intro square
  have heven : Rectangular square := by decide
  obtain ⟨-, -, hmade, hm⟩ := ofRows_counts square
  obtain ⟨m, hbuilt⟩ := hmade heven (by decide)
  obtain ⟨hrows, hcols, -, hget⟩ := hm m hbuilt
  obtain ⟨-, hrefused, -, -⟩ := ofRows_counts [[1], [2, 3]]
  exact ⟨⟨heven, m, hbuilt, hrows, hcols, hget.mpr heven⟩, hrefused (by decide)⟩

/-- **Rows of different lengths make a matrix** if one is as much too long as others are too short,
    and then an entry stands in a row that it was not given in. -/
theorem ragged_rows_accepted :
    let ragged := [[1], [], [2, 3]]
    ¬Rectangular ragged ∧ ∃ m, ofRows ragged = .ok m
      ∧ m.get? 1 0 = some 2 ∧ cell? ragged 1 0 = none := by
  intro ragged
  exact ⟨by decide, ⟨3, 1, [1, 2, 3], rfl⟩, rfl, rfl, rfl⟩

-- ── Rows of a matrix ──────────────────────────────────────────────────────────────

/-- A matrix with columns has its entries in the rows that its slices are. -/
theorem cell?_rowSlices (hcols : 0 < m.cols) (hcount : m.rows * m.cols < capacity) (i j : Nat) :
    cell? m.rowSlices i j = m.get? i j :=
  (get?_eq_cell? hcount (length_rowSlices hcols hcount).symm (length_of_mem_rowSlices hcols hcount)
    (flatten_rowSlices hcols hcount).symm i j).symm

/-- **The slices of a matrix** whose places can be counted: one for each row if there are columns and
    none otherwise, each as long as there are columns, together the entries, and with the entries
    of the rows in these rows. -/
theorem row_slices_agree (m : Matrix α) (hcount : m.rows * m.cols < capacity) :
    m.rowSlices.length = (if m.cols = 0 then 0 else m.rows)
    ∧ (∀ slice ∈ m.rowSlices, slice.length = m.cols)
    ∧ m.rowSlices.flatten = m.entries
    ∧ ∀ i j, cell? m.rowSlices i j = m.get? i j := by
  by_cases hcols : m.cols = 0
  · -- without columns there are no entries, and no slice of none
    have hentries := entries_of_no_cols hcols
    rw [if_pos hcols, rowSlices_of_no_cols hcols]
    refine ⟨rfl, fun slice hslice => absurd hslice List.not_mem_nil, hentries.symm, ?_⟩
    intro i j
    rw [get?_of_not_lt fun hin => Nat.not_lt_zero j (hcols ▸ hin.2)]
    rfl
  · have hpos := Nat.pos_of_ne_zero hcols
    rw [if_neg hcols]
    exact ⟨length_rowSlices hpos hcount, length_of_mem_rowSlices hpos hcount,
      flatten_rowSlices hpos hcount, cell?_rowSlices hpos hcount⟩

/-- Two rows of three, and three rows without columns. -/
theorem row_slices_agree_table :
    let table : Matrix Nat := ⟨2, 3, [1, 2, 3, 4, 5, 6], rfl⟩
    let bare : Matrix Nat := ⟨3, 0, [], rfl⟩
    (table.rows * table.cols < capacity ∧ table.rowSlices.length = 2
      ∧ [4, 5, 6] ∈ table.rowSlices ∧ [4, 5, 6].length = table.cols
      ∧ table.rowSlices.flatten = [1, 2, 3, 4, 5, 6]
      ∧ cell? table.rowSlices 1 2 = some 6 ∧ table.get? 1 2 = some 6)
    ∧ bare.rows * bare.cols < capacity ∧ bare.rowSlices.length = 0 := by
  intro table bare
  have htable : table.rows * table.cols < capacity := by decide
  have hbare : bare.rows * bare.cols < capacity := by decide
  obtain ⟨hcount, hlength, hentries, hcell⟩ := row_slices_agree table htable
  have hslice : [4, 5, 6] ∈ table.rowSlices := by decide
  have hsix : table.get? 1 2 = some 6 := rfl
  exact ⟨⟨htable, hcount, hslice, hlength _ hslice, hentries, (hcell 1 2).trans hsix, hsix⟩,
    hbare, (row_slices_agree bare hbare).1⟩

/-- **Rows without columns have no slices.** -/
theorem columnless_rows_unsliced :
    ∃ m : Matrix Nat, ofEntries 3 0 [] = .ok m ∧ m.rows = 3 ∧ m.rowSlices.length ≠ m.rows := by
  exact ⟨⟨3, 0, [], rfl⟩, rfl, rfl, by decide⟩

end ParamStore.Matrix
