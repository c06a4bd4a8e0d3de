import ParamStore.Matrix

/-!
# Row slices — the entries of a matrix row by row

Where a machine word can count the places of a matrix, its entries fill its rows, so cutting them
    into slices of the width of a row takes as many slices as there are rows, and nothing is left
    over.

* **`slices_succ`** — the first slice and the others.
* **`length_rowSlices`**, **`length_of_mem_rowSlices`**, **`flatten_rowSlices`** — the number of
  slices, the length of each, and what they are together, if there are columns;
  `rowSlices_of_no_cols` is the other case.
-/

namespace ParamStore.Matrix

variable {α : Type} {width rows : Nat} {xs : List α}

theorem slices_succ (h : xs ≠ []) :
    slices width (rows + 1) xs = xs.take width :: slices width rows (xs.drop width) := by
  cases xs with
  | nil => exact absurd rfl h
  | cons x xs => rfl

/-- Without the first row, the entries fill one row less. -/
theorem length_drop_row (h : xs.length = (rows + 1) * width) :
    (xs.drop width).length = rows * width := by
  rw [List.length_drop, h, Nat.succ_mul, Nat.add_sub_cancel]

theorem length_take_row (h : xs.length = (rows + 1) * width) : (xs.take width).length = width := by
  refine List.length_take_of_le ?_
  rw [h, Nat.succ_mul]
  exact Nat.le_add_left width _

theorem ne_nil_of_length (hwidth : 0 < width) (h : xs.length = (rows + 1) * width) : xs ≠ [] := by
  rintro rfl
  rw [Nat.succ_mul] at h
  exact absurd h (by simp; omega)

theorem length_slices (hwidth : 0 < width) (h : xs.length = rows * width) :
    (slices width rows xs).length = rows := by
  induction rows generalizing xs with
  | zero => rfl
  | succ rows ih =>
      rw [slices_succ (ne_nil_of_length hwidth h), List.length_cons, ih (length_drop_row h)]

theorem flatten_slices (hwidth : 0 < width) (h : xs.length = rows * width) :
    (slices width rows xs).flatten = xs := by
  induction rows generalizing xs with
  | zero =>
      rw [Nat.zero_mul] at h
      exact (List.length_eq_zero_iff.mp h).symm
  | succ rows ih =>
      rw [slices_succ (ne_nil_of_length hwidth h), List.flatten_cons, ih (length_drop_row h),
        List.take_append_drop]

theorem length_of_mem_slices (hwidth : 0 < width) (h : xs.length = rows * width) :
    ∀ row ∈ slices width rows xs, row.length = width := by
  induction rows generalizing xs with
  | zero => exact fun row hrow => absurd hrow List.not_mem_nil
  | succ rows ih =>
      rw [slices_succ (ne_nil_of_length hwidth h)]
      exact List.forall_mem_cons.mpr ⟨length_take_row h, ih (length_drop_row h)⟩

-- ── The rows of a matrix ──────────────────────────────────────────────────────────

variable {m : Matrix α}

theorem rowSlices_eq (hcols : 0 < m.cols) : m.rowSlices = slices m.cols m.rows m.entries := by
  rw [rowSlices, Nat.max_eq_left hcols]

/-- Rows without columns have no entries. -/
theorem entries_of_no_cols (hcols : m.cols = 0) : m.entries = [] := by
  refine List.length_eq_zero_iff.mp ?_
  rw [m.length_eq, hcols, Nat.mul_zero]
  rfl

/-- Where there are no entries, there are no slices. -/
theorem rowSlices_of_no_cols (hcols : m.cols = 0) : m.rowSlices = [] := by
  rw [rowSlices, entries_of_no_cols hcols]
  cases m.rows with
  | zero => rfl
  | succ rows => rfl

section Counted

variable (hcols : 0 < m.cols) (hcount : m.rows * m.cols < Number.capacity)

include hcols hcount

/-- **There are as many slices as rows.** -/
theorem length_rowSlices : m.rowSlices.length = m.rows := by
  rw [rowSlices_eq hcols, length_slices hcols (length_eq_iff.mpr hcount)]

/-- **Every slice is as wide as the matrix.** -/
theorem length_of_mem_rowSlices : ∀ row ∈ m.rowSlices, row.length = m.cols := by
  rw [rowSlices_eq hcols]
  exact length_of_mem_slices hcols (length_eq_iff.mpr hcount)

/-- **The slices together are the entries.** -/
theorem flatten_rowSlices : m.rowSlices.flatten = m.entries := by
  rw [rowSlices_eq hcols, flatten_slices hcols (length_eq_iff.mpr hcount)]

end Counted

end ParamStore.Matrix
