import ParamStore.Codec.Matrix
import ParamStore.Proofs.Codec.Brackets
import ParamStore.Proofs.Matrix.Entries

/-!
# Blocks — what a matrix literal gives under a request

A request names a number of rows and of columns, zero standing for all there are. A literal is refused
    if it has too few rows, or among the rows that are taken one is too short, or, without a
    request, they differ in length. Otherwise the block has the requested size, every
    place in it is a place in the literal, and no row is cut where it has already ended.

* **`wordRows`** — the rows of a literal: the parts between its semicolons that are not blank, each
  with its words; `rowTokens_eq` says that a reader takes these.
* **`blockTokens_of_refused`**, **`blockTokens_of_granted`** — the two outcomes.
* **`strictBlock`** — the block with slices that fail out of range; `strictBlock_eq` says that none
  does.
-/

namespace ParamStore.Literal

open ParamStore.Matrix (cell? firstWidth Rectangular rectangular_iff length_flatten_of_width)
open Number (capacity wrapped wrapped_of_lt)

-- ── Rows and requests ─────────────────────────────────────────────────────────────

/-- The rows of a literal: what stands between semicolons and is not blank, as words. -/
def wordRows (cs : List Char) : List (List String) :=
  ((Text.split (· = ';') (String.ofList cs)).filter
    fun part => part.toList.any fun c => !Text.isBlank c).map Text.words

/-- **A reader takes the rows of the literal.** Trimming a part leaves its words, and something of it
    exactly if it is not blank. -/
theorem rowTokens_eq (cs : List Char) : rowTokens cs = wordRows cs := by
  have hfull : ((fun row : String => !row.isEmpty) ∘ Text.trim)
      = fun part => part.toList.any fun c => !Text.isBlank c := by
    funext part
    rw [Function.comp, Text.isEmpty_trim, List.not_all_eq_any_not]
  have hwords : Text.words ∘ Text.trim = Text.words := by
    funext part
    rw [Function.comp, Text.words_trim]
  rw [rowTokens, List.filter_map, List.map_map, wordRows, hfull, hwords]

/-- What a request takes of all there are; zero takes all. -/
def requested (count all : Nat) : Nat := if count = 0 then all else count

theorem requested_zero (all : Nat) : requested 0 all = all := if_pos rfl

theorem requested_of_pos {count : Nat} (h : 0 < count) (all : Nat) : requested count all = count :=
  if_neg (Nat.ne_of_gt h)

theorem requested_le {count all : Nat} (h : count ≤ all) : requested count all ≤ all := by
  rw [requested]
  split
  · exact Nat.le_refl all
  · exact h

/-- The rows have no common width for a request: one of them is too short, or nothing is requested
    and they differ. -/
def Uneven (cols : Nat) (rows : List (List String)) : Prop :=
  (0 < cols ∧ ∃ row ∈ rows, row.length < cols) ∨ (cols = 0 ∧ ¬Rectangular rows)

instance (cols : Nat) (rows : List (List String)) : Decidable (Uneven cols rows) :=
  inferInstanceAs (Decidable (_ ∨ _))

/-- Rows that are not uneven reach the width that is taken of them. -/
theorem le_length_of_not_uneven {cols : Nat} {rows : List (List String)} (h : ¬Uneven cols rows) :
    ∀ row ∈ rows, requested cols (firstWidth rows) ≤ row.length := by
  obtain ⟨hshort, hragged⟩ := not_or.mp h
  intro row hrow
  by_cases hcols : cols = 0
  · have heven : Rectangular rows := by
      by_contra hne
      exact hragged ⟨hcols, hne⟩
    rw [hcols, requested_zero, rectangular_iff.mp heven row hrow]
  · have hpos := Nat.pos_of_ne_zero hcols
    rw [requested_of_pos hpos]
    by_contra hlt
    exact hshort ⟨hpos, row, hrow, Nat.lt_of_not_le hlt⟩

-- ── The two choices ───────────────────────────────────────────────────────────────

section Choices

variable (raw : String) {rows cols : Nat} {parsed chosen : List (List String)}

theorem chooseRows_of_lt (h : parsed.length < rows) :
    ∃ reason, chooseRows raw rows parsed = .error (.unreadable raw "matrix" reason) := by
  rw [chooseRows, if_neg (by omega), if_pos h]
  exact ⟨_, rfl⟩

theorem chooseRows_of_le (h : rows ≤ parsed.length) :
    chooseRows raw rows parsed = .ok (parsed.take (requested rows parsed.length)) := by
  rw [chooseRows]
  by_cases hrows : rows = 0
  · rw [if_pos hrows, hrows, requested_zero, List.take_length]
  · rw [if_neg hrows, if_neg (Nat.not_lt.mpr h), requested, if_neg hrows]

/-- Without a request the width is that of the first row, if the others have it too. -/
theorem chooseCols_zero (chosen : List (List String)) : chooseCols raw 0 chosen
    = if chosen.any fun row => row.length != firstWidth chosen then
        .error (.unreadable raw "matrix" "rows differ in length")
      else .ok (firstWidth chosen) := by
  cases chosen with
  | nil => rfl
  | cons first more => rfl

theorem any_length_iff :
    (chosen.any fun row => row.length != firstWidth chosen) = true ↔ ¬Rectangular chosen := by
  rw [rectangular_iff, List.any_eq_true]
  simp only [bne_iff_ne, not_forall, exists_prop]

theorem chooseCols_of_uneven (h : Uneven cols chosen) :
    ∃ reason, chooseCols raw cols chosen = .error (.unreadable raw "matrix" reason) := by
  rcases h with ⟨hpos, row, hrow, hlt⟩ | ⟨rfl, hragged⟩
  · have hfound : (chosen.find? fun row => row.length < cols) ≠ none := by
      intro hnone
      exact List.find?_eq_none.mp hnone row hrow (decide_eq_true hlt)
    obtain ⟨short, hshort⟩ := Option.ne_none_iff_exists'.mp hfound
    rw [chooseCols.eq_def, if_neg (Nat.ne_of_gt hpos), hshort]
    exact ⟨_, rfl⟩
  · rw [chooseCols_zero, if_pos (any_length_iff.mpr hragged)]
    exact ⟨_, rfl⟩

theorem chooseCols_of_not_uneven (h : ¬Uneven cols chosen) :
    chooseCols raw cols chosen = .ok (requested cols (firstWidth chosen)) := by
  by_cases hcols : cols = 0
  · subst hcols
    have heven : ¬(chosen.any fun row => row.length != firstWidth chosen) = true := by
      intro hany
      exact h (.inr ⟨rfl, any_length_iff.mp hany⟩)
    rw [chooseCols_zero, if_neg heven, requested_zero]
  · have hpos := Nat.pos_of_ne_zero hcols
    have hnone : (chosen.find? fun row => row.length < cols) = none := by
      refine List.find?_eq_none.mpr ?_
      intro row hrow hshort
      exact h (.inl ⟨hpos, row, hrow, of_decide_eq_true hshort⟩)
    rw [chooseCols.eq_def, if_neg hcols, hnone, requested_of_pos hpos]

end Choices

-- ── The block ─────────────────────────────────────────────────────────────────────

/-- A request that the rows found cannot meet. -/
def Refused (rows cols : Nat) (found : List (List String)) : Prop :=
  found.length < rows ∨ Uneven cols (found.take (requested rows found.length))

instance (rows cols : Nat) (found : List (List String)) : Decidable (Refused rows cols found) :=
  inferInstanceAs (Decidable (_ ∨ _))

/-- The number of columns that a request takes of the rows found. -/
def takenWidth (rows cols : Nat) (found : List (List String)) : Nat :=
  requested cols (firstWidth (found.take (requested rows found.length)))

/-- What a request takes of the rows found. -/
def taken (rows cols : Nat) (found : List (List String)) : List (List String) :=
  (found.take (requested rows found.length)).map (List.take (takenWidth rows cols found))

section Taken

variable {rows cols : Nat} {found : List (List String)} (h : ¬Refused rows cols found)

include h

theorem requested_le_of_granted : requested rows found.length ≤ found.length :=
  requested_le (Nat.not_lt.mp (not_or.mp h).1)

/-- **The rows taken do not end before the width that is taken of them.** -/
theorem takenWidth_le :
    ∀ row ∈ found.take (requested rows found.length), takenWidth rows cols found ≤ row.length :=
  le_length_of_not_uneven (not_or.mp h).2

theorem length_taken : (taken rows cols found).length = requested rows found.length := by
  rw [taken, List.length_map, List.length_take_of_le (requested_le_of_granted h)]

theorem length_of_mem_taken :
    ∀ row ∈ taken rows cols found, row.length = takenWidth rows cols found := by
  intro row hrow
  obtain ⟨whole, hwhole, rfl⟩ := List.mem_map.mp hrow
  exact List.length_take_of_le (takenWidth_le h whole hwhole)

/-- **What is taken fills its places.** -/
theorem length_flatten_taken : (taken rows cols found).flatten.length
    = requested rows found.length * takenWidth rows cols found := by
  rw [length_flatten_of_width (length_of_mem_taken h), length_taken h]

variable {i j : Nat} (hi : i < requested rows found.length) (hj : j < takenWidth rows cols found)

include hi hj

/-- **Every place that is taken is a place of the rows found**, with a text. -/
theorem exists_cell?_of_taken :
    ∃ text, cell? found i j = some text ∧ cell? (taken rows cols found) i j = some text := by
  have hfound : i < found.length := Nat.lt_of_lt_of_le hi (requested_le_of_granted h)
  have htake : (found.take (requested rows found.length))[i]? = some found[i] := by
    rw [List.getElem?_take_of_lt hi, List.getElem?_eq_getElem hfound]
  have hlength : j < found[i].length :=
    Nat.lt_of_lt_of_le hj (takenWidth_le h _ (List.mem_of_getElem? htake))
  have hentry : found[i][j]? = some found[i][j] := List.getElem?_eq_getElem hlength
  refine ⟨found[i][j], ?_, ?_⟩
  · rw [cell?, List.getElem?_eq_getElem hfound, Option.bind_some, hentry]
  · rw [cell?, taken, List.getElem?_map, htake, Option.map_some, Option.bind_some,
      List.getElem?_take_of_lt hj, hentry]

end Taken

section Width

variable {found : List (List String)} {width : Nat} (hwidth : ∀ row ∈ found, row.length = width)

include hwidth

/-- **Rows of one length meet every request for no more than there is.** -/
theorem granted_of_width {rows cols : Nat} (hrows : rows ≤ found.length) (hcols : cols ≤ width) :
    ¬Refused rows cols found := by
  have hchosen : ∀ row ∈ found.take (requested rows found.length), row.length = width :=
    fun row hrow => hwidth row (List.mem_of_mem_take hrow)
  rintro (hlt | ⟨-, row, hrow, hshort⟩ | ⟨-, hragged⟩)
  · omega
  · have := hchosen row hrow
    omega
  · refine hragged fun row hrow other hother => ?_
    rw [hchosen row hrow, hchosen other hother]

/-- Some of these rows have the width of them all. -/
theorem takenWidth_of_width (hne : found ≠ []) (rows cols : Nat) :
    takenWidth rows cols found = requested cols width := by
  obtain ⟨first, more, rfl⟩ := List.exists_cons_of_ne_nil hne
  have hpos : requested rows (first :: more).length ≠ 0 := by
    rw [requested]
    split
    · exact Nat.succ_ne_zero _
    · assumption
  obtain ⟨count, hcount⟩ := Nat.exists_eq_succ_of_ne_zero hpos
  rw [takenWidth, hcount, List.take_succ_cons, firstWidth, hwidth first List.mem_cons_self]

end Width

/-- Without a request it is enough that the rows are equally long. -/
theorem granted_zero_iff {found : List (List String)} :
    ¬Refused 0 0 found ↔ ∀ row ∈ found, row.length = firstWidth found := by
  constructor
  · intro h row hrow
    have heven := not_or.mp (not_or.mp h).2
    rw [requested_zero, List.take_length] at heven
    refine rectangular_iff.mp ?_ row hrow
    by_contra hragged
    exact heven.2 ⟨rfl, hragged⟩
  · exact fun hwidth => granted_of_width hwidth (Nat.zero_le _) (Nat.zero_le _)

section Block

variable {raw : String} {cs : List Char} (hinner : inner raw = .ok (some cs)) {rows cols : Nat}

include hinner

/-- **A request that cannot be met is refused.** -/
theorem blockTokens_of_refused (h : Refused rows cols (rowTokens cs)) :
    ∃ reason, blockTokens raw rows cols = .error (.unreadable raw "matrix" reason) := by
  rw [blockTokens, hinner]
  dsimp only
  by_cases hlt : (rowTokens cs).length < rows
  · obtain ⟨reason, hreason⟩ := chooseRows_of_lt raw hlt
    rw [hreason]
    exact ⟨reason, rfl⟩
  · obtain ⟨reason, hreason⟩ := chooseCols_of_uneven raw (h.resolve_left hlt)
    rw [chooseRows_of_le raw (Nat.not_lt.mp hlt)]
    dsimp only
    rw [hreason]
    exact ⟨reason, rfl⟩

/-- **Any other request takes the upper left block** of its size. -/
theorem blockTokens_of_granted (h : ¬Refused rows cols (rowTokens cs)) :
    blockTokens raw rows cols = .ok ⟨requested rows (rowTokens cs).length,
      takenWidth rows cols (rowTokens cs), (taken rows cols (rowTokens cs)).flatten⟩ := by
  obtain ⟨hlt, heven⟩ := not_or.mp h
  rw [blockTokens, hinner]
  dsimp only
  rw [chooseRows_of_le raw (Nat.not_lt.mp hlt)]
  dsimp only
  rw [chooseCols_of_not_uneven raw heven]
  dsimp only
  rw [List.flatMap_def, List.length_take_of_le (requested_le_of_granted h)]
  rfl

end Block

/-- The block that a text without brackets fills. -/
theorem blockTokens_of_plain {raw : String} (hinner : inner raw = .ok none) (rows cols : Nat) :
    blockTokens raw rows cols = .ok ⟨max rows 1, max cols 1,
      List.replicate (wrapped (max rows 1 * max cols 1)) (Text.trim raw)⟩ := by
  rw [blockTokens, hinner]

/-- **Where a block comes from**: a text without brackets, or a literal with rows that meet the
    request. -/
theorem blockTokens_cases {raw : String} {rows cols : Nat} {block : Block}
    (h : blockTokens raw rows cols = .ok block) :
    (inner raw = .ok none ∧ block = ⟨max rows 1, max cols 1,
      List.replicate (wrapped (max rows 1 * max cols 1)) (Text.trim raw)⟩)
    ∨ ∃ cs, inner raw = .ok (some cs) ∧ ¬Refused rows cols (rowTokens cs)
      ∧ block = ⟨requested rows (rowTokens cs).length, takenWidth rows cols (rowTokens cs),
        (taken rows cols (rowTokens cs)).flatten⟩ := by
  cases hinner : inner raw with
  | error e =>
      rw [blockTokens, hinner] at h
      cases h
  | ok found =>
      cases found with
      | none =>
          rw [blockTokens_of_plain hinner] at h
          exact .inl ⟨rfl, (Except.ok.inj h).symm⟩
      | some cs =>
          refine .inr ⟨cs, rfl, ?_⟩
          by_cases hrefused : Refused rows cols (rowTokens cs)
          · obtain ⟨reason, hreason⟩ := blockTokens_of_refused hinner hrefused
            rw [hreason] at h
            cases h
          · rw [blockTokens_of_granted hinner hrefused] at h
            exact ⟨hrefused, (Except.ok.inj h).symm⟩

/-- **A block has a text for each of its places**, if they can be counted. -/
theorem length_of_blockTokens {raw : String} {rows cols : Nat} {block : Block}
    (h : blockTokens raw rows cols = .ok block) (hcount : block.rows * block.cols < capacity) :
    block.texts.length = block.rows * block.cols := by
  rcases blockTokens_cases h with ⟨-, rfl⟩ | ⟨cs, -, hgranted, rfl⟩
  · dsimp only at hcount ⊢
    rw [List.length_replicate, wrapped_of_lt hcount]
  · exact length_flatten_taken hgranted

/-- **Why there is no block**: a bracket is alone, or the rows do not meet the request. -/
theorem error_of_blockTokens {raw : String} {rows cols : Nat} {e : Error}
    (h : blockTokens raw rows cols = .error e) :
    e = .malformedLiteral raw ∨ ∃ reason, e = .unreadable raw "matrix" reason := by
  cases hinner : inner raw with
  | error e' =>
      rw [blockTokens, hinner] at h
      obtain rfl := Except.error.inj h
      exact .inl (error_of_inner hinner)
  | ok found =>
      cases found with
      | none =>
          rw [blockTokens_of_plain hinner] at h
          cases h
      | some cs =>
          by_cases hrefused : Refused rows cols (rowTokens cs)
          · obtain ⟨reason, hreason⟩ := blockTokens_of_refused hinner hrefused
            rw [hreason] at h
            exact .inr ⟨reason, (Except.error.inj h).symm⟩
          · rw [blockTokens_of_granted hinner hrefused] at h
            cases h

-- ── Slices in range ───────────────────────────────────────────────────────────────

/-- So many entries from the front, if there are so many. -/
def front? {β : Type} (count : Nat) (xs : List β) : Option (List β) :=
  if count ≤ xs.length then some (xs.take count) else none

/-- The block of a text, none if a slice of its rows or of a row were out of range. -/
def strictBlock (raw : String) (rows cols : Nat) : Option (Except Error Block) :=
  match inner raw with
  | .error e => some (.error e)
  | .ok none =>
    let rows := max rows 1
    let cols := max cols 1
    some (.ok ⟨rows, cols, List.replicate (wrapped (rows * cols)) (Text.trim raw)⟩)
  | .ok (some cs) =>
    let found := rowTokens cs
    match chooseRows raw rows found with
    | .error e => some (.error e)
    | .ok _ =>
      (front? (requested rows found.length) found).bind fun chosen =>
        match chooseCols raw cols chosen with
        | .error e => some (.error e)
        | .ok width =>
          (chosen.mapM (front? width)).map fun cut =>
            .ok ⟨requested rows found.length, width, cut.flatten⟩

theorem front?_of_le {β : Type} {count : Nat} {xs : List β} (h : count ≤ xs.length) :
    front? count xs = some (xs.take count) := if_pos h

theorem mapM_front?_of_le {β : Type} {width : Nat} {rows : List (List β)}
    (h : ∀ row ∈ rows, width ≤ row.length) :
    rows.mapM (front? width) = some (rows.map (List.take width)) := by
  induction rows with
  | nil => rfl
  | cons row rows ih =>
      obtain ⟨hrow, hrows⟩ := List.forall_mem_cons.mp h
      rw [List.mapM_cons, front?_of_le hrow, ih hrows]
      rfl

/-- **No slice is out of range**, whatever the text and the request. -/
theorem strictBlock_eq (raw : String) (rows cols : Nat) :
    strictBlock raw rows cols = some (blockTokens raw rows cols) := by
  rw [strictBlock]
  cases hinner : inner raw with
  | error e =>
      rw [blockTokens, hinner]
  | ok found =>
      cases found with
      | none => rw [blockTokens, hinner]
      | some cs =>
          dsimp only
          by_cases hlt : (rowTokens cs).length < rows
          · -- the literal is refused before any slice is taken
            rw [blockTokens, hinner]
            dsimp only
            obtain ⟨reason, hreason⟩ := chooseRows_of_lt raw hlt
            rw [hreason]
          · have hle := Nat.not_lt.mp hlt
            rw [chooseRows_of_le raw hle]
            dsimp only
            rw [front?_of_le (requested_le hle), Option.bind_some]
            by_cases huneven : Uneven cols ((rowTokens cs).take (requested rows (rowTokens cs).length))
            · rw [blockTokens, hinner]
              dsimp only
              obtain ⟨reason, hreason⟩ := chooseCols_of_uneven raw huneven
              rw [chooseRows_of_le raw hle]
              dsimp only
              rw [hreason]
            · rw [chooseCols_of_not_uneven raw huneven]
              dsimp only
              rw [mapM_front?_of_le (le_length_of_not_uneven huneven), Option.map_some,
                blockTokens_of_granted hinner (not_or.mpr ⟨hlt, huneven⟩)]
              rfl

end ParamStore.Literal
