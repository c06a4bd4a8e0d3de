import ParamStore.Codec.Matrix
import ParamStore.Proofs.Codec.Grid
import ParamStore.Proofs.Codec.Vector
import ParamStore.Proofs.Matrix.Slices

/-!
# Rows — the entry texts of a matrix literal

The rows of a matrix literal stand between semicolons and their entries between blanks, so what a
    reader finds there is never empty and holds neither. Such texts, joined in the same way,
    are found again, and in the same rows.

* **`Word`** — a text that can stand in a row; `wordRow_of_mem_rowTokens` says that nothing else is
  found there.
* **`rowTokens_rowsText`** — the rows of joined words.
* **`decode_encode_matrix`**, **`matrix_blocks_read_back`** — a matrix whose entries have words for
  texts, and its upper left blocks, read from its literal.
* **`word_of_read_matrix`** — a matrix that is read from a literal is of that kind.
-/

namespace ParamStore

open Number (capacity)

namespace Literal

/-- A text that can stand in a row. -/
structure Word (text : String) : Prop where
  full : text ≠ ""
  plain : ∀ c ∈ text.toList, Text.isBlank c = false ∧ c ≠ ';'

/-- Whether a text is a word is seen by running through it once. -/
theorem word_iff {text : String} : Word text
    ↔ text ≠ "" ∧ (text.toList.all fun c => !Text.isBlank c && c != ';') = true := by
  rw [List.all_eq_true]
  simp only [Bool.and_eq_true, Bool.not_eq_true', bne_iff_ne]
  exact ⟨fun h => ⟨h.full, h.plain⟩, fun h => ⟨h.1, h.2⟩⟩

instance (text : String) : Decidable (Word text) := decidable_of_iff _ word_iff.symm

/-- A row of words, as a matrix literal has it. -/
structure WordRow (row : List String) : Prop where
  full : row ≠ []
  words : ∀ text ∈ row, Word text

-- ── What a reader finds ───────────────────────────────────────────────────────────

/-- **A reader finds rows of words** in a matrix literal. -/
theorem wordRow_of_mem_rowTokens {cs : List Char} {row : List String} (h : row ∈ rowTokens cs) :
    WordRow row := by
  obtain ⟨text, hmem, rfl⟩ := List.mem_map.mp h
  obtain ⟨htext, hfull⟩ := List.mem_filter.mp hmem
  obtain ⟨part, hpart, rfl⟩ := List.mem_map.mp htext
  obtain ⟨piece, hpiece, rfl⟩ := List.mem_map.mp hpart
  constructor
  · -- a row that is not blank starts with a word
    have hne : (Text.trim (String.ofList piece)).toList ≠ [] := by
      intro hnil
      rw [String.toList_eq_nil_iff.mp hnil] at hfull
      exact absurd hfull (by decide)
    obtain ⟨c, cs, hcs⟩ := List.exists_cons_of_ne_nil hne
    have htrimmed := Text.trimmed_trimChars (String.ofList piece).toList
    rw [← Text.toList_trim, hcs] at htrimmed
    exact Text.words_ne_nil hcs (htrimmed.1 c rfl)
  · intro word hword
    obtain ⟨hne, hchars⟩ := Text.mem_words hword
    constructor
    · exact hne
    · intro c hc
      obtain ⟨hblank, hmem⟩ := hchars c hc
      rw [Text.toList_trim, String.toList_ofList] at hmem
      have huncut := Text.uncut_of_mem_pieces hpiece c (Text.mem_of_mem_trimChars hmem)
      exact ⟨hblank, of_decide_eq_false huncut⟩

-- ── What a writer puts there ──────────────────────────────────────────────────────

/-- The text of a row. -/
def rowText (row : List String) : String := String.intercalate " " row

theorem words_rowText {row : List String} (h : WordRow row) :
    Text.words (rowText row) = row := by
  refine Text.words_intercalate ?_
  intro text htext
  have hword := h.words text htext
  exact ⟨hword.full, fun c hc => (hword.plain c hc).1⟩

theorem Word.toList_ne_nil {text : String} (h : Word text) : text.toList ≠ [] := by
  intro hnil
  exact h.full (String.toList_eq_nil_iff.mp hnil)

theorem Word.trimmed {text : String} (h : Word text) : Text.Trimmed text.toList := by
  constructor
  · intro c hc
    exact (h.plain c (List.mem_of_mem_head? hc)).1
  · intro c hc
    exact (h.plain c (List.mem_of_mem_getLast? hc)).1

/-- The text of a row is trimmed. -/
theorem trimmed_rowText {row : List String} (h : WordRow row) :
    Text.Trimmed (rowText row).toList := by
  rw [rowText, String.toList_intercalate]
  refine Text.trimmed_intercalate ?_
  intro part hpart
  obtain ⟨text, htext, rfl⟩ := List.mem_map.mp hpart
  exact ⟨(h.words text htext).toList_ne_nil, (h.words text htext).trimmed⟩

/-- The text of a row holds no semicolon. -/
theorem uncut_rowText {row : List String} (h : WordRow row) :
    ∀ c ∈ (rowText row).toList, decide (c = ';') = false := by
  intro c hc
  rw [rowText, String.toList_intercalate] at hc
  rcases Text.mem_intercalate hc with hsep | ⟨part, hpart, hmem⟩
  · obtain rfl := List.mem_singleton.mp hsep
    rfl
  · obtain ⟨text, htext, rfl⟩ := List.mem_map.mp hpart
    exact decide_eq_false ((h.words text htext).plain c hmem).2

theorem rowText_ne_empty {row : List String} (h : WordRow row) : rowText row ≠ "" := by
  intro hempty
  have hwords := words_rowText h
  rw [hempty] at hwords
  exact h.full hwords.symm

/-- The text between the brackets of a matrix. -/
def rowsText (rows : List (List String)) : String := String.intercalate "; " (rows.map rowText)

section Rows

variable {rows : List (List String)} (h : ∀ row ∈ rows, WordRow row)

include h

/-- The pieces between the semicolons of joined rows are the rows' texts, spread. -/
theorem pieces_rowsText (hne : rows ≠ []) :
    Text.pieces (· = ';') (rowsText rows).toList
      = spread ((rows.map rowText).map String.toList) := by
  rw [rowsText, String.toList_intercalate]
  have hjoin := intercalate_spread ((rows.map rowText).map String.toList)
  refine (congrArg _ hjoin.symm).trans (Text.pieces_intercalate (by decide) ?_ ?_)
  · exact spread_ne_nil (by simpa using hne)
  · intro part hpart
    obtain ⟨entry, hentry, hspread⟩ := mem_spread hpart
    obtain ⟨text, htext, rfl⟩ := List.mem_map.mp hentry
    obtain ⟨row, hrow, rfl⟩ := List.mem_map.mp htext
    have huncut := uncut_rowText (h row hrow)
    rcases hspread with rfl | rfl
    · exact huncut
    · exact List.forall_mem_cons.mpr ⟨rfl, huncut⟩

/-- Trimmed, these pieces are the rows' texts. -/
theorem map_trim_split_rowsText (hne : rows ≠ []) :
    (Text.split (· = ';') (rowsText rows)).map Text.trim = rows.map rowText := by
  have htrimmed : ∀ part ∈ (rows.map rowText).map String.toList, Text.Trimmed part := by
    intro part hpart
    obtain ⟨text, htext, rfl⟩ := List.mem_map.mp hpart
    obtain ⟨row, hrow, rfl⟩ := List.mem_map.mp htext
    exact trimmed_rowText (h row hrow)
  have htrim : ∀ part, Text.trim (String.ofList part) = String.ofList (Text.trimChars part) := by
    intro part
    rw [Text.trim, String.toList_ofList]
  rw [Text.split, pieces_rowsText h hne, List.map_map]
  refine (List.map_congr_left fun part _ => htrim part).trans ?_
  rw [map_trim_spread htrimmed, List.map_map]
  exact List.map_id'' (fun _ => String.ofList_toList) _

/-- **Joined rows are found again.** -/
theorem rowTokens_rowsText : rowTokens (rowsText rows).toList = rows := by
  by_cases hne : rows = []
  · subst hne
    rfl
  · have hfull : ∀ text ∈ rows.map rowText, (!text.isEmpty) = true := by
      intro text htext
      obtain ⟨row, hrow, rfl⟩ := List.mem_map.mp htext
      simpa using rowText_ne_empty (h row hrow)
    rw [rowTokens, String.ofList_toList, map_trim_split_rowsText h hne,
      List.filter_eq_self.mpr hfull, List.map_map]
    exact (List.map_congr_left fun row hrow => words_rowText (h row hrow)).trans (List.map_id _)

end Rows

-- ── The block of a literal ────────────────────────────────────────────────────────

/-- A literal's block has the words of its rows, and no columns only if it has no rows. -/
theorem word_of_blockTokens {raw : String} {cs : List Char} (hinner : inner raw = .ok (some cs))
    {block : Block} (h : blockTokens raw 0 0 = .ok block) :
    (∀ text ∈ block.texts, Word text)
      ∧ (block.rows = 0 ∧ block.cols = 0 ∨ 0 < block.rows ∧ 0 < block.cols) := by
  rcases blockTokens_cases h with ⟨hplain, -⟩ | ⟨cs', hinner', hgranted, rfl⟩
  · rw [hinner] at hplain
    cases hplain
  · obtain rfl : cs = cs' := Option.some.inj (Except.ok.inj (hinner.symm.trans hinner'))
    constructor
    · intro text htext
      obtain ⟨row, hrow, hmem⟩ := List.mem_flatten.mp htext
      obtain ⟨whole, hwhole, rfl⟩ := List.mem_map.mp hrow
      have hfound := wordRow_of_mem_rowTokens (List.mem_of_mem_take hwhole)
      exact hfound.words text (List.mem_of_mem_take hmem)
    · dsimp only
      by_cases hne : rowTokens cs = []
      · rw [hne]
        exact .inl ⟨rfl, rfl⟩
      · have hwidth := granted_zero_iff.mp hgranted
        obtain ⟨row, hrow⟩ := List.exists_mem_of_ne_nil _ hne
        have hpos := List.length_pos_iff.mpr (wordRow_of_mem_rowTokens hrow).full
        rw [takenWidth_of_width hwidth hne, requested_zero, requested_zero, ← hwidth row hrow]
        exact .inr ⟨List.length_pos_iff.mpr hne, hpos⟩

end Literal

-- ── Matrices ──────────────────────────────────────────────────────────────────────

section Matrices

variable {α : Type} [Codec α]

/-- The rows of a matrix as texts. -/
def Matrix.rowTexts (m : Matrix α) : List (List String) :=
  m.rowSlices.map fun row => row.map Codec.encode

/-- The brackets of a matrix literal enclose its rows. -/
theorem toList_encode_matrix (m : Matrix α) :
    (Codec.encode m).toList = '[' :: ((Literal.rowsText m.rowTexts).toList ++ [']']) := by
  have hencode : Codec.encode m = "[" ++ Literal.rowsText m.rowTexts ++ "]" := by
    rw [Literal.rowsText, Matrix.rowTexts, List.map_map]
    rfl
  rw [hencode, String.toList_append, String.toList_append]
  rfl

variable {m : Matrix α} (hrows : 0 < m.rows) (hcols : 0 < m.cols)
  (hcount : m.rows * m.cols < capacity)
  (hword : ∀ a ∈ m.entries, Literal.Word (Codec.encode a))

include hcols hcount in
theorem Matrix.flatten_rowTexts : m.rowTexts.flatten = m.entries.map Codec.encode := by
  rw [Matrix.rowTexts, ← List.map_flatten, Matrix.flatten_rowSlices hcols hcount]

include hcols hcount in
theorem Matrix.length_of_mem_rowTexts : ∀ row ∈ m.rowTexts, row.length = m.cols := by
  intro row hrow
  obtain ⟨slice, hslice, rfl⟩ := List.mem_map.mp hrow
  rw [List.length_map, Matrix.length_of_mem_rowSlices hcols hcount slice hslice]

include hcols hcount hword in
theorem Matrix.wordRow_of_mem_rowTexts : ∀ row ∈ m.rowTexts, Literal.WordRow row := by
  intro row hrow
  constructor
  · refine List.ne_nil_of_length_pos ?_
    rwa [Matrix.length_of_mem_rowTexts hcols hcount row hrow]
  · intro text htext
    have hmem := List.mem_flatten.mpr ⟨row, hrow, htext⟩
    rw [Matrix.flatten_rowTexts hcols hcount] at hmem
    obtain ⟨a, ha, rfl⟩ := List.mem_map.mp hmem
    exact hword a ha

include hcols hcount in
theorem Matrix.length_rowTexts : m.rowTexts.length = m.rows := by
  rw [Matrix.rowTexts, List.length_map, Matrix.length_rowSlices hcols hcount]

include hcols hcount in
/-- The text in each place is that of the entry there. -/
theorem Matrix.cell?_rowTexts (i j : Nat) :
    cell? m.rowTexts i j = (m.get? i j).map Codec.encode := by
  rw [Matrix.rowTexts, cell?_map, cell?_rowSlices hcols hcount]

include hrows hcols hcount hword in
/-- **The block that a request for no more than there is reads** from the literal of a matrix. -/
theorem decode_encode_matrix (hread : ∀ a ∈ m.entries, Codec.read (Codec.encode a) = .ok a)
    {rows cols : Nat} (hr : rows ≤ m.rows) (hc : cols ≤ m.cols) :
    ∃ block : Matrix α, Codec.decode (Codec.encode m) (.matrix rows cols) = .ok block
      ∧ block.rows = Literal.requested rows m.rows ∧ block.cols = Literal.requested cols m.cols
      ∧ ∀ i < block.rows, ∀ j < block.cols, block.get? i j = m.get? i j := by
  have hwidth := Matrix.length_of_mem_rowTexts hcols hcount
  have hheight := Matrix.length_rowTexts hcols hcount
  have hne : m.rowTexts ≠ [] := List.ne_nil_of_length_pos (hheight ▸ hrows)
  have htokens := Literal.rowTokens_rowsText (Matrix.wordRow_of_mem_rowTexts hcols hcount hword)
  have hgranted := Literal.granted_of_width hwidth (hheight.symm ▸ hr) hc
  -- the block is no larger than the matrix
  have hfew : Literal.requested rows m.rows * Literal.requested cols m.cols < capacity := by
    refine Nat.lt_of_le_of_lt (Nat.mul_le_mul ?_ ?_) hcount
    · exact Literal.requested_le hr
    · exact Literal.requested_le hc
  rw [← hheight, ← Literal.takenWidth_of_width hwidth hne rows cols, ← htokens] at hfew
  rw [← htokens] at hgranted
  obtain ⟨text, htext, hgrid⟩ :=
    readsGrid_of_granted (α := α) (Literal.inner_enclosed (toList_encode_matrix m)) hgranted hfew
  rw [htokens, Literal.takenWidth_of_width hwidth hne, hheight] at htext hgrid
  -- what stands in a place is the text of the entry there, and so it is read as this entry
  have hentry : ∀ i < Literal.requested rows m.rows, ∀ j < Literal.requested cols m.cols,
      ∃ a, m.get? i j = some a ∧ Codec.read (text i j) = .ok a := by
    intro i hi j hj
    have hplace := htext i hi j hj
    rw [Matrix.cell?_rowTexts hcols hcount] at hplace
    obtain ⟨a, hget, ha⟩ := Option.map_eq_some_iff.mp hplace
    exact ⟨a, hget, ha ▸ hread a (Matrix.mem_of_get? hget)⟩
  obtain ⟨block, hblock, hheight', hwidth', hvalues⟩ := hgrid.values fun i hi j hj =>
    (hentry i hi j hj).imp fun _ h => h.2
  refine ⟨block, hblock, hheight', hwidth', ?_⟩
  intro i hi j hj
  rw [hheight'] at hi
  rw [hwidth'] at hj
  obtain ⟨a, hget, ha⟩ := hentry i hi j hj
  obtain ⟨a', ha', hget'⟩ := hvalues i hi j hj
  obtain rfl := Except.ok.inj (ha.symm.trans ha')
  rw [hget, hget']

include hrows hcols hcount hword in
/-- **A matrix whose entries have words for texts is read back**, if its entries are. -/
theorem read_encode_matrix (hread : ∀ a ∈ m.entries, Codec.read (Codec.encode a) = .ok a) :
    Codec.read (Codec.encode m) = .ok m := by
  obtain ⟨block, hblock, hheight, hwidth, hentries⟩ :=
    decode_encode_matrix hrows hcols hcount hword hread (Nat.zero_le _) (Nat.zero_le _)
  rw [Literal.requested_zero] at hheight hwidth
  have hcount' : block.rows * block.cols < capacity := by rwa [hheight, hwidth]
  rw [Matrix.eq_of_get?_eq hcount' hheight hwidth hentries] at hblock
  exact hblock

/-- **A matrix and its blocks are read from its literal**, if its places can be counted and each entry
    has a word for a text and is read from it: without a request the matrix, and under a request
    for no more than there is the upper left block of that size. -/
theorem matrix_blocks_read_back (m : Matrix α) (hrows : 1 ≤ m.rows) (hcols : 1 ≤ m.cols)
    (hcount : m.rows * m.cols < capacity)
    (hentries : ∀ a ∈ m.entries,
      Literal.Word (Codec.encode a) ∧ Codec.read (Codec.encode a) = .ok a) :
    Codec.read (Codec.encode m) = .ok m
    ∧ ∀ rows ≤ m.rows, ∀ cols ≤ m.cols, ∃ block : Matrix α,
      Codec.decode (Codec.encode m) (.matrix rows cols) = .ok block
      ∧ block.rows = Literal.requested rows m.rows ∧ block.cols = Literal.requested cols m.cols
      ∧ ∀ i < block.rows, ∀ j < block.cols, block.get? i j = m.get? i j := by
  have hword : ∀ a ∈ m.entries, Literal.Word (Codec.encode a) := fun a ha => (hentries a ha).1
  have hread : ∀ a ∈ m.entries, Codec.read (Codec.encode a) = .ok a :=
    fun a ha => (hentries a ha).2
  constructor
  · exact read_encode_matrix hrows hcols hcount hword hread
  · intro rows hr cols hc
    exact decode_encode_matrix hrows hcols hcount hword hread hr hc

/-- Two rows of three, and the first two columns of both. -/
theorem matrix_blocks_read_back_table :
    let table : Matrix String := ⟨2, 3, ["a", "b", "c", "d", "e", "f"], rfl⟩
    (1 ≤ table.rows ∧ 1 ≤ table.cols ∧ table.rows * table.cols < capacity
      ∧ ∀ a ∈ table.entries, Literal.Word (Codec.encode a) ∧ Codec.read (Codec.encode a) = .ok a)
    ∧ Codec.read (Codec.encode table) = .ok table
    ∧ ∃ block : Matrix String, Codec.decode (Codec.encode table) (.matrix 0 2) = .ok block
      ∧ block.rows = 2 ∧ block.cols = 2 ∧ block.get? 1 1 = some "e" := by
  intro table
  have hword : ∀ a ∈ table.entries, Literal.Word (Codec.encode a) := by decide
  have hentries : ∀ a ∈ table.entries,
      Literal.Word (Codec.encode a) ∧ Codec.read (Codec.encode a) = .ok a :=
    fun a ha => ⟨hword a ha, read_encode_string a⟩
  have hcount : table.rows * table.cols < capacity := by decide
  obtain ⟨hback, hblocks⟩ :=
    matrix_blocks_read_back table (by decide) (by decide) hcount hentries
  obtain ⟨block, hblock, hrows, hcols, hget⟩ := hblocks 0 (by decide) 2 (by decide)
  have hentry : block.get? 1 1 = table.get? 1 1 :=
    hget 1 (hrows ▸ by decide) 1 (hcols ▸ by decide)
  exact ⟨⟨by decide, by decide, hcount, hentries⟩, hback, block, hblock, hrows, hcols, hentry⟩

/-- What is read from a literal: entries that are words, and a column where there is a row. -/
theorem word_of_read_matrix {raw : String} {cs : List Char} {m : Matrix String}
    (hinner : Literal.inner raw = .ok (some cs)) (h : Codec.read raw = .ok m) :
    (∀ a ∈ m.entries, Literal.Word a)
      ∧ (m.rows = 0 ∧ m.cols = 0 ∨ 0 < m.rows ∧ 0 < m.cols) := by
  obtain ⟨block, hblock, entries, hentries, hbuilt⟩ := decode_matrix_eq_ok_iff.mp h
  obtain ⟨hwords, hfilled⟩ := Literal.word_of_blockTokens hinner hblock
  obtain rfl := Except.ok.inj ((readAll_strings block.texts).symm.trans hentries)
  obtain ⟨hrows, hcols, hcells⟩ := Matrix.ofEntries_eq_ok_iff.mp hbuilt
  rw [hrows, hcols, hcells]
  exact ⟨hwords, hfilled⟩

end Matrices

end ParamStore
