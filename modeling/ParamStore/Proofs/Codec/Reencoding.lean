import ParamStore.Proofs.Codec.Entries
import ParamStore.Proofs.Codec.Rows

/-!
# Re-encoding — which values are read back from the text that is written for them

A value that was read from some text has one text of its own, which the writer gives it. There are
    no quotes in the format, so this text denotes the same value only if the entries do not hold
    what separates entries, and only a literal can promise that: a text without brackets is an
    entry whatever it holds. Which values are read back can be said of the value alone.

* **`read_encode_strings_iff`** — among the lists that are read, those with lasting entries.
* **`read_encode_matrix_iff`** — among the matrices that are read, those whose entries are words.
* **`reencoding_reads_back`** — both, and that what is read from literals is of this kind.
-/

namespace ParamStore

-- ── Lists ─────────────────────────────────────────────────────────────────────────

/-- A list of texts is the list of its entry texts. -/
theorem read_strings_iff {raw : String} {xs : List String} :
    Codec.read raw = .ok xs ↔ Literal.entryTokens raw 0 = .ok xs := by
  rw [Codec.read, decode_list_eq_ok_iff]
  constructor
  · rintro ⟨texts, htokens, hread⟩
    obtain rfl := Except.ok.inj ((readAll_strings texts).symm.trans hread)
    exact htokens
  · exact fun htokens => ⟨xs, htokens, readAll_strings xs⟩

/-- **Among the lists that are read, those with lasting entries are read back.** -/
theorem read_encode_strings_iff {raw : String} {xs : List String} (h : Codec.read raw = .ok xs) :
    Codec.read (Codec.encode xs) = .ok xs ↔ Literal.Lasting xs := by
  have hsame : xs.map Codec.encode = xs := List.map_id'' (fun _ => rfl) xs
  have hencode : Codec.encode xs = Literal.writeEntries xs := congrArg Literal.writeEntries hsame
  rw [read_strings_iff, hencode]
  exact Literal.entryTokens_writeEntries_iff (read_strings_iff.mp h)

-- ── Matrices ──────────────────────────────────────────────────────────────────────

/-- A matrix that is read has a column where it has a row. -/
theorem filled_of_read_matrix {raw : String} {m : Matrix String} (h : Codec.read raw = .ok m) :
    m.rows = 0 ∧ m.cols = 0 ∨ 0 < m.rows ∧ 0 < m.cols := by
  obtain ⟨block, hblock, entries, -, hbuilt⟩ := decode_matrix_eq_ok_iff.mp h
  obtain ⟨hrows, hcols, -⟩ := Matrix.ofEntries_eq_ok_iff.mp hbuilt
  rcases Literal.blockTokens_cases hblock with ⟨-, rfl⟩ | ⟨cs, hinner, -, -⟩
  · exact .inr ⟨hrows ▸ Nat.one_pos, hcols ▸ Nat.one_pos⟩
  · exact (word_of_read_matrix hinner h).2

theorem read_encode_empty : Codec.read (Codec.encode (Matrix.empty : Matrix String))
    = .ok (Matrix.empty : Matrix String) := by rfl

theorem eq_empty_of_size {m : Matrix String} (hrows : m.rows = 0) (hcols : m.cols = 0) :
    m = Matrix.empty := by
  obtain ⟨rows, cols, entries, hlength⟩ := m
  obtain rfl : rows = 0 := hrows
  obtain rfl : cols = 0 := hcols
  obtain rfl : entries = [] := List.length_eq_zero_iff.mp hlength
  rfl

/-- **Among the matrices that are read, those whose entries are words are read back.** -/
theorem read_encode_matrix_iff {raw : String} {m : Matrix String} (h : Codec.read raw = .ok m) :
    Codec.read (Codec.encode m) = .ok m ↔ ∀ text ∈ m.entries, Literal.Word text := by
  constructor
  · -- the text of a matrix is a literal
    intro hread
    exact (word_of_read_matrix (Literal.inner_enclosed (toList_encode_matrix m)) hread).1
  · intro hword
    rcases filled_of_read_matrix h with ⟨hrows, hcols⟩ | ⟨hrows, hcols⟩
    · rw [eq_empty_of_size hrows hcols]
      exact read_encode_empty
    · have hcount : m.rows * m.cols < Number.capacity := counted_of_decode (by decide) h
      exact read_encode_matrix hrows hcols hcount hword fun text _ => read_encode_string text

-- ── Both ──────────────────────────────────────────────────────────────────────────

/-- **Which values are read back from their own text.** A list that was read is exactly if its last
    entry is trimmed and a lone one is ended by a semicolon; it is if it was read from a literal
    with closed inner brackets. A matrix that was read is exactly if no entry is empty or holds
    a blank or a semicolon; it is if it was read from a literal. -/
theorem reencoding_reads_back (raw : String) :
    (∀ xs : List String, Codec.read raw = .ok xs →
      (Codec.read (Codec.encode xs) = .ok xs ↔ Literal.Lasting xs)
      ∧ ∀ cs, Literal.inner raw = .ok (some cs) → Literal.openAfter 0 cs = 0 →
        Codec.read (Codec.encode xs) = .ok xs)
    ∧ ∀ m : Matrix String, Codec.read raw = .ok m →
      (Codec.read (Codec.encode m) = .ok m ↔ ∀ text ∈ m.entries, Literal.Word text)
      ∧ ∀ cs, Literal.inner raw = .ok (some cs) → Codec.read (Codec.encode m) = .ok m := by
  constructor
  · intro xs h
    constructor
    · exact read_encode_strings_iff h
    · intro cs hinner hshut
      have hlasting := Literal.lasting_of_inner hinner hshut (read_strings_iff.mp h)
      exact (read_encode_strings_iff h).mpr hlasting
  · intro m h
    constructor
    · exact read_encode_matrix_iff h
    · intro cs hinner
      exact (read_encode_matrix_iff h).mpr (word_of_read_matrix hinner h).1

/-- One literal that is read as a list and as a matrix, and a text without brackets that is kept as
    a list but not as a matrix. -/
theorem reencoding_reads_back_words :
    let table : Matrix String := ⟨2, 2, ["a", "b", "c", "d"], rfl⟩
    let phrase : Matrix String := ⟨1, 1, ["a b"], rfl⟩
    (Codec.read "[a b; c d]" = .ok ["a b", "c d"]
      ∧ Codec.read (Codec.encode ["a b", "c d"]) = .ok ["a b", "c d"])
    ∧ (Codec.read "[a b; c d]" = .ok table ∧ Codec.read (Codec.encode table) = .ok table)
    ∧ (Codec.read "a b" = .ok ["a b"] ∧ Literal.Lasting ["a b"])
    ∧ (Codec.read "a b" = .ok phrase ∧ Codec.read (Codec.encode phrase) ≠ .ok phrase) := by
  intro table phrase
  obtain ⟨hlist, hmatrix⟩ := reencoding_reads_back "[a b; c d]"
  obtain ⟨hlone, hsingle⟩ := reencoding_reads_back "a b"
  have hinner : Literal.inner "[a b; c d]" = .ok (some "a b; c d".toList) := by rfl
  have hentries : Codec.read "[a b; c d]" = .ok ["a b", "c d"] := by rfl
  have htable : Codec.read "[a b; c d]" = .ok table := by rfl
  have hentry : Codec.read "a b" = .ok ["a b"] := by rfl
  have hphrase : Codec.read "a b" = .ok phrase := by rfl
  refine ⟨⟨hentries, (hlist _ hentries).2 _ hinner (by rfl)⟩,
    ⟨htable, (hmatrix _ htable).2 _ hinner⟩, ⟨hentry, (hlone _ hentry).1.mp (by rfl)⟩,
    ⟨hphrase, fun hread => ?_⟩⟩
  have hword := (hsingle _ hphrase).1.mp hread "a b" List.mem_cons_self
  exact absurd (hword.plain ' ' (by decide)).1 (by decide)

/-- **Not every value is read back**: a text without brackets is one entry, and the text that is
    written for it is read as two, because of the semicolon as a list and of the blank as a
    matrix. -/
theorem separated_text_splits :
    (Codec.read "a;b" = .ok ["a;b"] ∧ Codec.read (Codec.encode ["a;b"]) = .ok ["a", "b"])
    ∧ ∃ phrase pair : Matrix String, pair ≠ phrase
      ∧ Codec.read "a b" = .ok phrase ∧ Codec.read (Codec.encode phrase) = .ok pair := by
  refine ⟨⟨by rfl, by rfl⟩, ⟨1, 1, ["a b"], rfl⟩, ⟨1, 2, ["a", "b"], rfl⟩, by decide, ?_, ?_⟩
  · rfl
  · rfl

end ParamStore
