import ParamStore.Proofs.Codec.Extent
import ParamStore.Proofs.Codec.Shape

/-!
# Grids — a matrix that is read place by place

A block of texts is read row by row, and a refusal is that of the first text, in this order, that is
    refused. If the places of the block can be counted, the matrix has in each of them what is
    read from the text there. The texts are always as many as the matrix asks for.

* **`ReadsBlock`** — what comes of the texts of a block; `readsBlock_of_blockTokens` says that a
  matrix is read in this way.
* **`ReadsGrid`** — what comes of a text for each place; `ReadsBlock.grid` says that reading the
  texts row by row comes to this.
* **`readsGrid_of_plain`**, **`readsGrid_of_granted`** — the two kinds of block.
* **`Codec.NeverMiscounts`** — the codecs that refuse no text for its number of entries.
* **`matrix_read_from_any_text`** — every text under every request.
-/

namespace ParamStore

open ParamStore.Matrix (cell? get?_of_lt exists_position before_of_position_lt)
open Number (capacity wrapped wrapped_of_lt)

-- ── Texts row by row ──────────────────────────────────────────────────────────────

section Places

variable {α : Type} [Codec α] {rows cols : Nat} {texts : List String} {text : Nat → Nat → String}
  (hlength : texts.length = rows * cols)
  (htext : ∀ i < rows, ∀ j < cols, texts[i * cols + j]? = some (text i j))

include hlength htext

/-- Each of these texts stands in some place. -/
theorem exists_place {k : Nat} {word : String} (h : texts[k]? = some word) :
    ∃ i < rows, ∃ j < cols, i * cols + j = k ∧ text i j = word := by
  have hk : k < rows * cols := hlength ▸ (List.getElem?_eq_some_iff.mp h).1
  obtain ⟨i, hi, j, hj, rfl⟩ := exists_position hk
  rw [htext i hi j hj] at h
  exact ⟨i, hi, j, hj, rfl, Option.some.inj h⟩

/-- **If what stands in each place is read, so are the texts**, and their values stand in these
    places. -/
theorem readAll_of_places
    (hreads : ∀ i < rows, ∀ j < cols, ∃ a : α, Codec.read (text i j) = .ok a) :
    ∃ entries : List α, readAll texts = .ok entries ∧ entries.length = rows * cols
      ∧ ∀ i < rows, ∀ j < cols,
        ∃ a, Codec.read (text i j) = .ok a ∧ entries[i * cols + j]? = some a := by
  cases hall : (readAll texts : Except Error (List α)) with
  | error e =>
      obtain ⟨front, refused, back, htexts, -, he⟩ := readAll_eq_error_iff.mp hall
      have hrefused : texts[front.length]? = some refused := by
        rw [htexts, List.getElem?_append_right (Nat.le_refl _), Nat.sub_self]
        rfl
      obtain ⟨i, hi, j, hj, -, rfl⟩ := exists_place hlength htext hrefused
      obtain ⟨a, ha⟩ := hreads i hi j hj
      rw [he] at ha
      cases ha
  | ok entries =>
      have hcount := (length_of_readAll hall).trans hlength
      refine ⟨entries, rfl, hcount, ?_⟩
      intro i hi j hj
      have hposition := hcount ▸ Matrix.position_lt hi hj
      obtain ⟨hin, hat⟩ := List.getElem?_eq_some_iff.mp (htext i hi j hj)
      have hread := List.Forall₂.get (readAll_eq_ok_iff.mp hall) hin hposition
      rw [List.get_eq_getElem, List.get_eq_getElem, hat] at hread
      exact ⟨_, hread, List.getElem?_eq_getElem hposition⟩

/-- **The first place whose text is refused** refuses the texts. -/
theorem readAll_of_refused_place {i j : Nat} (hi : i < rows) (hj : j < cols) {e : Error}
    (he : (Codec.read (text i j) : Except Error α) = .error e)
    (hearlier : ∀ i' j', j' < cols → i' < i ∨ i' = i ∧ j' < j →
      ∃ a : α, Codec.read (text i' j') = .ok a) :
    (readAll texts : Except Error (List α)) = .error e := by
  obtain ⟨hin, hat⟩ := List.getElem?_eq_some_iff.mp (htext i hi j hj)
  refine readAll_eq_error_iff.mpr ⟨texts.take (i * cols + j), text i j,
    texts.drop (i * cols + j + 1), ?_, ?_, he⟩
  · rw [← hat, ← List.drop_eq_getElem_cons, List.take_append_drop]
  · intro earlier hmem
    obtain ⟨k, hk⟩ := List.getElem?_of_mem hmem
    have hbefore : k < i * cols + j := by
      have hlt := (List.getElem?_eq_some_iff.mp hk).1
      rw [List.length_take] at hlt
      omega
    rw [List.getElem?_take_of_lt hbefore] at hk
    obtain ⟨i', -, j', hj', rfl, rfl⟩ := exists_place hlength htext hk
    exact hearlier i' j' hj' (before_of_position_lt hj hbefore)

end Places

-- ── A matrix place by place ───────────────────────────────────────────────────────

section Grid

variable {α : Type} [Codec α]

/-- What comes of reading the texts of a block in order: the matrix of its size with a value for each
    of them, or the refusal of the first one that is refused. -/
structure ReadsBlock (rows cols : Nat) (texts : List String)
    (outcome : Except Error (Matrix α)) : Prop where
  values (m : Matrix α) : outcome = .ok m ↔ m.rows = rows ∧ m.cols = cols
    ∧ List.Forall₂ (fun text value => Codec.read text = .ok value) texts m.entries
  refusal (e : Error) : (∃ front text back, texts = front ++ text :: back
    ∧ (∀ earlier ∈ front, ∃ value : α, Codec.read earlier = .ok value)
    ∧ (Codec.read text : Except Error α) = .error e) → outcome = .error e

/-- What comes of reading a text for each place: the matrix of what is read there, or the refusal of
    the first text, row by row, that is refused. -/
structure ReadsGrid (rows cols : Nat) (text : Nat → Nat → String)
    (outcome : Except Error (Matrix α)) : Prop where
  values : (∀ i < rows, ∀ j < cols, ∃ a : α, Codec.read (text i j) = .ok a) →
    ∃ m, outcome = .ok m ∧ m.rows = rows ∧ m.cols = cols
      ∧ ∀ i < rows, ∀ j < cols, ∃ a, Codec.read (text i j) = .ok a ∧ m.get? i j = some a
  refusal : ∀ i < rows, ∀ j < cols, ∀ e, (Codec.read (text i j) : Except Error α) = .error e →
    (∀ i' j', j' < cols → i' < i ∨ i' = i ∧ j' < j → ∃ a : α, Codec.read (text i' j') = .ok a) →
    outcome = .error e

/-- **A block that is read in order is read place by place**, if its places can be counted. -/
theorem ReadsBlock.grid {rows cols : Nat} {texts : List String} {text : Nat → Nat → String}
    {outcome : Except Error (Matrix α)} (h : ReadsBlock rows cols texts outcome)
    (hcount : rows * cols < capacity) (hlength : texts.length = rows * cols)
    (htext : ∀ i < rows, ∀ j < cols, texts[i * cols + j]? = some (text i j)) :
    ReadsGrid rows cols text outcome := by
  constructor
  · intro hreads
    obtain ⟨entries, hall, hentries, hvalues⟩ := readAll_of_places hlength htext hreads
    have hfull : entries.length = wrapped (rows * cols) :=
      hentries.trans (wrapped_of_lt hcount).symm
    refine ⟨⟨rows, cols, entries, hfull⟩,
      (h.values _).mpr ⟨rfl, rfl, readAll_eq_ok_iff.mp hall⟩, rfl, rfl, ?_⟩
    intro i hi j hj
    obtain ⟨a, ha, hat⟩ := hvalues i hi j hj
    exact ⟨a, ha, (get?_of_lt hcount hi hj).trans hat⟩
  · intro i hi j hj e he hearlier
    have hall := readAll_of_refused_place hlength htext hi hj he hearlier
    exact h.refusal e (readAll_eq_error_iff.mp hall)

variable {raw : String} {rows cols : Nat} {block : Literal.Block}

/-- A text that has no block is refused for that. -/
theorem decode_matrix_of_error {e : Error} (h : Literal.blockTokens raw rows cols = .error e) :
    (Codec.decode raw (.matrix rows cols) : Except Error (Matrix α)) = .error e := by
  simp only [Codec.decode, Shape.matrix, h]

theorem decode_matrix_of_readAll_error (h : Literal.blockTokens raw rows cols = .ok block)
    {e : Error} (hall : (readAll block.texts : Except Error (List α)) = .error e) :
    (Codec.decode raw (.matrix rows cols) : Except Error (Matrix α)) = .error e := by
  simp only [Codec.decode, Shape.matrix, h, hall]

/-- **A matrix is read from the texts of its block**, in order. -/
theorem readsBlock_of_blockTokens (h : Literal.blockTokens raw rows cols = .ok block) :
    ReadsBlock (α := α) block.rows block.cols block.texts
      (Codec.decode raw (.matrix rows cols)) := by
  constructor
  · intro m
    rw [decode_matrix_eq_ok_iff]
    constructor
    · rintro ⟨block', hblock, entries, hall, hbuilt⟩
      obtain rfl := Except.ok.inj (h.symm.trans hblock)
      obtain ⟨hrows, hcols, rfl⟩ := Matrix.ofEntries_eq_ok_iff.mp hbuilt
      exact ⟨hrows, hcols, readAll_eq_ok_iff.mp hall⟩
    · rintro ⟨hrows, hcols, hvalues⟩
      exact ⟨block, h, m.entries, readAll_eq_ok_iff.mpr hvalues,
        Matrix.ofEntries_eq_ok_iff.mpr ⟨hrows, hcols, rfl⟩⟩
  · intro e hrefused
    exact decode_matrix_of_readAll_error h (readAll_eq_error_iff.mpr hrefused)

/-- **A text without brackets** stands in every place. -/
theorem readsGrid_of_plain (hinner : Literal.inner raw = .ok none)
    (hcount : max rows 1 * max cols 1 < capacity) :
    ReadsGrid (α := α) (max rows 1) (max cols 1) (fun _ _ => Text.trim raw)
      (Codec.decode raw (.matrix rows cols)) := by
  have hblock := Literal.blockTokens_of_plain hinner rows cols
  rw [wrapped_of_lt hcount] at hblock
  refine (readsBlock_of_blockTokens hblock).grid hcount List.length_replicate ?_
  intro i hi j hj
  exact List.getElem?_replicate_of_lt (Matrix.position_lt hi hj)

/-- **A literal that meets the request** has a word in each place, and is read place by place. -/
theorem readsGrid_of_granted {cs : List Char} (hinner : Literal.inner raw = .ok (some cs))
    (h : ¬Literal.Refused rows cols (Literal.rowTokens cs))
    (hcount : Literal.requested rows (Literal.rowTokens cs).length
      * Literal.takenWidth rows cols (Literal.rowTokens cs) < capacity) :
    ∃ text, (∀ i < Literal.requested rows (Literal.rowTokens cs).length,
        ∀ j < Literal.takenWidth rows cols (Literal.rowTokens cs),
          cell? (Literal.rowTokens cs) i j = some (text i j))
      ∧ ReadsGrid (α := α) (Literal.requested rows (Literal.rowTokens cs).length)
        (Literal.takenWidth rows cols (Literal.rowTokens cs)) text
        (Codec.decode raw (.matrix rows cols)) := by
  have hwidth := Literal.length_of_mem_taken h
  have hblock := Literal.blockTokens_of_granted hinner h
  refine ⟨fun i j => (cell? (Literal.rowTokens cs) i j).getD "", ?_,
    (readsBlock_of_blockTokens hblock).grid hcount (Literal.length_of_blockTokens hblock hcount) ?_⟩
  · intro i hi j hj
    obtain ⟨word, hfound, -⟩ := Literal.exists_cell?_of_taken h hi hj
    dsimp only
    rw [hfound, Option.getD_some]
  · intro i hi j hj
    obtain ⟨word, hfound, htaken⟩ := Literal.exists_cell?_of_taken h hi hj
    dsimp only
    rw [hfound, Option.getD_some]
    exact (Matrix.getElem?_flatten_of_width hwidth hj).trans htaken

end Grid

-- ── Numbers of entries ────────────────────────────────────────────────────────────

/-- A codec whose reader refuses no text for its number of entries, as long as the characters of the text
    can be counted. -/
class Codec.NeverMiscounts (α : Type) [Codec α] : Prop where
  ne_wrongCount (raw : String) (hraw : raw.length < capacity) (shape : Shape)
    (expected found : Nat) :
    (Codec.decode raw shape : Except Error α) ≠ .error (.wrongCount expected found)

open Codec (NeverMiscounts)

instance {α : Type} [Codec α] [Codec.Scalar α] : NeverMiscounts α where
  ne_wrongCount raw _ shape expected found h := by
    obtain ⟨_, _, he⟩ := Codec.Scalar.error_of_decode h
    cases he

section Entries

variable {α : Type} [Codec α] [NeverMiscounts α]

theorem readAll_ne_wrongCount {texts : List String} (htexts : ∀ text ∈ texts, text.length < capacity)
    (expected found : Nat) :
    (readAll texts : Except Error (List α)) ≠ .error (.wrongCount expected found) := by
  intro h
  obtain ⟨front, text, back, rfl, -, he⟩ := readAll_eq_error_iff.mp h
  have htext := htexts text (List.mem_append_right front List.mem_cons_self)
  exact NeverMiscounts.ne_wrongCount text htext .any expected found he

instance : NeverMiscounts (List α) where
  ne_wrongCount raw hraw shape expected found h := by
    simp only [Codec.decode] at h
    split at h
    · next htokens =>
        obtain rfl := Except.error.inj h
        rcases Literal.error_of_entryTokens htokens with he | ⟨_, he⟩
        · cases he
        · cases he
    · next htokens =>
        have htexts := Literal.length_le_of_mem_entryTokens htokens
        exact readAll_ne_wrongCount (fun text hmem => Nat.lt_of_le_of_lt (htexts text hmem) hraw)
          expected found h

instance {n : Nat} : NeverMiscounts (FixedList α n) where
  ne_wrongCount raw hraw shape expected found h := by
    simp only [Codec.decode] at h
    split at h
    · cases h
    · split at h
      · next hlist =>
          obtain rfl := Except.error.inj h
          exact NeverMiscounts.ne_wrongCount (α := List α) raw hraw _ expected found hlist
      · split at h
        · cases h
        · cases h

/-- **A block fills its matrix**, so its number of texts is never wrong. -/
instance : NeverMiscounts (Matrix α) where
  ne_wrongCount raw hraw shape expected found h := by
    cases hblock : Literal.blockTokens raw shape.size shape.cols with
    | error e =>
        obtain rfl := Except.error.inj ((decode_matrix_of_error hblock).symm.trans h)
        rcases Literal.error_of_blockTokens hblock with he | ⟨_, he⟩
        · cases he
        · cases he
    | ok block =>
        cases hall : (readAll block.texts : Except Error (List α)) with
        | error e =>
            obtain rfl := Except.error.inj
              ((decode_matrix_of_readAll_error hblock hall).symm.trans h)
            have htexts := Literal.length_le_of_mem_blockTokens hblock
            exact readAll_ne_wrongCount
              (fun text hmem => Nat.lt_of_le_of_lt (htexts text hmem) hraw) expected found hall
        | ok entries =>
            have hcount := (length_of_readAll hall).trans
              (Literal.length_of_blockTokens_eq hraw hblock)
            have hread := ((readsBlock_of_blockTokens hblock).values
              ⟨block.rows, block.cols, entries, hcount⟩).mpr ⟨rfl, rfl, readAll_eq_ok_iff.mp hall⟩
            cases hread.symm.trans h

end Entries

-- ── Every text ────────────────────────────────────────────────────────────────────

section Outcomes

variable {α : Type} [Codec α]

/-- **A matrix that is read has places that can be counted**, if those of the request can: a literal has
    a text for each of them, and all of them are entries. -/
theorem counted_of_decode {raw : String} {rows cols : Nat} {m : Matrix α}
    (hrange : max rows 1 * max cols 1 < capacity)
    (h : Codec.decode raw (.matrix rows cols) = .ok m) : m.rows * m.cols < capacity := by
  obtain ⟨block, hblock, entries, hall, hbuilt⟩ := decode_matrix_eq_ok_iff.mp h
  obtain ⟨hrows, hcols, rfl⟩ := Matrix.ofEntries_eq_ok_iff.mp hbuilt
  rcases Literal.blockTokens_cases hblock with ⟨-, rfl⟩ | ⟨cs, -, hgranted, rfl⟩
  · rw [hrows, hcols]
    exact hrange
  · refine Matrix.length_eq_iff.mp ?_
    rw [hrows, hcols, length_of_readAll hall]
    exact Literal.length_flatten_taken hgranted

open Literal (Opens Closes Refused requested takenWidth wordRows) in
/-- **What a reader of matrices makes of a text**, whatever is requested that can be counted. A text
    without brackets, trimmed, is read for every place of the request; a bracket alone is
    refused. The rows of a literal are refused if they cannot meet the request, and otherwise its
    words are read place by place. No slice is taken out of range, the number of entries is never
    wrong, and a matrix has an entry, for the query and for an index, exactly within its bounds. -/
theorem matrix_read_from_any_text (raw : String) (rows cols : Nat) (hraw : raw.length < capacity)
    (hrange : max rows 1 * max cols 1 < capacity) :
    let outcome : Except Error (Matrix α) := Codec.decode raw (.matrix rows cols)
    (¬Opens raw → ¬Closes raw →
      ReadsGrid (max rows 1) (max cols 1) (fun _ _ => Text.trim raw) outcome)
    ∧ (¬(Opens raw ↔ Closes raw) → outcome = .error (.malformedLiteral raw))
    ∧ (Opens raw → Closes raw → ∃ cs, (Text.trim raw).toList = '[' :: (cs ++ [']'])
      ∧ (Refused rows cols (wordRows cs) →
        ∃ reason, outcome = .error (.unreadable raw "matrix" reason))
      ∧ (¬Refused rows cols (wordRows cs) →
        let height := requested rows (wordRows cs).length
        let width := takenWidth rows cols (wordRows cs)
        ∃ text, (∀ i < height, ∀ j < width, cell? (wordRows cs) i j = some (text i j))
          ∧ ReadsGrid height width text outcome))
    ∧ Literal.strictBlock raw rows cols = some (Literal.blockTokens raw rows cols)
    ∧ (NeverMiscounts α → ∀ expected found, outcome ≠ .error (.wrongCount expected found))
    ∧ ∀ m, outcome = .ok m → m.entries.length = m.rows * m.cols
      ∧ ∀ i j, ((m.get? i j).isSome ↔ i < m.rows ∧ j < m.cols)
        ∧ (∀ a, m.index i j = .ok a ↔ m.get? i j = some a)
        ∧ ∀ e, m.index i j = .error e
          ↔ ¬(i < m.rows ∧ j < m.cols) ∧ e = .place i j m.rows m.cols := by
  intro outcome
  refine ⟨?_, ?_, ?_, Literal.strictBlock_eq raw rows cols, ?_, ?_⟩
  · intro hopens hcloses
    exact readsGrid_of_plain (Literal.inner_of_plain hopens hcloses) hrange
  · intro hlone
    refine decode_matrix_of_error ?_
    rw [Literal.blockTokens, Literal.inner_of_lone hlone]
  · intro hopens hcloses
    obtain ⟨cs, hcs⟩ := Literal.exists_enclosed hopens hcloses
    have hinner := Literal.inner_of_enclosed hcs
    refine ⟨cs, hcs, ?_, ?_⟩
    · intro hrefused
      rw [← Literal.rowTokens_eq] at hrefused
      obtain ⟨reason, hreason⟩ := Literal.blockTokens_of_refused hinner hrefused
      exact ⟨reason, decode_matrix_of_error hreason⟩
    · rw [← Literal.rowTokens_eq]
      intro hgranted height width
      exact readsGrid_of_granted hinner hgranted (Literal.counted_of_granted hraw hinner hgranted)
  · intro hcodec expected found
    exact NeverMiscounts.ne_wrongCount raw hraw _ expected found
  · intro m hm
    have hcount := counted_of_decode hrange hm
    refine ⟨Matrix.length_eq_iff.mpr hcount, ?_⟩
    intro i j
    exact ⟨Matrix.isSome_get?_iff hcount, fun a => Matrix.index_eq_ok_iff,
      fun e => Matrix.index_eq_error_iff hcount⟩

open Literal (Opens Closes Refused wordRows) in
/-- A text without brackets that fills two rows, an open bracket, rows that differ in length, and
    one literal whose first row is read and whose second is not. -/
theorem matrix_read_from_any_text_switches :
    let unread : Error :=
      .unreadable "maybe" "bool" "expected true/false, 1/0, yes/no or on/off"
    let switches := "[true no; maybe 1]"
    ((¬Opens " on " ∧ ¬Closes " on ") ∧ ∃ m : Matrix Bool,
      Codec.decode " on " (.matrix 2 0) = .ok m ∧ m.rows = 2 ∧ m.cols = 1
        ∧ m.get? 1 0 = some true ∧ m.index 1 0 = .ok true)
    ∧ (¬(Opens "[on" ↔ Closes "[on")
      ∧ (Codec.decode "[on" (.matrix 0 0) : Except Error (Matrix Bool))
        = .error (.malformedLiteral "[on"))
    ∧ (Refused 0 0 (wordRows "on; on off".toList) ∧ ∃ reason,
      (Codec.decode "[on; on off]" (.matrix 0 0) : Except Error (Matrix Bool))
        = .error (.unreadable "[on; on off]" "matrix" reason))
    ∧ (¬Refused 1 2 (wordRows "true no; maybe 1".toList) ∧ ∃ m : Matrix Bool,
      Codec.decode switches (.matrix 1 2) = .ok m ∧ m.rows = 1 ∧ m.cols = 2
        ∧ m.get? 0 1 = some false)
    ∧ (Codec.decode switches (.matrix 2 1) : Except Error (Matrix Bool)) = .error unread
    ∧ (NeverMiscounts Bool ∧ ∀ expected found,
      (Codec.decode switches (.matrix 2 1) : Except Error (Matrix Bool))
        ≠ .error (.wrongCount expected found)) := by
  intro unread switches
  have hshort : switches.length < capacity := by decide
  refine ⟨⟨by decide, ?_⟩, ⟨by decide, ?_⟩, ⟨by decide, ?_⟩, ⟨by decide, ?_⟩, ?_,
    ⟨inferInstance, ?_⟩⟩
  · obtain ⟨hplain, -, -, -, -, hfull⟩ :=
      matrix_read_from_any_text (α := Bool) " on " 2 0 (by decide) (by decide)
    obtain ⟨m, hm, hrows, hcols, hentries⟩ := (hplain (by decide) (by decide)).values
      fun _ _ _ _ => ⟨true, by rfl⟩
    obtain ⟨a, ha, hget⟩ := hentries 1 (by decide) 0 (by decide)
    obtain rfl : true = a := Except.ok.inj (Eq.trans (by rfl) ha)
    obtain ⟨-, hfound⟩ := hfull m hm
    exact ⟨m, hm, hrows, hcols, hget, ((hfound 1 0).2.1 true).mpr hget⟩
  · exact (matrix_read_from_any_text "[on" 0 0 (by decide) (by decide)).2.1 (by decide)
  · obtain ⟨cs, hcs, hrefused, -⟩ :=
      (matrix_read_from_any_text (α := Bool) "[on; on off]" 0 0 (by decide) (by decide)).2.2.1
        (by decide) (by decide)
    obtain rfl : cs = "on; on off".toList := Literal.eq_of_enclosed hcs (by decide)
    exact hrefused (by decide)
  · obtain ⟨cs, hcs, -, hgranted⟩ :=
      (matrix_read_from_any_text (α := Bool) switches 1 2 hshort (by decide)).2.2.1
        (by decide) (by decide)
    obtain rfl : cs = "true no; maybe 1".toList := Literal.eq_of_enclosed hcs (by decide)
    obtain ⟨text, htext, hgrid⟩ := hgranted (by decide)
    have hfirst : "true" = text 0 0 := Option.some.inj (htext 0 (by decide) 0 (by decide))
    have hsecond : "no" = text 0 1 := Option.some.inj (htext 0 (by decide) 1 (by decide))
    have hreads : ∀ i < 1, ∀ j < 2, ∃ a : Bool, Codec.read (text i j) = .ok a := by
      intro i hi j hj
      obtain rfl : i = 0 := by omega
      rcases (by omega : j = 0 ∨ j = 1) with rfl | rfl
      · exact ⟨true, by rw [← hfirst]; rfl⟩
      · exact ⟨false, by rw [← hsecond]; rfl⟩
    obtain ⟨m, hm, hrows, hcols, hentries⟩ := hgrid.values hreads
    obtain ⟨a, ha, hget⟩ := hentries 0 (by decide) 1 (by decide)
    rw [← hsecond] at ha
    obtain rfl : false = a := Except.ok.inj (Eq.trans (by rfl) ha)
    exact ⟨m, hm, hrows, hcols, hget⟩
  · obtain ⟨cs, hcs, -, hgranted⟩ :=
      (matrix_read_from_any_text (α := Bool) switches 2 1 hshort (by decide)).2.2.1
        (by decide) (by decide)
    obtain rfl : cs = "true no; maybe 1".toList := Literal.eq_of_enclosed hcs (by decide)
    obtain ⟨text, htext, hgrid⟩ := hgranted (by decide)
    have hfirst : "true" = text 0 0 := Option.some.inj (htext 0 (by decide) 0 (by decide))
    have hsecond : "maybe" = text 1 0 := Option.some.inj (htext 1 (by decide) 0 (by decide))
    refine hgrid.refusal 1 (by decide) 0 (by decide) unread (by rw [← hsecond]; rfl) ?_
    intro i j hj hbefore
    have hwidth : j < 1 := hj
    obtain ⟨rfl, rfl⟩ : i = 0 ∧ j = 0 := by omega
    exact ⟨true, by rw [← hfirst]; rfl⟩
  · exact (matrix_read_from_any_text switches 2 1 hshort (by decide)).2.2.2.2.1 inferInstance

open Literal (Opens Closes) in
/-- **Blanks around a text without brackets are not read**, not even by a reader that keeps them. -/
theorem outer_blanks_not_read :
    ¬Opens " a " ∧ ¬Closes " a " ∧ (Codec.read " a " : Except Error String) = .ok " a "
    ∧ ∃ m : Matrix String, Codec.decode " a " (.matrix 0 0) = .ok m
      ∧ m.get? 0 0 = some "a" ∧ m.get? 0 0 ≠ some " a " := by
  exact ⟨by decide, by decide, rfl, ⟨1, 1, ["a"], rfl⟩, by rfl, rfl, by decide⟩

end Outcomes

end ParamStore
