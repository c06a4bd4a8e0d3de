import ParamStore.Store.Basic
import ParamStore.Proofs.Codec.Grid
import ParamStore.Proofs.Codec.Size

/-!
# Readings — the brackets of a text decide how it is read, for every reader alike

A text is read in one of three ways. Two brackets make it a literal, whose entries stand between them;
    without either it is a scalar, which is every entry that is requested; with one bracket
    alone it is malformed. Whether a text is a literal is asked in one place and what its brackets
    enclose in another, and both look at the ends of the trimmed text only, so they agree. A list
    and a matrix ask the second question, whatever is requested of them, and so a store that says
    that a key has a vector says how both will read it.

The three readings exclude each other. Texts as entries show it: a literal has no entry as long as
    itself between its brackets, so the text as a whole is not in the list that is read from it,
    whereas a scalar is every entry of its list.

* **`isLiteral_iff`**; **`inner_eq_some_iff`**, **`inner_eq_none_iff`**, **`inner_eq_error_iff`** — the
  two questions.
* **`ReadAsLiteral`**, **`ReadAsScalar`**, **`RefusedAsMalformed`** — the three readings, each of a
  list and of a matrix of one type of entries under one request.
* **`ReadAsLiteral.not_readAsScalar`**, **`ReadAsLiteral.not_refused`** — they exclude each other.
* **`brackets_decide_reading`** — the kinds of texts, and how a stored one is read.
-/

namespace ParamStore

namespace Literal

-- ── The kinds of texts ────────────────────────────────────────────────────────────

section Kinds

variable {raw : String} {cs : List Char}

/-- **A text is a literal if it opens and closes**: no single character does both. -/
theorem isLiteral_iff : isLiteral raw = true ↔ Opens raw ∧ Closes raw := by
  rw [isLiteral, ← Text.toList_trim]
  constructor
  · intro h
    obtain ⟨hfront, hcloses⟩ := Bool.and_eq_true_iff.mp h
    exact ⟨beq_iff_eq.mp (Bool.and_eq_true_iff.mp hfront).2, beq_iff_eq.mp hcloses⟩
  · rintro ⟨hopens, hcloses⟩
    obtain ⟨cs, hcs⟩ := exists_enclosed hopens hcloses
    have htwo : 2 ≤ (Text.trim raw).toList.length := by
      rw [hcs, List.length_cons, List.length_append]
      exact Nat.succ_le_succ (Nat.le_add_left 1 cs.length)
    rw [decide_eq_true htwo, beq_iff_eq.mpr hopens, beq_iff_eq.mpr hcloses]
    rfl

theorem enclosed_iff : (Text.trim raw).toList = '[' :: (cs ++ [']'])
    ↔ Text.trim raw = "[" ++ String.ofList cs ++ "]" := by
  rw [← String.toList_inj, String.toList_append, String.toList_append, @String.toList_ofList cs]
  exact Iff.rfl

/-- **What brackets enclose stands between them**, with nothing but blanks around them. -/
theorem inner_eq_some_iff :
    inner raw = .ok (some cs) ↔ Text.trim raw = "[" ++ String.ofList cs ++ "]" := by
  rw [← enclosed_iff]
  exact ⟨enclosed_of_inner, inner_of_enclosed⟩

/-- A text is a literal exactly if its brackets enclose something, be it empty. -/
theorem isLiteral_iff_inner : isLiteral raw = true ↔ ∃ cs, inner raw = .ok (some cs) := by
  rw [isLiteral_iff]
  rcases inner_cases raw with
    ⟨hopens, hcloses, cs, -, hinner⟩ | ⟨hopens, -, hinner⟩ | ⟨hlone, hinner⟩
  · exact iff_of_true ⟨hopens, hcloses⟩ ⟨cs, hinner⟩
  · exact iff_of_false (fun h => hopens h.1) (by simp [hinner])
  · exact iff_of_false (fun h => hlone (iff_of_true h.1 h.2)) (by simp [hinner])

theorem inner_eq_none_iff : inner raw = .ok none ↔ ¬Opens raw ∧ ¬Closes raw := by
  rcases inner_cases raw with
    ⟨hopens, -, cs, -, hinner⟩ | ⟨hopens, hcloses, hinner⟩ | ⟨hlone, hinner⟩
  · exact iff_of_false (by simp [hinner]) fun h => h.1 hopens
  · exact iff_of_true hinner ⟨hopens, hcloses⟩
  · exact iff_of_false (by simp [hinner]) fun h => hlone (iff_of_false h.1 h.2)

/-- **All other texts are refused, as they were given.** -/
theorem inner_eq_error_iff {e : Error} : inner raw = .error e
    ↔ e = .malformedLiteral raw ∧ isLiteral raw = false ∧ (Opens raw ∨ Closes raw) := by
  rw [← Bool.not_eq_true, isLiteral_iff]
  rcases inner_cases raw with
    ⟨hopens, hcloses, cs, -, hinner⟩ | ⟨hopens, hcloses, hinner⟩ | ⟨hlone, hinner⟩
  · exact iff_of_false (by simp [hinner]) fun h => h.2.1 ⟨hopens, hcloses⟩
  · exact iff_of_false (by simp [hinner]) fun h => h.2.2.elim hopens hcloses
  · have hone : Opens raw ∨ Closes raw := by
      by_contra hnone
      obtain ⟨hopens, hcloses⟩ := not_or.mp hnone
      exact hlone (iff_of_false hopens hcloses)
    rw [hinner]
    constructor
    · intro h
      exact ⟨(Except.error.inj h).symm, fun hboth => hlone (iff_of_true hboth.1 hboth.2), hone⟩
    · rintro ⟨rfl, -⟩
      rfl

end Kinds

-- ── Entries between brackets ──────────────────────────────────────────────────────

/-- **No entry of a literal is the whole literal.** -/
theorem ne_trim_of_mem_entriesOf {raw : String} {cs : List Char}
    (h : Text.trim raw = "[" ++ String.ofList cs ++ "]") {text : String} (hmem : text ∈ entriesOf cs) :
    text ≠ Text.trim raw := by
  rintro rfl
  have hlength := (sublist_of_mem_entriesOf hmem).length_le
  rw [enclosed_iff.mpr h, List.length_cons, List.length_append] at hlength
  omega

/-- How many entries a scalar is under a requested size; without a request a blank one is none. -/
def copies (raw : String) (size : Nat) : Nat :=
  if size = 0 then (if (Text.trim raw).isEmpty then 0 else 1) else size

/-- A text that is not blank is an entry. -/
theorem copies_pos {raw : String} (h : (Text.trim raw).isEmpty = false) (size : Nat) :
    0 < copies raw size := by
  rw [copies, h]
  split
  · exact Nat.one_pos
  · next hsize => exact Nat.pos_of_ne_zero hsize

/-- A scalar is each of its entries. -/
theorem entryTokens_of_scalar {raw : String} (hinner : inner raw = .ok none) (size : Nat) :
    entryTokens raw size = .ok (List.replicate (copies raw size) (Text.trim raw)) := by
  rw [copies]
  by_cases hsize : size = 0
  · rw [entryTokens, hinner, if_pos hsize]
    dsimp only
    rw [if_pos hsize]
    split
    · rfl
    · rfl
  · rw [if_neg hsize]
    exact entryTokens_of_plain hinner hsize

end Literal

-- ── The three readings ────────────────────────────────────────────────────────────

open Number (wrapped)
open Literal (inner isLiteral Opens Closes entriesOf wordRows Refused requested takenWidth taken
  copies)

section Readings

variable (α : Type) [Codec α]

/-- A text is read as the literal of what stands between its brackets: a list from the entries there, of
    which a request takes the first ones, and a matrix from the rows of words there, of which a
    request takes the upper left block. What has too few of them is refused for that. -/
structure ReadAsLiteral (cs : List Char) (raw : String) (shape : Shape) : Prop where
  enclosed : Text.trim raw = "[" ++ String.ofList cs ++ "]"
  few : (entriesOf cs).length < shape.size → ∃ reason,
    (Codec.decode raw shape : Except Error (List α)) = .error (.unreadable raw "vector" reason)
  entries : shape.size ≤ (entriesOf cs).length →
    ReadsEach ((entriesOf cs).take (requested shape.size (entriesOf cs).length))
      (Codec.decode raw shape : Except Error (List α))
  refused : Refused shape.size shape.cols (wordRows cs) → ∃ reason,
    (Codec.decode raw shape : Except Error (Matrix α)) = .error (.unreadable raw "matrix" reason)
  block : ¬Refused shape.size shape.cols (wordRows cs) →
    ReadsBlock (requested shape.size (wordRows cs).length)
      (takenWidth shape.size shape.cols (wordRows cs))
      (taken shape.size shape.cols (wordRows cs)).flatten
      (Codec.decode raw shape : Except Error (Matrix α))

/-- A text is read as a scalar: the text itself, without the blanks around it, is every entry of a list
    and of a matrix. -/
structure ReadAsScalar (raw : String) (shape : Shape) : Prop where
  entries : ReadsEach (List.replicate (copies raw shape.size) (Text.trim raw))
    (Codec.decode raw shape : Except Error (List α))
  block : ReadsBlock (max shape.size 1) (max shape.cols 1)
    (List.replicate (wrapped (max shape.size 1 * max shape.cols 1)) (Text.trim raw))
    (Codec.decode raw shape : Except Error (Matrix α))

/-- A text is refused as malformed, with the text as it was given. -/
structure RefusedAsMalformed (raw : String) (shape : Shape) : Prop where
  list : (Codec.decode raw shape : Except Error (List α)) = .error (.malformedLiteral raw)
  matrix : (Codec.decode raw shape : Except Error (Matrix α)) = .error (.malformedLiteral raw)

variable {raw : String} {cs : List Char} (shape : Shape)

/-- **What brackets enclose is read as a literal.** -/
theorem readAsLiteral_of_inner (hinner : inner raw = .ok (some cs)) :
    ReadAsLiteral α cs raw shape where
  enclosed := Literal.inner_eq_some_iff.mp hinner
  few := decode_list_of_few hinner
  entries hsize := by
    by_cases hnone : shape.size = 0
    · have htokens := Literal.entryTokens_zero hinner
      rw [← hnone] at htokens
      rw [decode_list htokens, hnone, Literal.requested_zero, List.take_length]
      exact readsEach_readAll _
    · rw [decode_list_of_enough hinner hnone hsize,
        Literal.requested_of_pos (Nat.pos_of_ne_zero hnone)]
      exact readsEach_readAll _
  refused hrefused := by
    rw [← Literal.rowTokens_eq] at hrefused
    obtain ⟨reason, hreason⟩ := Literal.blockTokens_of_refused hinner hrefused
    exact ⟨reason, decode_matrix_of_error hreason⟩
  block := by
    rw [← Literal.rowTokens_eq]
    exact fun hgranted => readsBlock_of_blockTokens (Literal.blockTokens_of_granted hinner hgranted)

/-- **A text without brackets is read as a scalar.** -/
theorem readAsScalar_of_inner (hinner : inner raw = .ok none) : ReadAsScalar α raw shape where
  entries := by
    rw [decode_list (Literal.entryTokens_of_scalar hinner shape.size)]
    exact readsEach_readAll _
  block := readsBlock_of_blockTokens (Literal.blockTokens_of_plain hinner _ _)

/-- **What is refused for its brackets is refused by every reader.** -/
theorem refusedAsMalformed_of_inner (hinner : inner raw = .error (.malformedLiteral raw)) :
    RefusedAsMalformed α raw shape where
  list := decode_list_of_error (by rw [Literal.entryTokens, hinner])
  matrix := decode_matrix_of_error (by rw [Literal.blockTokens, hinner])

end Readings

-- ── No two at once ────────────────────────────────────────────────────────────────

section Exclusion

variable {raw : String} {cs : List Char} {shape : Shape}

/-- Texts as entries are read as they are. -/
theorem ReadsEach.strings {texts : List String} {outcome : Except Error (List String)}
    (h : ReadsEach texts outcome) : outcome = .ok texts :=
  (h.values texts).mpr (readAll_eq_ok_iff.mp (readAll_strings texts))

/-- **A literal is not read as a scalar.** -/
theorem ReadAsLiteral.not_readAsScalar (h : ReadAsLiteral String cs raw shape) :
    ¬ReadAsScalar String raw shape := by
  intro hscalar
  have hcopies := hscalar.entries.strings
  by_cases hsize : shape.size ≤ (entriesOf cs).length
  · -- a scalar is an entry of its list, and so the whole text stood between the brackets
    have hentries := Except.ok.inj ((h.entries hsize).strings.symm.trans hcopies)
    have hfull : (Text.trim raw).isEmpty = false := by
      rw [h.enclosed]
      simp
    have hwhole : Text.trim raw ∈ (entriesOf cs).take
        (requested shape.size (entriesOf cs).length) := by
      rw [hentries]
      exact List.mem_replicate.mpr ⟨Nat.ne_of_gt (Literal.copies_pos hfull _), rfl⟩
    exact Literal.ne_trim_of_mem_entriesOf h.enclosed (List.mem_of_mem_take hwhole) rfl
  · obtain ⟨reason, hreason⟩ := h.few (Nat.lt_of_not_le hsize)
    cases hcopies.symm.trans hreason

/-- **A literal is not refused as malformed.** -/
theorem ReadAsLiteral.not_refused (h : ReadAsLiteral String cs raw shape) :
    ¬RefusedAsMalformed String raw shape := by
  intro hmalformed
  by_cases hsize : shape.size ≤ (entriesOf cs).length
  · cases hmalformed.list.symm.trans (h.entries hsize).strings
  · obtain ⟨reason, hreason⟩ := h.few (Nat.lt_of_not_le hsize)
    cases hmalformed.list.symm.trans hreason

/-- **Literals are what is read as a literal.** -/
theorem isLiteral_iff_read (raw : String) (shape : Shape) : isLiteral raw = true
    ↔ ∃ cs, ∀ (α : Type) [Codec α], ReadAsLiteral α cs raw shape := by
  constructor
  · intro h
    obtain ⟨cs, hinner⟩ := Literal.isLiteral_iff_inner.mp h
    exact ⟨cs, fun α _ => readAsLiteral_of_inner α shape hinner⟩
  · rintro ⟨cs, h⟩
    exact Literal.isLiteral_iff_inner.mpr ⟨cs, Literal.inner_eq_some_iff.mpr (h String).enclosed⟩

/-- **All other texts are what is read as a scalar, and what is refused as malformed.** -/
theorem isLiteral_eq_false_iff_read (raw : String) (shape : Shape) : isLiteral raw = false
    ↔ (∀ (α : Type) [Codec α], ReadAsScalar α raw shape)
      ∨ ∀ (α : Type) [Codec α], RefusedAsMalformed α raw shape := by
  constructor
  · intro h
    rcases Literal.inner_cases raw with ⟨hopens, hcloses, -⟩ | ⟨-, -, hinner⟩ | ⟨-, hinner⟩
    · rw [Literal.isLiteral_iff.mpr ⟨hopens, hcloses⟩] at h
      cases h
    · exact .inl fun α _ => readAsScalar_of_inner α shape hinner
    · exact .inr fun α _ => refusedAsMalformed_of_inner α shape hinner
  · intro h
    refine Bool.eq_false_iff.mpr fun hliteral => ?_
    obtain ⟨cs, hread⟩ := (isLiteral_iff_read raw shape).mp hliteral
    rcases h with hscalar | hmalformed
    · exact (hread String).not_readAsScalar (hscalar String)
    · exact (hread String).not_refused (hmalformed String)

end Exclusion

-- ── Stored texts ──────────────────────────────────────────────────────────────────

namespace Store

/-- A key has a vector if its text is a literal. -/
theorem hasVector_eq {s : Store} {key raw : String} (h : s.tree.get? key = some raw) :
    s.hasVector key = isLiteral raw := by
  rw [hasVector, h]

/-- **The brackets of a text decide how it is read.** It is a literal exactly if brackets enclose
    something, and this is what stands between them in the trimmed text. They enclose nothing exactly
    if the trimmed text neither starts with one nor ends with one, and all other texts are refused
    as they were given. So a stored text is a vector for the store exactly if, for every type of
    entries and whatever is requested, lists and matrices are read from it as from a literal; if it
    is none, it is read as a scalar or refused as malformed, and of a vector neither is true. -/
theorem brackets_decide_reading (raw : String) :
    (isLiteral raw = true ↔ ∃ cs, inner raw = .ok (some cs))
    ∧ (∀ cs, inner raw = .ok (some cs) ↔ Text.trim raw = "[" ++ String.ofList cs ++ "]")
    ∧ (inner raw = .ok none ↔ ¬Opens raw ∧ ¬Closes raw)
    ∧ (∀ e, inner raw = .error e
      ↔ e = .malformedLiteral raw ∧ isLiteral raw = false ∧ (Opens raw ∨ Closes raw))
    ∧ ∀ (s : Store) (key : String), s.tree.get? key = some raw → ∀ shape : Shape,
      (s.hasVector key = true
        ↔ ∃ cs, ∀ (α : Type) [Codec α], ReadAsLiteral α cs raw shape)
      ∧ (s.hasVector key = false
        ↔ (∀ (α : Type) [Codec α], ReadAsScalar α raw shape)
          ∨ ∀ (α : Type) [Codec α], RefusedAsMalformed α raw shape) := by
  refine ⟨Literal.isLiteral_iff_inner, fun _ => Literal.inner_eq_some_iff,
    Literal.inner_eq_none_iff, fun _ => Literal.inner_eq_error_iff, ?_⟩
  intro s key hstored shape
  rw [hasVector_eq hstored]
  exact ⟨isLiteral_iff_read raw shape, isLiteral_eq_false_iff_read raw shape⟩

/-- A store with a literal whose entries are literals themselves, a bracket alone, and a scalar of one
    character, the latter two read for more than there is. -/
theorem brackets_decide_reading_each :
    let literal := " [[é]; [b]] "
    let malformed := "]"
    let scalar := " é"
    let s := ofTree (.node [("l", literal), ("m", malformed), ("s", scalar)] []) .quiet
    (s.tree.get? "l" = some literal ∧ inner literal = .ok (some "[é]; [b]".toList)
      ∧ s.hasVector "l" = true
      ∧ ∃ cs, ∀ (α : Type) [Codec α], ReadAsLiteral α cs literal (.matrix 1 0))
    ∧ (s.tree.get? "m" = some malformed ∧ inner malformed = .error (.malformedLiteral malformed)
      ∧ s.hasVector "m" = false
      ∧ ((∀ (α : Type) [Codec α], ReadAsScalar α malformed (.vector 2))
        ∨ ∀ (α : Type) [Codec α], RefusedAsMalformed α malformed (.vector 2)))
    ∧ (s.tree.get? "s" = some scalar ∧ inner scalar = .ok none
      ∧ s.hasVector "s" = false
      ∧ ((∀ (α : Type) [Codec α], ReadAsScalar α scalar (.matrix 2 3))
        ∨ ∀ (α : Type) [Codec α], RefusedAsMalformed α scalar (.matrix 2 3))) := by
  intro literal malformed scalar s
  have hliteral : s.tree.get? "l" = some literal := by decide +kernel
  have hmalformed : s.tree.get? "m" = some malformed := by decide +kernel
  have hscalar : s.tree.get? "s" = some scalar := by decide +kernel
  have hvector : s.hasVector "l" = true := by decide +kernel
  have hnone : s.hasVector "m" = false := by decide +kernel
  have hnone' : s.hasVector "s" = false := by decide +kernel
  obtain ⟨-, henclosed, -, -, hread⟩ := brackets_decide_reading literal
  obtain ⟨-, -, -, herror, hread'⟩ := brackets_decide_reading malformed
  obtain ⟨-, -, hplain, -, hread''⟩ := brackets_decide_reading scalar
  refine ⟨⟨hliteral, ?_, hvector, (hread s "l" hliteral _).1.mp hvector⟩,
    ⟨hmalformed, ?_, hnone, (hread' s "m" hmalformed _).2.mp hnone⟩,
    ⟨hscalar, ?_, hnone', (hread'' s "s" hscalar _).2.mp hnone'⟩⟩
  · exact (henclosed _).mpr (by decide +kernel)
  · exact (herror _).mpr ⟨rfl, by decide +kernel, by decide +kernel⟩
  · exact hplain.mpr (by decide +kernel)

end Store

end ParamStore
