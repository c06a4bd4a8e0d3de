import ParamStore.Proofs.Codec.Shape
import ParamStore.Proofs.Codec.Vector

/-!
# Sizes — what a requested number of entries reads

A requested size is met by the texts of the entries, before any of them is read: a literal with fewer
    is refused as a whole, and of a longer one the texts behind are never looked at, so they may
    be anything. A text without brackets is as many entries as are requested. A list of fixed
    length requests its own length, and so a literal is cut for it as for a list; but zero requests
    nothing, and the list without entries is read from the empty literal only.

* **`decode_list_of_few`**, **`decode_list_of_enough`** — a literal and a requested size.
* **`requested_size_reads_front`** — every text under a requested size.
* **`decode_fixedList_eq`** — a list of fixed length is the list that is read for its length.
* **`fixed_list_cuts_literal`** — a literal that is read as a list, and as a list of fixed length.
-/

namespace ParamStore

-- ── Texts in a row ────────────────────────────────────────────────────────────────

section Texts

variable {α : Type} [Codec α]

/-- Copies of a text are read as copies of its value, if there are any. -/
theorem readAll_replicate {count : Nat} (hcount : count ≠ 0) (text : String) :
    (readAll (List.replicate count text) : Except Error (List α))
      = (Codec.read text).map (List.replicate count) := by
  cases hread : (Codec.read text : Except Error α) with
  | error e =>
      obtain ⟨more, rfl⟩ := Nat.exists_eq_succ_of_ne_zero hcount
      rw [List.replicate_succ, readAll_cons, hread]
      rfl
  | ok value =>
      have hcopies : List.Forall₂ (fun text value => Codec.read text = .ok value)
          (List.replicate count text) (List.replicate count value) := by
        rw [List.forall₂_iff_get]
        simp [hread]
      exact readAll_eq_ok_iff.mpr hcopies

/-- **The first texts are read as the first values.** -/
theorem readAll_take {texts : List String} {xs : List α} (h : readAll texts = .ok xs)
    (count : Nat) : readAll (texts.take count) = .ok (xs.take count) :=
  readAll_eq_ok_iff.mpr (List.forall₂_take count (readAll_eq_ok_iff.mp h))

end Texts

-- ── Texts of the entries ──────────────────────────────────────────────────────────

namespace Literal

/-- A literal with fewer entries than requested is refused. -/
theorem entryTokens_of_lt {raw : String} {cs : List Char} (hinner : inner raw = .ok (some cs))
    {size : Nat} (hsize : (entriesOf cs).length < size) :
    ∃ reason, entryTokens raw size = .error (.unreadable raw "vector" reason) := by
  rw [entryTokens, hinner]
  dsimp only
  rw [if_pos hsize]
  exact ⟨_, rfl⟩

/-- A text without brackets is each of the requested entries. -/
theorem entryTokens_of_plain {raw : String} (hinner : inner raw = .ok none) {size : Nat}
    (hsize : size ≠ 0) : entryTokens raw size = .ok (List.replicate size (Text.trim raw)) := by
  rw [entryTokens, hinner]
  dsimp only
  rw [if_neg hsize]

end Literal

-- ── Lists ─────────────────────────────────────────────────────────────────────────

section Lists

variable {α : Type} [Codec α] {raw : String} {cs : List Char} {shape : Shape}

/-- A text without entries is refused for that. -/
theorem decode_list_of_error {e : Error} (h : Literal.entryTokens raw shape.size = .error e) :
    (Codec.decode raw shape : Except Error (List α)) = .error e := by
  simp only [Codec.decode, h]

section Requested

variable (hinner : Literal.inner raw = .ok (some cs))

include hinner

/-- Without a request all entries of a literal are read. -/
theorem read_list_of_inner :
    (Codec.read raw : Except Error (List α)) = readAll (Literal.entriesOf cs) :=
  decode_list (Literal.entryTokens_zero hinner)

/-- **A literal with fewer entries than requested is refused.** -/
theorem decode_list_of_few (hsize : (Literal.entriesOf cs).length < shape.size) :
    ∃ reason, (Codec.decode raw shape : Except Error (List α))
      = .error (.unreadable raw "vector" reason) := by
  obtain ⟨reason, hreason⟩ := Literal.entryTokens_of_lt hinner hsize
  exact ⟨reason, decode_list_of_error hreason⟩

/-- **Of a literal with enough entries the first ones are read**, and the others are not. -/
theorem decode_list_of_enough (hpos : shape.size ≠ 0)
    (hsize : shape.size ≤ (Literal.entriesOf cs).length) :
    (Codec.decode raw shape : Except Error (List α))
      = readAll ((Literal.entriesOf cs).take shape.size) := by
  have htokens := Literal.entryTokens_of_le hinner hsize
  rw [if_neg hpos] at htokens
  exact decode_list htokens

variable {xs : List α} (hread : Codec.read raw = .ok xs)

include hread

/-- A list has as many values as the literal has entries. -/
theorem length_entriesOf_of_read : (Literal.entriesOf cs).length = xs.length := by
  rw [read_list_of_inner hinner] at hread
  exact (length_of_readAll hread).symm

/-- A literal that is read as a list is read as its first values, if there are enough. -/
theorem decode_list_take (hpos : shape.size ≠ 0) (hsize : shape.size ≤ xs.length) :
    Codec.decode raw shape = .ok (xs.take shape.size) := by
  rw [← length_entriesOf_of_read hinner hread] at hsize
  rw [read_list_of_inner hinner] at hread
  rw [decode_list_of_enough hinner hpos hsize]
  exact readAll_take hread shape.size

end Requested

/-- **A text without brackets is read once** for all of the requested entries. -/
theorem decode_list_of_plain (hinner : Literal.inner raw = .ok none) (hpos : shape.size ≠ 0) :
    (Codec.decode raw shape : Except Error (List α))
      = (Codec.read (Text.trim raw)).map (List.replicate shape.size) := by
  rw [decode_list (Literal.entryTokens_of_plain hinner hpos)]
  exact readAll_replicate hpos (Text.trim raw)

/-- **A list that is read under a requested size has this size.** -/
theorem length_of_decode_list {xs : List α} (h : Codec.decode raw shape = .ok xs)
    (hpos : shape.size ≠ 0) : xs.length = shape.size := by
  obtain ⟨texts, htokens, hvalues⟩ := decode_list_eq_ok_iff.mp h
  rw [length_of_readAll hvalues]
  exact (Literal.length_of_entryTokens htokens).resolve_left hpos

open Literal (Opens Closes entriesOf) in
/-- **What a requested size reads from any text.** A bracket alone is refused; a text without
    brackets is read, trimmed, and the value repeated. Of a literal the entries that are read
    without a request are counted: if there are fewer than requested, it is refused, and otherwise
    exactly the first ones are read, in order. So a list has the requested size, and it is the front
    of the list that is read without a request, if there is one that is long enough. -/
theorem requested_size_reads_front (raw : String) (shape : Shape) (hpos : 1 ≤ shape.size) :
    let outcome : Except Error (List α) := Codec.decode raw shape
    (¬(Opens raw ↔ Closes raw) → outcome = .error (.malformedLiteral raw))
    ∧ (¬Opens raw → ¬Closes raw →
      outcome = (Codec.read (Text.trim raw)).map (List.replicate shape.size))
    ∧ (Opens raw → Closes raw → ∃ cs, (Text.trim raw).toList = '[' :: (cs ++ [']'])
      ∧ ReadsEach (entriesOf cs) (Codec.read raw : Except Error (List α))
      ∧ ((entriesOf cs).length < shape.size →
        ∃ reason, outcome = .error (.unreadable raw "vector" reason))
      ∧ (shape.size ≤ (entriesOf cs).length →
        ReadsEach ((entriesOf cs).take shape.size) outcome)
      ∧ ∀ xs : List α, Codec.read raw = .ok xs → shape.size ≤ xs.length →
        outcome = .ok (xs.take shape.size))
    ∧ ∀ xs, outcome = .ok xs → xs.length = shape.size := by
  intro outcome
  have hne : shape.size ≠ 0 := Nat.one_le_iff_ne_zero.mp hpos
  refine ⟨?_, ?_, ?_, fun xs h => length_of_decode_list h hne⟩
  · intro hlone
    refine decode_list_of_error ?_
    rw [Literal.entryTokens, Literal.inner_of_lone hlone]
  · intro hopens hcloses
    exact decode_list_of_plain (Literal.inner_of_plain hopens hcloses) hne
  · intro hopens hcloses
    obtain ⟨cs, hcs⟩ := Literal.exists_enclosed hopens hcloses
    have hinner := Literal.inner_of_enclosed hcs
    refine ⟨cs, hcs, ?_, decode_list_of_few hinner, ?_, ?_⟩
    · rw [read_list_of_inner hinner]
      exact readsEach_readAll _
    · intro henough
      rw [show outcome = _ from decode_list_of_enough hinner hne henough]
      exact readsEach_readAll _
    · intro xs hread hlength
      exact decode_list_take hinner hread hne hlength

open Literal (Opens Closes entriesOf) in
/-- A literal whose last entry is no truth value, cut before it, read to it and short of what is
    requested; an open bracket; and a text without brackets that is repeated. -/
theorem requested_size_reads_front_switches :
    let switches := "[yes; no; maybe]"
    let unread : Error :=
      .unreadable "maybe" "bool" "expected true/false, 1/0, yes/no or on/off"
    (1 ≤ (Shape.vector 2).size ∧ Opens switches ∧ Closes switches)
    ∧ Codec.decode switches (.vector 2) = .ok [true, false]
    ∧ (Codec.decode switches (.vector 3) : Except Error (List Bool)) = .error unread
    ∧ (∃ reason, (Codec.decode switches (.vector 4) : Except Error (List Bool))
      = .error (.unreadable switches "vector" reason))
    ∧ (¬(Opens "[yes" ↔ Closes "[yes")
      ∧ (Codec.decode "[yes" (.vector 1) : Except Error (List Bool))
        = .error (.malformedLiteral "[yes"))
    ∧ ((¬Opens " on " ∧ ¬Closes " on ")
      ∧ Codec.decode " on " (.vector 2) = .ok [true, true]) := by
  intro switches unread
  -- the entries of the literal, whatever is requested
  have hliteral : ∀ size, 1 ≤ size →
      let texts := ["yes", "no", "maybe"]
      let outcome : Except Error (List Bool) := Codec.decode switches (.vector size)
      (texts.length < size → ∃ reason, outcome = .error (.unreadable switches "vector" reason))
      ∧ (size ≤ texts.length → ReadsEach (texts.take size) outcome) := by
    intro size hpos
    obtain ⟨cs, hcs, -, hfew, henough, -⟩ :=
      (requested_size_reads_front (α := Bool) switches (.vector size) hpos).2.2.1
        (by decide) (by decide)
    obtain rfl : cs = "yes; no; maybe".toList := Literal.eq_of_enclosed hcs (by decide)
    exact ⟨hfew, henough⟩
  have hfirst : (Codec.read "yes" : Except Error Bool) = .ok true := by rfl
  have hsecond : (Codec.read "no" : Except Error Bool) = .ok false := by rfl
  refine ⟨⟨by decide, by decide, by decide⟩, ?_, ?_, (hliteral 4 (by decide)).1 (by decide),
    ⟨by decide, ?_⟩, ⟨by decide, by decide⟩, ?_⟩
  · refine (((hliteral 2 (by decide)).2 (by decide)).values _).mpr ?_
    exact .cons hfirst (.cons hsecond .nil)
  · refine (((hliteral 3 (by decide)).2 (by decide)).refusal _).mpr ?_
    refine ⟨["yes", "no"], "maybe", [], rfl, ?_, by rfl⟩
    exact List.forall_mem_cons.mpr
      ⟨⟨true, hfirst⟩, List.forall_mem_singleton.mpr ⟨false, hsecond⟩⟩
  · exact (requested_size_reads_front "[yes" (.vector 1) (by decide)).1 (by decide)
  · have hplain := (requested_size_reads_front (α := Bool) " on " (.vector 2) (by decide)).2.1
    exact (hplain (by decide) (by decide)).trans (by rfl)

-- ── Lists of fixed length ─────────────────────────────────────────────────────────

section FixedLists

variable {n : Nat} (hshape : shape.size = 0 ∨ shape.size = n)

include hshape

/-- What is refused as a list of the length is refused. -/
theorem decode_fixedList_of_error {e : Error}
    (h : (Codec.decode raw (.vector n) : Except Error (List α)) = .error e) :
    (Codec.decode raw shape : Except Error (FixedList α n)) = .error e := by
  have hfits : ¬(shape.size ≠ 0 ∧ shape.size ≠ n) := by omega
  simp only [Codec.decode] at h ⊢
  rw [if_neg hfits, h]

/-- A list of another length is refused. -/
theorem decode_fixedList_of_length_ne {xs : List α} (h : Codec.decode raw (.vector n) = .ok xs)
    (hlength : xs.length ≠ n) :
    (Codec.decode raw shape : Except Error (FixedList α n))
      = .error (.unreadable raw (TypeName.array (Codec.typeName α) n).full
        ("expected " ++ toString n ++ " entries")) := by
  have hfits : ¬(shape.size ≠ 0 ∧ shape.size ≠ n) := by omega
  simp only [Codec.decode] at h ⊢
  rw [if_neg hfits, h]
  exact dif_neg hlength

open Literal (Opens Closes) in
/-- **A literal that is read as a list, read as a list of fixed length**, with no request or one for
    this length. It is cut to the length, or refused if it is shorter. Zero is no length to cut
    to: the list without entries is read from the empty literal, and every other one is refused. -/
theorem fixed_list_cuts_literal (hopens : Opens raw) (hcloses : Closes raw) {xs : List α}
    (hread : Codec.read raw = .ok xs) :
    let outcome : Except Error (FixedList α n) := Codec.decode raw shape
    (∀ h : n ≤ xs.length, n ≠ 0 ∨ xs = [] →
      outcome = .ok ⟨xs.take n, List.length_take_of_le h⟩)
    ∧ (xs.length < n → ∃ reason, outcome = .error (.unreadable raw "vector" reason))
    ∧ (n = 0 → xs ≠ [] → ∃ target reason, outcome = .error (.unreadable raw target reason)) := by
  intro outcome
  obtain ⟨cs, hcs⟩ := Literal.exists_enclosed hopens hcloses
  have hinner := Literal.inner_of_enclosed hcs
  have hcount := length_entriesOf_of_read hinner hread
  -- a request for nothing is none
  have hzero : n = 0 → Codec.decode raw (.vector n) = .ok xs := by
    rintro rfl
    exact hread
  refine ⟨?_, ?_, ?_⟩
  · rintro h (hne | rfl)
    · have htake : Codec.decode raw (.vector n) = .ok (xs.take n) :=
        decode_list_take hinner hread hne h
      exact decode_fixedList hshape htake _
    · obtain rfl : n = 0 := Nat.le_zero.mp h
      exact decode_fixedList hshape (hzero rfl) _
  · intro hlt
    have hfew : (Literal.entriesOf cs).length < (Shape.vector n).size := hcount ▸ hlt
    obtain ⟨reason, hreason⟩ := decode_list_of_few (α := α) hinner hfew
    exact ⟨reason, decode_fixedList_of_error hshape hreason⟩
  · rintro rfl hne
    have hlength : xs.length ≠ 0 := mt List.length_eq_zero_iff.mp hne
    exact ⟨_, _, decode_fixedList_of_length_ne hshape (hzero rfl) hlength⟩

end FixedLists

end Lists

open Literal (Opens Closes) in
/-- One literal of three entries as two of them, as four, and as none; and the empty literal. -/
theorem fixed_list_cuts_literal_words :
    let words := "[a; b c; d]"
    (Opens words ∧ Closes words ∧ Codec.read words = .ok ["a", "b c", "d"])
    ∧ Codec.decode words (.vector 2) = .ok (⟨["a", "b c"], rfl⟩ : FixedList String 2)
    ∧ (∃ reason, (Codec.read words : Except Error (FixedList String 4))
      = .error (.unreadable words "vector" reason))
    ∧ (∃ target reason, (Codec.read words : Except Error (FixedList String 0))
      = .error (.unreadable words target reason))
    ∧ (Codec.read "[]" = .ok ([] : List String)
      ∧ Codec.read "[]" = .ok (⟨[], rfl⟩ : FixedList String 0)) := by
  intro words
  have hread : Codec.read words = .ok ["a", "b c", "d"] := by
    show Codec.read "[a; b c; d]" = _
    rfl
  have hnone : Codec.read "[]" = .ok ([] : List String) := by rfl
  have hopens : Opens words := by decide
  have hcloses : Closes words := by decide
  refine ⟨⟨hopens, hcloses, hread⟩, ?_, ?_, ?_, hnone, ?_⟩
  · exact (fixed_list_cuts_literal (.inr rfl) hopens hcloses hread).1 (by decide) (by decide)
  · exact (fixed_list_cuts_literal (.inl rfl) hopens hcloses hread).2.1 (by decide)
  · exact (fixed_list_cuts_literal (.inl rfl) hopens hcloses hread).2.2 rfl (by decide)
  · exact (fixed_list_cuts_literal (.inl rfl) (by decide) (by decide) hnone).1 (Nat.le_refl 0)
      (by decide)

open Literal (Opens Closes) in
/-- **A literal is not cut to no entries**: one that is read as two integers is refused as the list
    without entries, whether its length is requested or not. -/
theorem entries_not_cut_to_none :
    (Opens "[1; 2]" ∧ Closes "[1; 2]")
    ∧ (∃ one two : Number.Ranged .i32, Codec.read "[1; 2]" = .ok [one, two])
    ∧ ∀ shape ∈ [Shape.any, Shape.vector 0],
      let outcome : Except Error (FixedList (Number.Ranged .i32) 0) := Codec.decode "[1; 2]" shape
      outcome ≠ .ok ⟨[], rfl⟩
        ∧ outcome = .error (.unreadable "[1; 2]" "[i32; 0]" "expected 0 entries") := by
  refine ⟨by decide, ⟨⟨1, by decide⟩, ⟨2, by decide⟩, by rfl⟩, ?_⟩
  intro shape hshape outcome
  have hrefused : outcome = .error (.unreadable "[1; 2]" "[i32; 0]" "expected 0 entries") := by
    rcases List.mem_pair.mp hshape with rfl | rfl
    · rfl
    · rfl
  rw [hrefused]
  exact ⟨by simp, rfl⟩

end ParamStore
