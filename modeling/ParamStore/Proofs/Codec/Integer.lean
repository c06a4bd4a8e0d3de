import ParamStore.Codec.Scalar
import ParamStore.Proofs.Number.Decimal
import ParamStore.Proofs.Text.Trimming

/-!
# Integers — which texts are read, for every kind

Blanks around a text aside, an integer of a kind is read from exactly the texts that denote it: there
    may be a plus sign, or a minus sign if the kind has negative numbers, and any number of zeros
    before the other digits. Every other text is refused as a whole, also one that denotes an
    integer which the kind does not have. What is written for an integer is one of its texts, and
    holds nothing that a list or a matrix separates its entries by.

* **`decode_ranged_eq_ok_iff`**, **`decode_ranged_eq_error_iff`** — what is read, and what is not.
* **`decode_padded_ranged`** — an integer is read back from its text with blanks around it.
* **`integer_texts_read_exactly`** — all of this, for every kind.
-/

namespace ParamStore

open Number (IntKind Ranged)

variable {k : IntKind}

/-- **An integer is read from the texts that denote it**, blanks aside. -/
theorem decode_ranged_eq_ok_iff {raw : String} {shape : Shape} {n : Ranged k} :
    Codec.decode raw shape = .ok n ↔ k.Denotes (Text.trim raw).toList n.val := by
  rw [Text.toList_trim, ← IntKind.parse_eq_ok_iff]
  simp only [Codec.decode]
  cases k.parse (Text.trimChars raw.toList) with
  | error fault => exact iff_of_false (by simp) (by simp)
  | ok value => simp

/-- A text that is refused is refused as one of no integer of the kind. -/
theorem exists_error_of_decode_ranged {raw : String} {shape : Shape}
    (h : ∀ n : Ranged k, Codec.decode raw shape ≠ .ok n) :
    ∃ reason, (Codec.decode raw shape : Except Error (Ranged k))
      = .error (.unreadable raw k.name reason) := by
  simp only [Codec.decode] at h ⊢
  cases hparse : k.parse (Text.trimChars raw.toList) with
  | error fault => exact ⟨_, rfl⟩
  | ok value =>
      rw [hparse] at h
      exact absurd rfl (h value)

/-- **The texts that are refused** denote no integer of the kind. -/
theorem decode_ranged_eq_error_iff {raw : String} {shape : Shape} :
    (∃ reason, (Codec.decode raw shape : Except Error (Ranged k))
      = .error (.unreadable raw k.name reason))
      ↔ ∀ z, k.Denotes (Text.trim raw).toList z → ¬k.holds z := by
  constructor
  · rintro ⟨reason, herror⟩ z hz hholds
    have hok : Codec.decode raw shape = .ok (⟨z, hholds⟩ : Ranged k) :=
      decode_ranged_eq_ok_iff.mpr hz
    rw [hok] at herror
    cases herror
  · intro h
    refine exists_error_of_decode_ranged ?_
    intro n hn
    exact h n.val (decode_ranged_eq_ok_iff.mp hn) n.inRange

-- ── Written integers ──────────────────────────────────────────────────────────────

theorem plain_of_isDigit {c : Char} (h : Number.isDigit c = true) :
    Text.isBlank c = false ∧ c ≠ '[' ∧ c ≠ ']' ∧ c ≠ ';' := by
  have hrange : '0' ≤ c ∧ c ≤ '9' := by
    by_contra hout
    rw [Number.isDigit, Number.digit?, if_neg hout] at h
    exact absurd h (by decide)
  have hlow : 48 ≤ c.toNat := hrange.1
  have hhigh : c.toNat ≤ 57 := hrange.2
  refine ⟨?_, ?_, ?_, ?_⟩
  · simp [Text.isBlank]
    omega
  all_goals
    rintro rfl
    exact absurd h (by decide)

/-- The text of an integer holds no blank and nothing that separates entries. -/
theorem plain_of_mem_decimal {n : Int} {c : Char} (h : c ∈ (Number.decimal n).toList) :
    Text.isBlank c = false ∧ c ≠ '[' ∧ c ≠ ']' ∧ c ≠ ';' := by
  rcases Number.minus_or_isDigit_of_mem_decimal h with rfl | hdigit
  · decide
  · exact plain_of_isDigit hdigit

theorem trimmed_decimal (n : Int) : Text.Trimmed (Number.decimal n).toList := by
  constructor
  · intro c hc
    exact (plain_of_mem_decimal (List.mem_of_mem_head? hc)).1
  · intro c hc
    exact (plain_of_mem_decimal (List.mem_of_mem_getLast? hc)).1

/-- **An integer is read back**, also with blanks around its text. -/
theorem decode_padded_ranged (n : Ranged k) {before after : String}
    (hbefore : ∀ c ∈ before.toList, Text.isBlank c = true)
    (hafter : ∀ c ∈ after.toList, Text.isBlank c = true) (shape : Shape) :
    Codec.decode (before ++ Codec.encode n ++ after) shape = .ok n := by
  have htrim : (Text.trim (before ++ Codec.encode n ++ after)).toList
      = (Number.decimal n.val).toList := by
    rw [Text.toList_trim, String.toList_append, String.toList_append]
    exact Text.trimChars_between hbefore hafter (trimmed_decimal n.val)
  refine decode_ranged_eq_ok_iff.mpr ?_
  rw [htrim]
  exact IntKind.denotes_decimal n.inRange

theorem read_encode_ranged (n : Ranged k) : Codec.read (Codec.encode n) = .ok n := by
  have hnone : ∀ c ∈ "".toList, Text.isBlank c = true := fun c hc => absurd hc List.not_mem_nil
  have hpadded := decode_padded_ranged n hnone hnone .any
  rwa [String.empty_append, String.append_empty] at hpadded

-- ── Every text ────────────────────────────────────────────────────────────────────

/-- **Integer texts are read exactly**, for every kind. A text is read as an integer exactly if,
    blanks at its ends aside, it is a sign that the kind takes, or none, with digits behind it that
    make this integer; it is refused exactly if it denotes no integer in the range of the kind. And
    every integer of the kind is read from its own text, whatever blanks stand around it. -/
theorem integer_texts_read_exactly (k : IntKind) :
    (∀ raw shape,
      (∀ n : Ranged k, Codec.decode raw shape = .ok n ↔ k.Denotes (Text.trim raw).toList n.val)
      ∧ ((∃ reason, (Codec.decode raw shape : Except Error (Ranged k))
          = .error (.unreadable raw k.name reason))
        ↔ ∀ z, k.Denotes (Text.trim raw).toList z → ¬k.holds z))
    ∧ ∀ (n : Ranged k) (before after : String) (shape : Shape),
      (∀ c ∈ before.toList, Text.isBlank c = true) → (∀ c ∈ after.toList, Text.isBlank c = true) →
      Codec.decode (before ++ Codec.encode n ++ after) shape = .ok n := by
  constructor
  · intro raw shape
    exact ⟨fun n => decode_ranged_eq_ok_iff, decode_ranged_eq_error_iff⟩
  · intro n before after shape hbefore hafter
    exact decode_padded_ranged n hbefore hafter shape

/-- The greatest integer of eight bits, with a sign and zeros in front, and the least one with blanks
    around it; the integer after the greatest, a sign alone, and a minus sign where no integer is
    negative, which are refused. -/
theorem integer_texts_read_exactly_limits :
    let least : Ranged .i8 := ⟨-128, by decide⟩
    let greatest : Ranged .i8 := ⟨127, by decide⟩
    (IntKind.i8.Denotes (Text.trim " +000127\n").toList 127
      ∧ Codec.decode " +000127\n" .any = .ok greatest)
    ∧ ((∀ c ∈ "\t ".toList, Text.isBlank c = true) ∧ (∀ c ∈ "\n".toList, Text.isBlank c = true)
      ∧ Codec.decode ("\t " ++ Codec.encode least ++ "\n") .any = .ok least)
    ∧ (∀ z, IntKind.i8.Denotes (Text.trim "128").toList z → ¬IntKind.i8.holds z)
    ∧ (∀ z, IntKind.i8.Denotes (Text.trim "+").toList z → ¬IntKind.i8.holds z)
    ∧ ∀ z, IntKind.u8.Denotes (Text.trim "-0").toList z → ¬IntKind.u8.holds z := by
  intro least greatest
  have hbefore : ∀ c ∈ "\t ".toList, Text.isBlank c = true := List.all_eq_true.mp (by decide)
  have hafter : ∀ c ∈ "\n".toList, Text.isBlank c = true := List.all_eq_true.mp (by decide)
  have hgreatest : IntKind.i8.Denotes (Text.trim " +000127\n").toList 127 :=
    ⟨['+'], 1, "000127".toList, .plus, by decide, by decide, List.all_eq_true.mp (by decide),
      by decide⟩
  refine ⟨⟨hgreatest, ?_⟩, ⟨hbefore, hafter, ?_⟩, ?_, ?_, ?_⟩
  · exact (((integer_texts_read_exactly .i8).1 " +000127\n" .any).1 greatest).mpr hgreatest
  · exact (integer_texts_read_exactly .i8).2 least "\t " "\n" .any hbefore hafter
  · exact ((integer_texts_read_exactly .i8).1 "128" .any).2.mp ⟨_, by rfl⟩
  · exact ((integer_texts_read_exactly .i8).1 "+" .any).2.mp ⟨_, by rfl⟩
  · exact ((integer_texts_read_exactly .u8).1 "-0" .any).2.mp ⟨_, by rfl⟩

end ParamStore
