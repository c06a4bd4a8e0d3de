import ParamStore.Number.Integer

/-!
# Decimal text — which texts are read as an integer of a kind

The magnitude of a text grows with every digit, so every value that the reader runs through lies
    between zero and the integer that the whole text denotes. A kind that has this integer has them
    all, and the reader refuses at no digit; a kind that does not have it is left at some digit,
    and no further digit leads back.

* **`Denotes`** — the texts of an integer: a sign or none, and digits.
* **`accumulate_eq_ok_iff`** — the digits that are taken after a running value.
* **`parse_eq_ok_iff`** — the texts that are read as an integer of a kind are those that denote it.
* **`parse_decimal`** — reading undoes writing, for every kind.
-/

namespace ParamStore.Number

/-- The signs that may precede the digits of a kind, with what they multiply the magnitude by. -/
inductive Sign (k : IntKind) : List Char → Int → Prop where
  | none : Sign k [] 1
  | plus : Sign k ['+'] 1
  | minus : k.signed = true → Sign k ['-'] (-1)

/-- The text of an integer of a kind, in its range or not: a sign or none, and at least one ASCII
    digit. -/
def IntKind.Denotes (k : IntKind) (cs : List Char) (n : Int) : Prop :=
  ∃ mark sign ds, Sign k mark sign ∧ cs = mark ++ ds ∧ ds ≠ [] ∧ (∀ c ∈ ds, c.isDigit = true)
    ∧ n = sign * Nat.ofDigitChars 10 ds 0

-- ── Digits ────────────────────────────────────────────────────────────────────────

theorem digit?_of_isDigit {c : Char} (h : c.isDigit = true) :
    digit? c = some (c.toNat - '0'.toNat) := by
  rw [Char.isDigit, Bool.and_eq_true, decide_eq_true_eq, decide_eq_true_eq] at h
  exact if_pos h

theorem isDigit_eq (c : Char) : isDigit c = c.isDigit := by
  by_cases h : c.isDigit = true
  · rw [isDigit, digit?_of_isDigit h, h]
    rfl
  · have hout : ¬('0' ≤ c ∧ c ≤ '9') := by
      rwa [Char.isDigit, Bool.and_eq_true, decide_eq_true_eq, decide_eq_true_eq] at h
    rw [isDigit, digit?, if_neg hout, Bool.eq_false_iff.mpr h]
    rfl

theorem digits_ne_nil (n : Nat) : digits n ≠ [] := Nat.toDigits_ne_nil

/-- The last digit is the rest by ten, and the others are the digits of the tenth part. -/
theorem digits_eq (n : Nat) : digits n
    = if n < 10 then [Nat.digitChar n] else digits (n / 10) ++ [Nat.digitChar (n % 10)] :=
  Nat.toDigits_eq_if (by decide)

theorem isDigit_of_mem_digits {n : Nat} {c : Char} (h : c ∈ digits n) : isDigit c = true := by
  rw [isDigit_eq]
  exact Nat.isDigit_of_mem_toDigits (by decide) (by decide) h

/-- Further digits make a number no smaller. -/
theorem le_ofDigitChars (cs : List Char) (m : Nat) : m ≤ Nat.ofDigitChars 10 cs m := by
  rw [Nat.ofDigitChars_eq_ofDigitChars_zero]
  exact Nat.le_add_right_of_le (Nat.le_mul_of_pos_left m (Nat.pow_pos (by decide)))

namespace IntKind

variable {k : IntKind}

-- ── The range of a kind ───────────────────────────────────────────────────────────

/-- A kind has every integer between zero and one of its own. -/
theorem holds_of_between {m n : Int} (h : k.holds n)
    (hm : 0 ≤ m ∧ m ≤ n ∨ n ≤ m ∧ m ≤ 0) : k.holds m := by
  have hzero := k.holds_zero
  unfold holds at *
  omega

/-- A product with a sign lies between zero and the product of a greater magnitude. -/
theorem between_of_le {sign : Int} (hsign : sign = 1 ∨ sign = -1) {m n : Nat} (h : m ≤ n) :
    0 ≤ sign * m ∧ sign * m ≤ sign * n ∨ sign * n ≤ sign * m ∧ sign * m ≤ 0 := by
  rcases hsign with rfl | rfl <;> omega

theorem signed_of_holds {n : Int} (h : k.holds n) (hn : n < 0) : k.signed = true := by
  cases hsigned : k.signed with
  | true => rfl
  | false =>
      have hleast : k.least ≤ n := h.1
      rw [least, hsigned, if_neg Bool.false_ne_true] at hleast
      exact absurd hleast (by omega)

theorem check_of_holds {fault : IntFault} {n : Int} (h : k.holds n) :
    k.check fault n = .ok ⟨n, h⟩ :=
  dif_pos h

theorem check_of_not_holds {fault : IntFault} {n : Int} (h : ¬k.holds n) :
    k.check fault n = .error fault :=
  dif_neg h

-- ── One digit after the other ─────────────────────────────────────────────────────

section Digit

variable {sign : Int} {fault : IntFault} {acc : Ranged k} {c : Char} {d : Nat}
  (hc : digit? c = some d)

include hc

/-- One digit is taken if the kind has the running value before and after it is added. -/
theorem accumulate_cons (hscaled : k.holds (acc.val * 10)) {next : Int}
    (hsum : acc.val * 10 + sign * d = next) (hnext : k.holds next) (cs : List Char) :
    accumulate k sign fault acc (c :: cs) = accumulate k sign fault ⟨next, hnext⟩ cs := by
  subst hsum
  rw [accumulate, hc]
  dsimp only
  rw [check_of_holds hscaled]
  dsimp only [bind, Except.bind]
  rw [check_of_holds hnext]

/-- A digit that leads out of the range is refused, whatever follows. -/
theorem accumulate_cons_of_not_holds (h : ¬k.holds (acc.val * 10 + sign * d)) (cs : List Char) :
    accumulate k sign fault acc (c :: cs) = .error fault := by
  rw [accumulate, hc]
  dsimp only
  by_cases hscaled : k.holds (acc.val * 10)
  · rw [check_of_holds hscaled]
    dsimp only [bind, Except.bind]
    rw [check_of_not_holds h]
  · rw [check_of_not_holds hscaled]
    rfl

end Digit

/-- **The digits that are taken after a running value** are those of a number that the kind has, and
    this number is the answer. -/
theorem accumulate_eq_ok_iff {sign : Int} (hsign : sign = 1 ∨ sign = -1) {fault : IntFault}
    {acc : Ranged k} {m : Nat} (hacc : acc.val = sign * m) {cs : List Char} {n : Ranged k} :
    accumulate k sign fault acc cs = .ok n
      ↔ (∀ c ∈ cs, c.isDigit = true) ∧ n.val = sign * Nat.ofDigitChars 10 cs m := by
  induction cs generalizing acc m with
  | nil =>
      rw [accumulate, Except.ok.injEq]
      constructor
      · rintro rfl
        exact ⟨fun c hc => absurd hc List.not_mem_nil, hacc⟩
      · rintro ⟨-, hn⟩
        exact Ranged.ext_val (hacc.trans hn.symm)
  | cons c cs ih =>
      rw [List.forall_mem_cons, Nat.ofDigitChars_cons]
      by_cases hc : c.isDigit = true
      · have hdigit := digit?_of_isDigit hc
        generalize c.toNat - '0'.toNat = d at hdigit ⊢
        have hsum : acc.val * 10 + sign * d = sign * (10 * m + d : Nat) := by
          rw [hacc]
          rcases hsign with rfl | rfl <;> omega
        by_cases hnext : k.holds (sign * (10 * m + d : Nat))
        · have hscaled : k.holds (acc.val * 10) := by
            refine holds_of_between hnext ?_
            rw [hacc]
            rcases hsign with rfl | rfl <;> omega
          rw [accumulate_cons hdigit hscaled hsum hnext, ih rfl, and_iff_right hc]
        · -- the running value only grows, so the whole number is out of range as well
          rw [← hsum] at hnext
          rw [accumulate_cons_of_not_holds hdigit hnext]
          refine iff_of_false (by simp) ?_
          rintro ⟨-, hn⟩
          rw [hsum] at hnext
          exact hnext (holds_of_between (hn ▸ n.inRange)
            (between_of_le hsign (le_ofDigitChars cs _)))
      · have hnone : digit? c = none := by
          rw [← isDigit_eq, isDigit] at hc
          exact Option.not_isSome_iff_eq_none.mp hc
        rw [accumulate, hnone]
        exact iff_of_false (by simp) fun h => hc h.1.1

/-- The digits that are taken from the start. -/
theorem accumulate_default_eq_ok_iff {sign : Int} (hsign : sign = 1 ∨ sign = -1)
    {fault : IntFault} {cs : List Char} {n : Ranged k} :
    accumulate k sign fault default cs = .ok n
      ↔ (∀ c ∈ cs, c.isDigit = true) ∧ n.val = sign * Nat.ofDigitChars 10 cs 0 :=
  accumulate_eq_ok_iff hsign (Int.mul_zero sign).symm

-- ── Signs ─────────────────────────────────────────────────────────────────────────

/-- A plus sign is taken before some digits. -/
theorem parse_plus {cs : List Char} (h : cs ≠ []) :
    k.parse ('+' :: cs) = accumulate k 1 .tooLarge default cs := by
  cases cs with
  | nil => exact absurd rfl h
  | cons c cs =>
      rw [parse, if_pos rfl]
      exact List.cons_ne_nil c cs

/-- A minus sign is taken by the kinds that have negative numbers. -/
theorem parse_minus (hsigned : k.signed = true) {cs : List Char} (h : cs ≠ []) :
    k.parse ('-' :: cs) = accumulate k (-1) .tooSmall default cs := by
  cases cs with
  | nil => exact absurd rfl h
  | cons c cs =>
      rw [parse, if_neg (by decide), if_pos ⟨rfl, hsigned⟩]
      exact List.cons_ne_nil c cs

/-- A sign alone is refused. -/
theorem parse_lone {c : Char} (h : c = '+' ∨ c = '-') : k.parse [c] = .error .invalidDigit := by
  rw [parse, if_pos h]

/-- A text without a sign of the kind is read as digits. -/
theorem parse_unsigned {c : Char} (hplus : c ≠ '+') (hminus : ¬(c = '-' ∧ k.signed = true))
    (cs : List Char) (n : Ranged k) :
    k.parse (c :: cs) = .ok n ↔ accumulate k 1 .tooLarge default (c :: cs) = .ok n := by
  cases cs with
  | nil =>
      by_cases hc : c = '-'
      · -- the sign is no digit either
        subst hc
        rw [parse_lone (.inr rfl), accumulate_default_eq_ok_iff (.inl rfl)]
        exact iff_of_false (by simp) fun h => absurd (h.1 '-' List.mem_cons_self) (by decide)
      · rw [parse, if_neg (not_or.mpr ⟨hplus, hc⟩)]
  | cons d cs =>
      rw [parse, if_neg hplus, if_neg hminus]
      exact List.cons_ne_nil d cs

/-- **The texts that are read as an integer of a kind are those that denote it.** -/
theorem parse_eq_ok_iff {cs : List Char} {n : Ranged k} :
    k.parse cs = .ok n ↔ k.Denotes cs n.val := by
  constructor
  · intro h
    cases cs with
    | nil => cases h
    | cons c cs =>
        by_cases hplus : c = '+'
        · subst hplus
          by_cases hcs : cs = []
          · rw [hcs, parse_lone (.inl rfl)] at h
            cases h
          · rw [parse_plus hcs, accumulate_default_eq_ok_iff (.inl rfl)] at h
            exact ⟨['+'], 1, cs, .plus, rfl, hcs, h⟩
        · by_cases hminus : c = '-' ∧ k.signed = true
          · obtain ⟨rfl, hsigned⟩ := hminus
            by_cases hcs : cs = []
            · rw [hcs, parse_lone (.inr rfl)] at h
              cases h
            · rw [parse_minus hsigned hcs, accumulate_default_eq_ok_iff (.inr rfl)] at h
              exact ⟨['-'], -1, cs, .minus hsigned, rfl, hcs, h⟩
          · rw [parse_unsigned hplus hminus, accumulate_default_eq_ok_iff (.inl rfl)] at h
            exact ⟨[], 1, c :: cs, .none, rfl, List.cons_ne_nil c cs, h⟩
  · rintro ⟨mark, sign, ds, hsign, rfl, hne, h⟩
    cases hsign with
    | none =>
        obtain ⟨c, cs, rfl⟩ := List.exists_cons_of_ne_nil hne
        have hc := h.1 c List.mem_cons_self
        have hplus : c ≠ '+' := by
          rintro rfl
          exact absurd hc (by decide)
        have hminus : c ≠ '-' := by
          rintro rfl
          exact absurd hc (by decide)
        rw [List.nil_append, parse_unsigned hplus fun hboth => hminus hboth.1]
        exact (accumulate_default_eq_ok_iff (.inl rfl)).mpr h
    | plus =>
        rw [List.singleton_append, parse_plus hne]
        exact (accumulate_default_eq_ok_iff (.inl rfl)).mpr h
    | minus hsigned =>
        rw [List.singleton_append, parse_minus hsigned hne]
        exact (accumulate_default_eq_ok_iff (.inr rfl)).mpr h

/-- The text that is written for an integer of a kind denotes it. -/
theorem denotes_decimal {n : Int} (h : k.holds n) : k.Denotes (decimal n).toList n := by
  have hdigits : ∀ c ∈ digits n.natAbs, c.isDigit = true := by
    intro c hc
    rw [← isDigit_eq]
    exact isDigit_of_mem_digits hc
  have hvalue : Nat.ofDigitChars 10 (digits n.natAbs) 0 = n.natAbs :=
    Nat.ofDigitChars_toDigits (by decide) (by decide)
  rw [decimal, String.toList_ofList]
  by_cases hneg : n < 0
  · rw [if_pos hneg]
    refine ⟨['-'], -1, digits n.natAbs, .minus (signed_of_holds h hneg), rfl, digits_ne_nil _,
      hdigits, ?_⟩
    rw [hvalue]
    omega
  · rw [if_neg hneg]
    refine ⟨[], 1, digits n.natAbs, .none, rfl, digits_ne_nil _, hdigits, ?_⟩
    rw [hvalue]
    omega

/-- **Reading undoes writing**: the decimal text of an integer of a kind is read as the integer. -/
theorem parse_decimal (n : Ranged k) : k.parse (decimal n.val).toList = .ok n :=
  parse_eq_ok_iff.mpr (denotes_decimal n.inRange)

end IntKind

/-- Decimal text consists of digits, perhaps after a minus sign. -/
theorem minus_or_isDigit_of_mem_decimal {n : Int} {c : Char} (h : c ∈ (decimal n).toList) :
    c = '-' ∨ isDigit c = true := by
  rw [decimal, String.toList_ofList] at h
  by_cases hneg : n < 0
  · rw [if_pos hneg] at h
    rcases List.mem_cons.mp h with hminus | hdigit
    · exact .inl hminus
    · exact .inr (isDigit_of_mem_digits hdigit)
  · rw [if_neg hneg] at h
    exact .inr (isDigit_of_mem_digits h)

end ParamStore.Number
