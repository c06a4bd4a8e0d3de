import Mathlib.Tactic.SplitIfs
import ParamStore.Json.Parser
import ParamStore.Proofs.Number.Decimal

/-!
# JSON leaves — texts and natural numbers are read from what is written

A text is written one character at a time and read one code at a time, so it is enough to look
    at one character: whatever stands for it, the reader takes exactly this and finds its code.
    The codes of a text are never halves of pairs, so they stand for the characters again.
    A number ends where nothing follows that could belong to it.

* **`escapeChar_cases`**, **`readCodes_escapeChar`** — how a character is written, and that it is
  read as one code.
* **`readCodes_body`**, **`textOf?_codes`** — a quoted text is read as its codes, and these as the
  text.
* **`readNumeral_digits`** — the digits of a natural number are read whole.
-/

namespace ParamStore.Json

open Number (isDigit hexDigit? digits digits_eq digits_ne_nil isDigit_of_mem_digits)

-- ── Quoted texts ──────────────────────────────────────────────────────────────────

/-- A hexadecimal digit is read as its value. -/
theorem hexDigit?_digitChar : ∀ d < 16, hexDigit? (Nat.digitChar d) = some d := by decide

/-- The four digits of a control character are read as its code. -/
theorem code?_control {c : Char} (h : c.toNat < 0x20) :
    code? '0' '0' (Nat.digitChar (c.toNat / 16)) (Nat.digitChar (c.toNat % 16))
      = some c.toNat := by
  have hzero : hexDigit? '0' = some 0 := by decide
  have hhigh := hexDigit?_digitChar (c.toNat / 16) (by omega)
  have hlow := hexDigit?_digitChar (c.toNat % 16) (by omega)
  have hvalue : ((0 * 16 + 0) * 16 + c.toNat / 16) * 16 + c.toNat % 16 = c.toNat := by omega
  simp only [code?, hzero, hhigh, hlow, Option.bind_eq_bind, Option.bind_some, hvalue]

/-- A letter behind a backslash is read as what it stands for. -/
theorem readCodes_escaped {letter c : Char} (h : escaped? letter = some c) (rest : List Char) :
    readCodes ('\\' :: letter :: rest)
      = (readCodes rest).map fun found => (c.toNat :: found.1, found.2) := by
  have hletter : letter ≠ 'u' := by
    rintro rfl
    have hnone : escaped? 'u' = none := by decide
    rw [hnone] at h
    cases h
  rw [readCodes]
  · rw [h]
  · intro _ _ _ _ _ hu _
    exact hletter hu

/-- How a character is written: as a letter behind a backslash, by its code, or as itself. -/
theorem escapeChar_cases (c : Char) :
    (∃ letter, escaped? letter = some c ∧ escapeChar c = ['\\', letter])
      ∨ (c.toNat < 0x20 ∧ escapeChar c = controlCode c)
      ∨ (0x20 ≤ c.toNat ∧ c ≠ '"' ∧ c ≠ '\\' ∧ escapeChar c = [c]) := by
  unfold escapeChar
  split_ifs with hquote hslash hback hfeed hline hreturn htab hcontrol
  · exact .inl ⟨'"', by rw [hquote]; rfl, rfl⟩
  · exact .inl ⟨'\\', by rw [hslash]; rfl, rfl⟩
  · exact .inl ⟨'b', hback ▸ rfl, rfl⟩
  · exact .inl ⟨'f', hfeed ▸ rfl, rfl⟩
  · exact .inl ⟨'n', hline ▸ rfl, rfl⟩
  · exact .inl ⟨'r', hreturn ▸ rfl, rfl⟩
  · exact .inl ⟨'t', htab ▸ rfl, rfl⟩
  · exact .inr (.inl ⟨hcontrol, rfl⟩)
  · exact .inr (.inr ⟨Nat.le_of_not_lt hcontrol, hquote, hslash, rfl⟩)

/-- **One written character is read as one code**, whichever way it is written. -/
theorem readCodes_escapeChar (c : Char) (rest : List Char) :
    readCodes (escapeChar c ++ rest)
      = (readCodes rest).map fun found => (c.toNat :: found.1, found.2) := by
  rcases escapeChar_cases c with ⟨letter, hletter, heq⟩ | ⟨hcontrol, heq⟩
    | ⟨hcontrol, hquote, hslash, heq⟩
  · rw [heq]
    exact readCodes_escaped hletter rest
  · rw [heq, controlCode]
    show readCodes ('\\' :: 'u' :: '0' :: '0' :: _ :: _ :: rest) = _
    rw [readCodes, code?_control hcontrol]
  · rw [heq, List.singleton_append, readCodes, if_neg (Nat.not_lt_of_le hcontrol), if_neg hslash]
    · exact hquote
    · intro _ _ _ _ _ hc _
      exact hslash hc
    · intro _ _ hc _
      exact hslash hc

/-- **A written text is read up to its closing quote**, as the codes of its characters. -/
theorem readCodes_body (cs rest : List Char) :
    readCodes (cs.flatMap escapeChar ++ '"' :: rest) = some (cs.map Char.toNat, rest) := by
  induction cs with
  | nil => rfl
  | cons c cs ih =>
      rw [List.flatMap_cons, List.append_assoc, readCodes_escapeChar, ih]
      rfl

/-- The code of a character is no half of a pair. -/
theorem not_half (c : Char) : isHigh c.toNat = false ∧ isLow c.toNat = false := by
  have hvalid : c.toNat < 0xD800 ∨ 0xDFFF < c.toNat ∧ c.toNat < 0x110000 := c.valid
  simp only [isHigh, isLow, Bool.and_eq_false_iff, decide_eq_false_iff_not]
  omega

/-- The codes of some characters stand for these characters. -/
theorem charsOf?_codes (cs : List Char) : charsOf? (cs.map Char.toNat) = some cs := by
  induction cs with
  | nil => rfl
  | cons c cs ih =>
      obtain ⟨hhigh, hlow⟩ := not_half c
      cases cs with
      | nil => simp [charsOf?, hhigh, hlow, Char.ofNat_toNat]
      | cons d cs =>
          rw [List.map_cons, List.map_cons, charsOf?, hhigh, hlow, ← List.map_cons, ih]
          simp [Char.ofNat_toNat]

theorem textOf?_codes (s : String) : textOf? (s.toList.map Char.toNat) = some s := by
  rw [textOf?, charsOf?_codes, Option.map_some, String.ofList_toList]

-- ── Natural numbers ───────────────────────────────────────────────────────────────

/-- Nothing at the front of the text could belong to a number before it. -/
def Ends (rest : List Char) : Prop :=
  ∀ c ∈ rest.head?, isDigit c = false ∧ c ≠ '.' ∧ c ≠ 'e' ∧ c ≠ 'E'

theorem ends_nil : Ends [] := fun _ h => absurd h (by simp)

theorem ends_comma (rest : List Char) : Ends (',' :: rest) := by
  rintro c ⟨⟩
  decide

theorem ends_newLine (rest : List Char) : Ends ('\n' :: rest) := by
  rintro c ⟨⟩
  decide

/-- Digits are what is taken from digits and the end of a number. -/
theorem readRun_append {ds rest : List Char} (hds : ∀ c ∈ ds, isDigit c = true) (hne : ds ≠ [])
    (hrest : Ends rest) : readRun (ds ++ rest) = some (ds, rest) := by
  have hstop : rest.takeWhile isDigit = [] ∧ rest.dropWhile isDigit = rest := by
    cases rest with
    | nil => exact ⟨rfl, rfl⟩
    | cons c rest =>
        have hc : isDigit c = false := (hrest c rfl).1
        rw [List.takeWhile_cons, List.dropWhile_cons, hc]
        exact ⟨rfl, rfl⟩
  have htake : (ds ++ rest).takeWhile isDigit = ds := by
    rw [List.takeWhile_append_of_pos hds, hstop.1, List.append_nil]
  have hdrop : (ds ++ rest).dropWhile isDigit = rest := by
    rw [List.dropWhile_append_of_pos hds, hstop.2]
  rw [readRun, htake, hdrop, if_neg (by simpa using hne)]

/-- The digits of a positive number do not begin with zero. -/
theorem head?_digits_ne_zero {n : Nat} (h : 0 < n) : (digits n).head? ≠ some '0' := by
  induction n using Nat.strongRecOn with
  | _ n ih =>
      rw [digits_eq]
      by_cases hn : n < 10
      · have hfirst : ∀ d < 10, 0 < d → (some (Nat.digitChar d)) ≠ some '0' := by decide
        rw [if_pos hn]
        exact hfirst n hn h
      · have hfront := ih (n / 10) (by omega) (by omega)
        rw [if_neg hn]
        cases hdigits : digits (n / 10) with
        | nil => exact absurd hdigits (digits_ne_nil _)
        | cons c cs =>
            rw [hdigits] at hfront
            exact hfront

/-- Only zero itself begins with zero. -/
theorem digits_ne_zero_cons (n : Nat) (c : Char) (cs : List Char) : digits n ≠ '0' :: c :: cs := by
  intro heq
  rcases Nat.eq_zero_or_pos n with rfl | hpos
  · exact absurd heq (by simp [digits])
  · exact head?_digits_ne_zero hpos (by rw [heq]; rfl)

theorem readWhole_digits (n : Nat) {rest : List Char} (hrest : Ends rest) :
    readWhole (digits n ++ rest) = some (digits n, rest) := by
  rw [readWhole, readRun_append (fun _ h => isDigit_of_mem_digits h)
    (digits_ne_nil n) hrest]
  split
  · next hfound => exact absurd (Prod.mk.inj (Option.some.inj hfound)).1 (digits_ne_zero_cons n _ _)
  · rfl

theorem readFraction_of_ends {rest : List Char} (hrest : Ends rest) :
    readFraction rest = some ([], rest) := by
  rw [readFraction.eq_def]
  split
  · exact absurd rfl (hrest '.' rfl).2.1
  · rfl

theorem readPower_of_ends {rest : List Char} (hrest : Ends rest) :
    readPower rest = some ([], rest) := by
  cases rest with
  | nil => rfl
  | cons c rest =>
      obtain ⟨-, -, hlower, hupper⟩ := hrest c rfl
      rw [readPower.eq_def]
      dsimp only
      rw [if_neg (not_or.mpr ⟨hlower, hupper⟩)]

/-- **The digits of a natural number are read whole.** -/
theorem readNumeral_digits (n : Nat) {rest : List Char} (hrest : Ends rest) :
    readNumeral (digits n ++ rest) = some (digits n, rest) := by
  have hunsigned : ∀ more, digits n ++ rest ≠ '-' :: more := by
    intro more hminus
    cases hdigits : digits n with
    | nil => exact digits_ne_nil n hdigits
    | cons c cs =>
        rw [hdigits] at hminus
        have hc : isDigit c = true := isDigit_of_mem_digits (hdigits ▸ List.mem_cons_self)
        rw [(List.cons.inj hminus).1] at hc
        exact absurd hc (by decide)
  rw [readNumeral]
  · rw [readWhole_digits n hrest]
    dsimp only
    rw [readFraction_of_ends hrest]
    dsimp only
    rw [readPower_of_ends hrest]
    simp
  · exact hunsigned

end ParamStore.Json
