import ParamStore.Proofs.Json.Leaf

/-!
# JSON values — the indented text is read back

Reading undoes writing for every value whose texts can be read and whose numbers are natural. The
    reader's steps are bounded, and the bound that carries the induction is the length of
    what is written: every step of the reader into a container or past an entry leaves at least
    one character behind. What follows a value matters to a number only, and in a container
    a comma or a new line follows.

* **`Legible`** — the values in question.
* **`readValue_write`**, with **`readItems_write`** and **`readMembers_write`** — the three readers
  on what the three writers write.
* **`parse_pretty`** — the law for whole texts.
-/

namespace ParamStore.Json

open Number (isDigit digits digits_ne_nil isDigit_of_mem_digits decimal)

-- ── Legible values ────────────────────────────────────────────────────────────────

mutual

/-- Every text of the value can be read, and every number is natural. -/
def Legible : Json → Prop
  | null => True
  | bool _ => True
  | number numeral => ∃ n : Nat, numeral = decimal n
  | string _ => True
  | array items => LegibleItems items
  | object members => LegibleMembers members
  | garbled _ => False

/-- The items are legible. -/
def LegibleItems : List Json → Prop
  | [] => True
  | item :: items => Legible item ∧ LegibleItems items

/-- The values of the members are legible. -/
def LegibleMembers : List (String × Json) → Prop
  | [] => True
  | (_, item) :: members => Legible item ∧ LegibleMembers members

end

theorem legibleItems_iff {items : List Json} :
    LegibleItems items ↔ ∀ item ∈ items, Legible item := by
  induction items with
  | nil => simp [LegibleItems]
  | cons item items ih => rw [LegibleItems, ih, List.forall_mem_cons]

theorem legibleMembers_iff {members : List (String × Json)} :
    LegibleMembers members ↔ ∀ member ∈ members, Legible member.2 := by
  induction members with
  | nil => simp [LegibleMembers]
  | cons member members ih =>
      obtain ⟨name, item⟩ := member
      rw [LegibleMembers, ih, List.forall_mem_cons]

-- ── Blanks between the parts ──────────────────────────────────────────────────────

theorem skip_cons {c : Char} (h : isSpace c = false) (rest : List Char) :
    skip (c :: rest) = c :: rest := by
  rw [skip, List.dropWhile_cons, h]
  rfl

theorem skip_blank (rest : List Char) : skip (' ' :: rest) = skip rest := rfl

/-- A new line and its indentation are passed over. -/
theorem skip_newLine (depth : Nat) (rest : List Char) :
    skip (newLine depth ++ rest) = skip rest := by
  have hspaces : ∀ c ∈ newLine depth, isSpace c = true := by
    intro c hc
    rcases List.mem_cons.mp hc with rfl | hc
    · rfl
    · rw [List.eq_of_mem_replicate hc]
      rfl
  rw [skip, List.dropWhile_append_of_pos hspaces, skip]

/-- A natural number is written as its digits. -/
theorem toList_decimal (n : Nat) : (decimal n).toList = digits n := by
  have hsign : ¬ (n : Int) < 0 := by omega
  rw [decimal, if_neg hsign, String.toList_ofList, Int.natAbs_natCast]

theorem exists_digits_eq (n : Nat) : ∃ c cs, digits n = c :: cs ∧ isDigit c = true := by
  cases hdigits : digits n with
  | nil => exact absurd hdigits (digits_ne_nil n)
  | cons c cs => exact ⟨c, cs, rfl, isDigit_of_mem_digits (hdigits ▸ List.mem_cons_self)⟩

/-- A digit is none of the characters that other values begin with, and no blank. -/
theorem ne_of_isDigit {c : Char} (h : isDigit c = true) {other : Char}
    (hother : isDigit other = false) : c ≠ other := by
  rintro rfl
  rw [h] at hother
  cases hother

theorem isSpace_of_isDigit {c : Char} (h : isDigit c = true) : isSpace c = false := by
  have hblank : c ≠ ' ' := ne_of_isDigit h rfl
  have hline : c ≠ '\n' := ne_of_isDigit h rfl
  have htab : c ≠ '\t' := ne_of_isDigit h rfl
  have hreturn : c ≠ '\x0d' := ne_of_isDigit h rfl
  simp [isSpace, hblank, hline, htab, hreturn]

/-- The front of what is written for a value: no blank, and no bracket that closes an array. -/
theorem exists_write_eq {j : Json} (h : j.Legible) (depth : Nat) :
    ∃ c cs, write depth j = c :: cs ∧ isSpace c = false ∧ c ≠ ']' := by
  cases j with
  | null => exact ⟨'n', _, rfl, by decide, by decide⟩
  | bool b =>
      cases b with
      | true => exact ⟨'t', _, rfl, by decide, by decide⟩
      | false => exact ⟨'f', _, rfl, by decide, by decide⟩
  | number numeral =>
      obtain ⟨n, rfl⟩ := h
      obtain ⟨c, cs, hcs, hc⟩ := exists_digits_eq n
      refine ⟨c, cs, by rw [write, toList_decimal, hcs], ?_, ?_⟩
      · exact isSpace_of_isDigit hc
      · rintro rfl
        exact absurd hc (by decide)
  | string s => exact ⟨'"', _, rfl, by decide, by decide⟩
  | array items =>
      cases items with
      | nil => exact ⟨'[', _, rfl, by decide, by decide⟩
      | cons item items => exact ⟨'[', _, rfl, by decide, by decide⟩
  | object members =>
      cases members with
      | nil => exact ⟨'\x7b', _, rfl, by decide, by decide⟩
      | cons member members => exact ⟨'\x7b', _, rfl, by decide, by decide⟩
  | garbled written => exact absurd h id

-- ── The readers on what the writers write ─────────────────────────────────────────

/-- A natural number is read up to its end. -/
theorem readValue_decimal (n fuel depth : Nat) {rest : List Char} (hrest : Ends rest) :
    readValue (fuel + 1) (write depth (number (decimal n)) ++ rest)
      = some (number (decimal n), rest) := by
  obtain ⟨c, cs, hcs, hc⟩ := exists_digits_eq n
  have hread := readNumeral_digits n hrest
  have hvalue : String.ofList (digits n) = decimal n := by
    rw [← toList_decimal, String.ofList_toList]
  rw [write, toList_decimal]
  rw [hcs, List.cons_append] at *
  rw [readValue, if_neg (ne_of_isDigit hc rfl), if_neg (ne_of_isDigit hc rfl),
    if_neg (ne_of_isDigit hc rfl), if_neg (ne_of_isDigit hc rfl), if_neg (ne_of_isDigit hc rfl),
    if_neg (ne_of_isDigit hc rfl), hread, Option.map_some, hvalue]

/-- A name, a colon and a value are read as a member, if the value is read. -/
theorem readMember_write {fuel depth : Nat} (name : String) {item : Json} {rest more : List Char}
    (h : item.Legible)
    (hitem : readValue fuel (write depth item ++ rest) = some (item, more)) :
    readMember (fuel + 1) (writeText name ++ ([':', ' '] ++ (write depth item ++ rest)))
      = some ((some name, item), more) := by
  obtain ⟨c, cs, hcs, hspace, -⟩ := exists_write_eq h depth
  have hcolon : skip ([':', ' '] ++ (write depth item ++ rest))
      = ':' :: ' ' :: (write depth item ++ rest) := skip_cons rfl _
  have hblank : skip (' ' :: (write depth item ++ rest)) = write depth item ++ rest := by
    rw [skip_blank, hcs, List.cons_append, skip_cons hspace]
  show readMember (fuel + 1) ('"' :: ((name.toList.flatMap escapeChar ++ ['"']) ++ _)) = _
  rw [readMember, List.append_assoc, List.singleton_append, readCodes_body]
  simp only [hcolon, hblank, hitem, textOf?_codes, Option.map_some]

/-- Reading some written values one after the other gives them, if reading each one does. -/
theorem mapM_map_eq_some {α β : Type} {readAs : β → Option α} {written : α → β} {xs : List α}
    (h : ∀ x ∈ xs, readAs (written x) = some x) : (xs.map written).mapM readAs = some xs := by
  induction xs with
  | nil => rfl
  | cons x xs ih =>
      obtain ⟨hfirst, hothers⟩ := List.forall_mem_cons.mp h
      rw [List.map_cons, List.mapM_cons, hfirst, ih hothers]
      rfl

/-- Members with names that could be read make an object. -/
theorem ofMembers_named (cs rest : List Char) (members : List (String × Json)) :
    ofMembers cs rest (members.map fun member => (some member.1, member.2)) = object members := by
  have hnames : (members.map fun member => (some member.1, member.2)).mapM
      (fun member => member.1.map fun name => (name, member.2)) = some members :=
    mapM_map_eq_some fun _ _ => rfl
  rw [ofMembers, hnames]

/-- What follows an entry of a container never belongs to a number. -/
theorem ends_writeItems (depth outer : Nat) (items : List Json) (rest : List Char) :
    Ends (writeItems depth items ++ (newLine outer ++ rest)) := by
  cases items with
  | nil => exact ends_newLine _
  | cons item items => exact ends_comma _

theorem ends_writeMembers (depth outer : Nat) (members : List (String × Json))
    (rest : List Char) : Ends (writeMembers depth members ++ (newLine outer ++ rest)) := by
  cases members with
  | nil => exact ends_newLine _
  | cons member members => exact ends_comma _

/-- A value on a new line is found at its front. -/
theorem skip_write {item : Json} (h : item.Legible) (depth outer : Nat) (more : List Char) :
    skip (newLine outer ++ (write depth item ++ more)) = write depth item ++ more := by
  obtain ⟨c, cs, hcs, hspace, -⟩ := exists_write_eq h depth
  rw [skip_newLine, hcs, List.cons_append, skip_cons hspace]

/-- A name on a new line is found at its front. -/
theorem skip_writeText (name : String) (outer : Nat) (more : List Char) :
    skip (newLine outer ++ (writeText name ++ more)) = writeText name ++ more := by
  rw [skip_newLine]
  exact skip_cons rfl _

/-- An array of several items is read if its first item and then the others are. -/
theorem readValue_array {fuel depth outer : Nat} {item : Json} {items : List Json}
    {more rest : List Char} (h : item.Legible)
    (hitem : readValue fuel (write depth item ++ more) = some (item, more))
    (hitems : readItems fuel (skip more) = some (items, rest)) :
    readValue (fuel + 1) ('[' :: (newLine outer ++ (write depth item ++ more)))
      = some (array (item :: items), rest) := by
  obtain ⟨c, cs, hcs, -, hbracket⟩ := exists_write_eq h depth
  have hopen : ∀ tail, write depth item ++ more ≠ ']' :: tail := by
    intro tail heq
    rw [hcs] at heq
    exact hbracket (List.cons.inj heq).1
  rw [readValue, if_neg (by decide), if_pos rfl, skip_write h]
  split
  · next heq => exact absurd heq (hopen _)
  · simp only [hitem, hitems, Option.map_some]

/-- A further item is read if it is and then the others are. -/
theorem readItems_cons {fuel depth outer : Nat} {item : Json} {items : List Json}
    {more rest : List Char} (h : item.Legible)
    (hitem : readValue fuel (write depth item ++ more) = some (item, more))
    (hitems : readItems fuel (skip more) = some (items, rest)) :
    readItems (fuel + 1) (',' :: (newLine outer ++ (write depth item ++ more)))
      = some (item :: items, rest) := by
  rw [readItems, skip_write h, hitem]
  simp only [hitems, Option.map_some]

/-- An object of several members is read if its first member and then the others are. -/
theorem readValue_object {fuel outer : Nat} {name : String} {item : Json}
    {members : List (String × Json)} {body more rest : List Char}
    (hmember : readMember fuel (writeText name ++ body) = some ((some name, item), more))
    (hmembers : readMembers fuel (skip more)
      = some (members.map fun member => (some member.1, member.2), rest)) :
    readValue (fuel + 1) ('\x7b' :: (newLine outer ++ (writeText name ++ body)))
      = some (object ((name, item) :: members), rest) := by
  have hnamed := fun cs => ofMembers_named cs rest ((name, item) :: members)
  rw [readValue, if_neg (by decide), if_neg (by decide), if_pos rfl, skip_writeText]
  split
  · next heq => exact absurd (List.cons.inj heq).1 (by decide)
  · simp only [hmember, hmembers, Option.map_some]
    exact congrArg (fun value => some (value, rest)) (hnamed _)

/-- A further member is read if it is and then the others are. -/
theorem readMembers_cons {fuel outer : Nat} {name : String} {item : Json}
    {members : List (String × Json)} {body more rest : List Char}
    (hmember : readMember fuel (writeText name ++ body) = some ((some name, item), more))
    (hmembers : readMembers fuel (skip more)
      = some (members.map fun member => (some member.1, member.2), rest)) :
    readMembers (fuel + 1) (',' :: (newLine outer ++ (writeText name ++ body)))
      = some (((name, item) :: members).map fun member => (some member.1, member.2), rest) := by
  rw [readMembers, skip_writeText, hmember]
  simp only [hmembers, Option.map_some, List.map_cons]

mutual

/-- **What is written for a value is read as the value**, with as many steps as it has characters
    and whatever follows, as long as it could not belong to a number. -/
theorem readValue_write : ∀ (j : Json) (fuel depth : Nat) {rest : List Char}, j.Legible →
    (write depth j).length ≤ fuel → Ends rest →
    readValue fuel (write depth j ++ rest) = some (j, rest)
  | j, 0, depth, rest, h, hfuel, _ => by
      obtain ⟨c, cs, hcs, -⟩ := exists_write_eq h depth
      rw [hcs] at hfuel
      exact absurd hfuel (Nat.not_succ_le_zero _)
  | .null, fuel + 1, depth, rest, _, _, _ => rfl
  | .bool true, fuel + 1, depth, rest, _, _, _ => rfl
  | .bool false, fuel + 1, depth, rest, _, _, _ => rfl
  | .number _, fuel + 1, depth, rest, ⟨n, rfl⟩, _, hrest => readValue_decimal n fuel depth hrest
  | .string s, fuel + 1, depth, rest, _, _, _ => by
      show readValue (fuel + 1) ('"' :: ((s.toList.flatMap escapeChar ++ ['"']) ++ rest)) = _
      rw [readValue, if_pos rfl, List.append_assoc, List.singleton_append, readCodes_body,
        Option.map_some, ofCodes, textOf?_codes]
  | .array [], fuel + 1, depth, rest, _, _, _ => rfl
  | .array (item :: items), fuel + 1, depth, rest, h, hfuel, _ => by
      obtain ⟨hfirst, hothers⟩ := h
      simp only [write, List.cons_append, List.append_assoc, List.nil_append, List.length_cons,
        List.length_append] at hfuel ⊢
      exact readValue_array hfirst
        (readValue_write item fuel (depth + 1) hfirst (by omega) (ends_writeItems _ _ _ _))
        (readItems_write items fuel (depth + 1) depth hothers (by omega))
  | .object [], fuel + 1, depth, rest, _, _, _ => rfl
  | .object ((name, item) :: members), 1, depth, rest, h, hfuel, _ => by
      simp [write, writeText] at hfuel
  | .object ((name, item) :: members), fuel + 2, depth, rest, h, hfuel, _ => by
      obtain ⟨hfirst, hothers⟩ := h
      simp only [write, List.cons_append, List.append_assoc, List.nil_append, List.length_cons,
        List.length_append] at hfuel ⊢
      exact readValue_object
        (readMember_write name hfirst
          (readValue_write item fuel (depth + 1) hfirst (by omega) (ends_writeMembers _ _ _ _)))
        (readMembers_write members (fuel + 1) (depth + 1) depth hothers (by omega))
  | .garbled _, _ + 1, _, _, h, _, _ => absurd h id

/-- The further items of an array are read up to its closing bracket. -/
theorem readItems_write : ∀ (items : List Json) (fuel depth outer : Nat) {rest : List Char},
    LegibleItems items → (writeItems depth items).length < fuel →
    readItems fuel (skip (writeItems depth items ++ (newLine outer ++ ']' :: rest)))
      = some (items, rest)
  | [], fuel + 1, depth, outer, rest, _, _ => by
      rw [writeItems, List.nil_append, skip_newLine, skip_cons rfl, readItems]
  | item :: items, fuel + 1, depth, outer, rest, h, hfuel => by
      obtain ⟨hfirst, hothers⟩ := h
      simp only [writeItems, List.cons_append, List.append_assoc, List.length_cons,
        List.length_append] at hfuel ⊢
      rw [skip_cons rfl]
      exact readItems_cons hfirst
        (readValue_write item fuel depth hfirst (by omega) (ends_writeItems _ _ _ _))
        (readItems_write items fuel depth outer hothers (by omega))

/-- The further members of an object are read up to its closing brace. -/
theorem readMembers_write : ∀ (members : List (String × Json)) (fuel depth outer : Nat)
    {rest : List Char}, LegibleMembers members → (writeMembers depth members).length < fuel →
    readMembers fuel (skip (writeMembers depth members ++ (newLine outer ++ '\x7d' :: rest)))
      = some (members.map fun member => (some member.1, member.2), rest)
  | [], fuel + 1, depth, outer, rest, _, _ => by
      rw [writeMembers, List.nil_append, skip_newLine, skip_cons rfl, readMembers, List.map_nil]
  | (name, item) :: members, 1, depth, outer, rest, h, hfuel => by
      simp [writeMembers] at hfuel
  | (name, item) :: members, fuel + 2, depth, outer, rest, h, hfuel => by
      obtain ⟨hfirst, hothers⟩ := h
      simp only [writeMembers, List.cons_append, List.append_assoc, List.length_cons,
        List.length_append] at hfuel ⊢
      rw [skip_cons rfl]
      exact readMembers_cons
        (readMember_write name hfirst
          (readValue_write item fuel depth hfirst (by omega) (ends_writeMembers _ _ _ _)))
        (readMembers_write members (fuel + 1) depth outer hothers (by omega))

end

-- ── Whole texts ───────────────────────────────────────────────────────────────────

/-- **Reading undoes writing**: the indented text of a legible value is read as the value. -/
theorem parse_pretty {j : Json} (h : j.Legible) : parse j.pretty = some j := by
  obtain ⟨c, cs, hcs, hspace, -⟩ := exists_write_eq h 0
  have hskip : skip (write 0 j) = write 0 j := by rw [hcs, skip_cons hspace]
  have hread := readValue_write j (2 * (write 0 j).length + 2) 0 h (by omega) ends_nil
  rw [List.append_nil] at hread
  rw [parse, pretty, String.toList_ofList, hskip, hread]
  rfl

end ParamStore.Json
