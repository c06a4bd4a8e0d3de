import ParamStore.Codec.Vector
import ParamStore.Proofs.Codec.Integer
import ParamStore.Proofs.Codec.Parts

/-!
# Vector literals — a list is read back from its own literal

The writer joins the entries with a semicolon and a blank, and closes a single entry and an empty
    last one with a further semicolon. The reader drops one blank part at the end and cuts a
    literal without a semicolon at blanks. On closed entries the two rules meet: the only literal
    without a semicolon is the empty one, and the part that is dropped is the one after the
    closing semicolon. The literal is closed again, so the argument goes through any depth.

* **`Solid`**, **`Loose`** — what an entry must be like, and what the last of several may be.
* **`entriesOf_body`** — the entries of what the writer puts between the brackets;
  `entriesOf_body_several` says what becomes of a loose last one.
* **`Exact`** — a value with a closed text that is read back; `exact_list` carries it from the
  entries to the list, `Nested.exact` to lists of lists.
* **`lists_read_back`** — the round trip of lists, fixed lists and nested lists.
-/

namespace ParamStore

namespace Literal

-- ── Entries that can be written ───────────────────────────────────────────────────

/-- Neither end is a blank, and a semicolon behind the text ends it. -/
structure Solid (cs : List Char) : Prop where
  trimmed : Text.Trimmed cs
  isSealed : Sealed (· = ';') cs

/-- What a last entry may be: a blank may stand at its end and a bracket be left open. -/
structure Loose (cs : List Char) : Prop where
  head : ∀ c ∈ cs.head?, Text.isBlank c = false
  topFree : TopFree (· = ';') 0 cs

theorem Solid.loose {cs : List Char} (h : Solid cs) : Loose cs := ⟨h.trimmed.1, h.isSealed.topFree⟩

theorem solid_nil : Solid [] := ⟨by decide, sealed_nil⟩

theorem Closed.solid {cs : List Char} (h : Closed cs) : Solid cs := ⟨h.trimmed, h.whole.isSealed⟩

-- ── What stands between the brackets ──────────────────────────────────────────────

/-- The parts between the semicolons of joined entries: all but the first start with a blank. -/
def spread : List (List Char) → List (List Char)
  | [] => []
  | entry :: more => entry :: more.map (' ' :: ·)

theorem spread_ne_nil {entries : List (List Char)} (h : entries ≠ []) : spread entries ≠ [] := by
  cases entries with
  | nil => exact absurd rfl h
  | cons entry more => exact List.cons_ne_nil _ _

theorem spread_concat_ne_nil (front : List (List Char)) (last : List Char) :
    spread (front ++ [last]) ≠ [] :=
  spread_ne_nil (List.append_ne_nil_of_right_ne_nil front (List.cons_ne_nil last []))

/-- Joining with a semicolon and a blank is joining the parts with a semicolon. -/
theorem intercalate_spread (entries : List (List Char)) :
    [';'].intercalate (spread entries) = [';', ' '].intercalate entries := by
  induction entries with
  | nil => rfl
  | cons entry rest ih =>
      cases rest with
      | nil => rw [spread, List.map_nil, List.intercalate_singleton, List.intercalate_singleton]
      | cons next more =>
          rw [spread, List.map_cons, List.intercalate_cons_cons, List.intercalate_cons_cons_left,
            List.intercalate_cons_cons, ← ih, spread, List.append_assoc, List.append_assoc]
          rfl

/-- A closing semicolon is a joint with an empty part behind it. -/
theorem intercalate_concat_nil {sep : List Char} {parts : List (List Char)} (h : parts ≠ []) :
    sep.intercalate (parts ++ [[]]) = sep.intercalate parts ++ sep := by
  induction parts with
  | nil => exact absurd rfl h
  | cons part rest ih =>
      cases rest with
      | nil =>
          rw [List.singleton_append, List.intercalate_cons_cons, List.intercalate_singleton,
            List.intercalate_singleton, List.append_nil]
      | cons next more =>
          have hrest := ih (List.cons_ne_nil _ _)
          rw [List.cons_append] at hrest
          rw [List.cons_append, List.cons_append, List.intercalate_cons_cons, hrest,
            List.intercalate_cons_cons, List.append_assoc (part ++ sep)]

theorem trimChars_blank_cons (cs : List Char) :
    Text.trimChars (' ' :: cs) = Text.trimChars cs := by
  have hblank : ∀ c ∈ [' '], Text.isBlank c = true :=
    List.forall_mem_singleton.mpr (by decide)
  exact Text.trimChars_append_left hblank cs

theorem map_trimChars_spread {entries : List (List Char)}
    (h : ∀ entry ∈ entries, Text.Trimmed entry) :
    (spread entries).map Text.trimChars = entries := by
  cases entries with
  | nil => rfl
  | cons entry more =>
      have hmore : (more.map (' ' :: ·)).map Text.trimChars = more := by
        rw [List.map_map]
        refine (List.map_congr_left fun e he => ?_).trans (List.map_id more)
        have htrimmed := h e (List.mem_cons_of_mem _ he)
        exact (trimChars_blank_cons e).trans (Text.trimChars_eq_self htrimmed)
      rw [spread, List.map_cons, hmore, Text.trimChars_eq_self (h entry List.mem_cons_self)]

theorem spread_concat {front : List (List Char)} (h : front ≠ []) (last : List Char) :
    spread (front ++ [last]) = spread front ++ [' ' :: last] := by
  cases front with
  | nil => exact absurd rfl h
  | cons entry more =>
      rw [List.cons_append, spread, spread, List.map_append, List.map_singleton, List.cons_append]

theorem map_trim_spread {entries : List (List Char)}
    (h : ∀ entry ∈ entries, Text.Trimmed entry) :
    (spread entries).map (fun part => String.ofList (Text.trimChars part))
      = entries.map String.ofList := by
  conv_rhs => rw [← map_trimChars_spread h]
  rw [List.map_map]
  rfl

/-- A part is an entry, perhaps with a blank in front. -/
theorem mem_spread {entries : List (List Char)} {part : List Char} (h : part ∈ spread entries) :
    ∃ entry ∈ entries, part = entry ∨ part = ' ' :: entry := by
  cases entries with
  | nil => exact absurd h List.not_mem_nil
  | cons entry more =>
      rcases List.mem_cons.mp h with rfl | hmore
      · exact ⟨part, List.mem_cons_self, .inl rfl⟩
      · obtain ⟨next, hnext, rfl⟩ := List.mem_map.mp hmore
        exact ⟨next, List.mem_cons_of_mem _ hnext, .inr rfl⟩

/-- The parts of solid entries are sealed. -/
theorem sealed_of_mem_spread {entries : List (List Char)} (h : ∀ entry ∈ entries, Solid entry)
    {part : List Char} (hpart : part ∈ spread entries) : Sealed (· = ';') part := by
  obtain ⟨entry, hentry, rfl | rfl⟩ := mem_spread hpart
  · exact (h part hentry).isSealed
  · exact (h entry hentry).isSealed.blank_cons (by decide)

/-- What the writer puts between the brackets of entries with a last one. -/
def body (front : List (List Char)) (last : List Char) : List Char :=
  [';', ' '].intercalate (front ++ [last]) ++ if front = [] ∨ last = [] then [';'] else []

/-- The literal of entries with a last one. -/
theorem toList_writeEntries (front : List String) (last : String) :
    (writeEntries (front ++ [last])).toList
      = '[' :: (body (front.map String.toList) last.toList ++ [']']) := by
  have hcloses : ((front ++ [last]).length = 1 || last.isEmpty) = true
      ↔ front.map String.toList = [] ∨ last.toList = [] := by
    rw [Bool.or_eq_true, decide_eq_true_eq, List.length_append, List.length_singleton,
      Nat.add_eq_right, List.length_eq_zero_iff, List.map_eq_nil_iff, String.isEmpty_iff,
      String.toList_eq_nil_iff]
  rw [writeEntries, List.getLast?_concat, body]
  dsimp only
  rw [if_congr hcloses rfl rfl, String.toList_append, String.toList_append, String.toList_append,
    String.toList_intercalate, List.map_append, List.map_singleton]
  by_cases h : front.map String.toList = [] ∨ last.toList = []
  · rw [if_pos h, if_pos h]
    rfl
  · rw [if_neg h, if_neg h]
    rfl

/-- The entries of a literal whose parts end with a given one, blank or not. -/
theorem entriesOf_concat {cs last : List Char} {parts : List (List Char)}
    (h : cutTop (· = ';') cs = parts ++ [last]) (hne : parts ≠ []) :
    entriesOf cs = (if Text.trimChars last = [] then parts else parts ++ [last]).map
      fun part => String.ofList (Text.trimChars part) := by
  rw [entriesOf, h]
  split
  · rename_i part hone
    exact absurd (List.append_eq_singleton_iff.mp hone) (by simp [hne])
  · rw [List.getLast?_concat, List.dropLast_concat]
    dsimp only
    simp only [List.isEmpty_iff]

/-- A semicolon at depth zero ends a part. -/
theorem cutTop_append_semicolon {cs : List Char} (h : openAfter 0 cs = 0) (rest : List Char) :
    cutTop (· = ';') (cs ++ ';' :: rest) = cutTop (· = ';') cs ++ cutTop (· = ';') rest :=
  cutFrom_append_of_stops (by decide) (by decide) h (by decide) rest

/-- A lone entry is closed with a semicolon. -/
theorem body_lone (entry : List Char) : body [] entry = entry ++ [';'] := by
  rw [body, if_pos (.inl rfl), List.nil_append, List.intercalate_singleton]

/-- Where no bracket is left open, the entries of a lone entry's body are its trimmed parts. -/
theorem entriesOf_body_of_shut {entry : List Char} (h : openAfter 0 entry = 0) :
    entriesOf (body [] entry)
      = (cutTop (· = ';') entry).map fun part => String.ofList (Text.trimChars part) := by
  have hcut : cutTop (· = ';') (body [] entry) = cutTop (· = ';') entry ++ [[]] := by
    rw [body_lone, cutTop_append_semicolon h]
    rfl
  rw [entriesOf_concat hcut (cutFrom_ne_nil _ _ _), if_pos Text.trimChars_nil]

/-- The entries of a sealed entry's body: the entry, trimmed. -/
theorem entriesOf_body_lone {entry : List Char} (h : Sealed (· = ';') entry) :
    entriesOf (body [] entry) = [String.ofList (Text.trimChars entry)] := by
  rw [entriesOf_body_of_shut h.shut, h.cutTop_eq, List.map_singleton]

section Body

variable {front : List (List Char)} (h : ∀ entry ∈ front, Solid entry)

include h

/-- Behind an empty last entry stands a semicolon, and an empty part behind that. -/
theorem cutTop_body_of_empty :
    cutTop (· = ';') (body front []) = spread (front ++ [[]]) ++ [[]] := by
  have hall := List.forall_mem_append.mpr ⟨h, List.forall_mem_singleton.mpr solid_nil⟩
  rw [body, if_pos (.inr rfl), ← intercalate_spread,
    ← intercalate_concat_nil (spread_concat_ne_nil front [])]
  exact cutTop_intercalate_concat (by decide) (by decide) (by decide)
    (fun part hpart => sealed_of_mem_spread hall hpart) (topFree_nil 0)

variable (hne : front ≠ [])

include hne

/-- Any other last entry is the last part. -/
theorem cutTop_body_of_nonempty {last : List Char} (hlast : TopFree (· = ';') 0 last)
    (hfull : last ≠ []) :
    cutTop (· = ';') (body front last) = spread front ++ [' ' :: last] := by
  rw [body, if_neg (not_or.mpr ⟨hne, hfull⟩), List.append_nil, ← intercalate_spread,
    spread_concat hne]
  exact cutTop_intercalate_concat (by decide) (by decide) (by decide)
    (fun part hpart => sealed_of_mem_spread h hpart) (hlast.blank_cons (by decide))

/-- **The entries of what the writer puts between the brackets of several entries**: those that
    were written, the last one trimmed. -/
theorem entriesOf_body_several {last : List Char} (hlast : Loose last) :
    entriesOf (body front last) = (front ++ [Text.trimChars last]).map String.ofList := by
  by_cases hfull : last = []
  · -- the part behind the closing semicolon is the blank one that is dropped
    subst hfull
    have hall := List.forall_mem_append.mpr ⟨h, List.forall_mem_singleton.mpr solid_nil⟩
    rw [entriesOf_concat (cutTop_body_of_empty h) (spread_concat_ne_nil front []),
      if_pos Text.trimChars_nil, Text.trimChars_nil,
      map_trim_spread fun entry hentry => (hall entry hentry).trimmed]
  · -- the last part is an entry, which is not blank
    have hkept : Text.trimChars (' ' :: last) ≠ [] := by
      rw [trimChars_blank_cons]
      intro hnil
      obtain ⟨c, more, rfl⟩ := List.exists_cons_of_ne_nil hfull
      have hblank := Text.isBlank_of_trimChars_eq_nil hnil c List.mem_cons_self
      exact Bool.false_ne_true ((hlast.head c rfl).symm.trans hblank)
    rw [entriesOf_concat (cutTop_body_of_nonempty h hne hlast.topFree hfull) (spread_ne_nil hne),
      if_neg hkept, List.map_append, List.map_append,
      map_trim_spread fun entry hentry => (h entry hentry).trimmed, List.map_singleton,
      trimChars_blank_cons, List.map_singleton]

end Body

/-- **Solid entries** are the entries of what the writer puts between the brackets. -/
theorem entriesOf_body {front : List (List Char)} {last : List Char}
    (h : ∀ entry ∈ front ++ [last], Solid entry) :
    entriesOf (body front last) = (front ++ [last]).map String.ofList := by
  obtain ⟨hfront, hlast⟩ := List.forall_mem_append.mp h
  have hsolid := List.forall_mem_singleton.mp hlast
  have htrim := Text.trimChars_eq_self hsolid.trimmed
  by_cases hne : front = []
  · subst hne
    rw [entriesOf_body_lone hsolid.isSealed, htrim]
    rfl
  · rw [entriesOf_body_several hfront hne hsolid.loose, htrim]

theorem balanced_body {front : List (List Char)} {last : List Char}
    (h : ∀ entry ∈ front ++ [last], Balanced entry) : Balanced (body front last) := by
  refine (balanced_intercalate (by decide) h).append ?_
  by_cases hcloses : front = [] ∨ last = []
  · rw [if_pos hcloses]
    exact balanced_plain (List.forall_mem_singleton.mpr (by decide))
  · rw [if_neg hcloses]
    exact balanced_nil

/-- **The literal of closed entries** is a balanced text in brackets that has these entries. -/
theorem exists_entriesOf_eq {entries : List String} (h : ∀ entry ∈ entries, Closed entry.toList) :
    ∃ cs, (writeEntries entries).toList = '[' :: (cs ++ [']'])
      ∧ Balanced cs ∧ entriesOf cs = entries := by
  rcases List.eq_nil_or_concat entries with rfl | ⟨front, last, rfl⟩
  · exact ⟨[], rfl, balanced_nil, rfl⟩
  · rw [List.concat_eq_append] at h ⊢
    have hchars : front.map String.toList ++ [last.toList] = (front ++ [last]).map String.toList := by
      rw [List.map_append, List.map_singleton]
    have hclosed : ∀ entry ∈ front.map String.toList ++ [last.toList], Closed entry := by
      rw [hchars]
      intro entry hentry
      obtain ⟨text, htext, rfl⟩ := List.mem_map.mp hentry
      exact h text htext
    refine ⟨body (front.map String.toList) last.toList, toList_writeEntries front last,
      balanced_body fun entry hentry => (hclosed entry hentry).balanced, ?_⟩
    rw [entriesOf_body fun entry hentry => (hclosed entry hentry).solid, hchars, List.map_map]
    exact List.map_id'' (fun _ => String.ofList_toList) _

-- ── Reading a literal ─────────────────────────────────────────────────────────────

/-- The brackets of a literal enclose what stands between them. -/
theorem inner_enclosed {raw : String} {cs : List Char} (h : raw.toList = '[' :: (cs ++ [']'])) :
    inner raw = .ok (some cs) := by
  refine inner_of_enclosed ?_
  rw [Text.toList_trim, h]
  exact Text.trimChars_eq_self (trimmed_enclose cs)

/-- The entries of a literal that has as many as are requested. -/
theorem entryTokens_of_le {raw : String} {cs : List Char} (hinner : inner raw = .ok (some cs))
    {size : Nat} (hsize : size ≤ (entriesOf cs).length) :
    entryTokens raw size
      = .ok (if size = 0 then entriesOf cs else (entriesOf cs).take size) := by
  rw [entryTokens, hinner]
  dsimp only
  rw [if_neg (Nat.not_lt.mpr hsize)]

/-- The entries of a literal, if nothing is requested. -/
theorem entryTokens_zero {raw : String} {cs : List Char} (hinner : inner raw = .ok (some cs)) :
    entryTokens raw 0 = .ok (entriesOf cs) := by
  rw [entryTokens_of_le hinner (Nat.zero_le _), if_pos rfl]

/-- **The writer's literal has the entries that were written**, all of them or as many requested as
    there are. -/
theorem entryTokens_writeEntries {entries : List String}
    (h : ∀ entry ∈ entries, Closed entry.toList) {size : Nat}
    (hsize : size = 0 ∨ size = entries.length) :
    entryTokens (writeEntries entries) size = .ok entries := by
  obtain ⟨cs, hraw, _, hentries⟩ := exists_entriesOf_eq h
  have hle : size ≤ (entriesOf cs).length := by
    rw [hentries]
    omega
  rw [entryTokens_of_le (inner_enclosed hraw) hle, hentries]
  rcases hsize with rfl | rfl
  · rw [if_pos rfl]
  · rw [List.take_length, ite_self]

theorem closed_writeEntries {entries : List String} (h : ∀ entry ∈ entries, Closed entry.toList) :
    Closed (writeEntries entries).toList := by
  obtain ⟨cs, hraw, hbalanced, _⟩ := exists_entriesOf_eq h
  rw [hraw]
  exact closed_enclose hbalanced

end Literal

-- ── Values that are read back ─────────────────────────────────────────────────────

/-- A value with a closed text that is read back. -/
structure Exact {α : Type} [Codec α] (value : α) : Prop where
  closed : Literal.Closed (Codec.encode value).toList
  reads : Codec.read (Codec.encode value) = .ok value

/-- The texts of values that are read back are read back one after the other. -/
theorem readAll_encode {α : Type} [Codec α] {xs : List α}
    (h : ∀ x ∈ xs, Codec.read (Codec.encode x) = .ok x) :
    readAll (xs.map Codec.encode) = .ok xs := by
  induction xs with
  | nil => rfl
  | cons x xs ih =>
      have hx := h x List.mem_cons_self
      have hxs := ih fun y hy => h y (List.mem_cons_of_mem _ hy)
      rw [readAll] at hxs ⊢
      rw [List.map_cons, List.mapM_cons, hx, hxs]
      rfl

/-- Texts that are read as texts are these texts. -/
theorem readAll_strings (texts : List String) :
    (readAll texts : Except Error (List String)) = .ok texts := by
  have hread := readAll_encode fun text (_ : text ∈ texts) => read_encode_string text
  have hsame : texts.map Codec.encode = texts := List.map_id'' (fun _ => rfl) texts
  rwa [hsame] at hread

section Lists

variable {α : Type} [Codec α] {xs : List α}

theorem closed_of_mem_map_encode (h : ∀ x ∈ xs, Exact x) :
    ∀ entry ∈ xs.map Codec.encode, Literal.Closed entry.toList := by
  intro entry hentry
  obtain ⟨x, hx, rfl⟩ := List.mem_map.mp hentry
  exact (h x hx).closed

/-- A list is what its entry texts are read as, one by one. -/
theorem decode_list {raw : String} {shape : Shape} {texts : List String}
    (h : Literal.entryTokens raw shape.size = .ok texts) :
    (Codec.decode raw shape : Except Error (List α)) = readAll texts := by
  simp only [Codec.decode, h]

/-- A list is read back under every request for all of its entries. -/
theorem decode_encode_list (h : ∀ x ∈ xs, Exact x) {shape : Shape}
    (hshape : shape.size = 0 ∨ shape.size = xs.length) :
    Codec.decode (Codec.encode xs) shape = .ok xs := by
  have hsize : shape.size = 0 ∨ shape.size = (xs.map Codec.encode).length := by
    rwa [List.length_map]
  have htokens := Literal.entryTokens_writeEntries (closed_of_mem_map_encode h) hsize
  exact (decode_list htokens).trans (readAll_encode fun x hx => (h x hx).reads)

/-- **A list of values that are read back is read back**, and its text is closed again. -/
theorem exact_list (h : ∀ x ∈ xs, Exact x) : Exact xs where
  closed := Literal.closed_writeEntries (closed_of_mem_map_encode h)
  reads := by
    rw [Codec.read]
    exact decode_encode_list h (.inl rfl)

/-- A list of fixed length is the list that is read under a request for that length. -/
theorem decode_fixedList {n : Nat} {raw : String} {shape : Shape}
    (hshape : shape.size = 0 ∨ shape.size = n)
    (hread : Codec.decode raw (.vector n) = .ok xs) (hlength : xs.length = n) :
    Codec.decode raw shape = .ok (⟨xs, hlength⟩ : FixedList α n) := by
  have hfits : ¬(shape.size ≠ 0 ∧ shape.size ≠ n) := by omega
  show (if shape.size ≠ 0 ∧ shape.size ≠ n then _ else _) = _
  rw [if_neg hfits, hread]
  exact dif_pos hlength

/-- **A list of fixed length is read back** if its entries are. -/
theorem exact_fixedList {n : Nat} {xs : FixedList α n} (h : ∀ x ∈ xs.toList, Exact x) :
    Exact xs where
  closed := Literal.closed_writeEntries (closed_of_mem_map_encode h)
  reads := by
    have hread : Codec.decode (Codec.encode xs) (.vector n) = .ok xs.toList :=
      decode_encode_list h (.inr xs.length_eq.symm)
    rw [Codec.read, decode_fixedList (.inl rfl) hread xs.length_eq]

end Lists

-- ── Entries and their nesting ─────────────────────────────────────────────────────

/-- An integer of any kind is read back. -/
theorem exact_ranged {k : Number.IntKind} (n : Number.Ranged k) : Exact n :=
  ⟨Literal.closed_plain fun _ hc => plain_of_mem_decimal hc, read_encode_ranged n⟩

/-- A truth value is read back. -/
theorem exact_bool (b : Bool) : Exact b := by
  refine ⟨?_, read_encode_bool b⟩
  cases b with
  | false => decide
  | true => decide

theorem exact_string {s : String} (h : Literal.Closed s.toList) : Exact s :=
  ⟨h, read_encode_string s⟩

/-- Lists of lists of values, to a given depth. -/
def Nested (α : Type) : Nat → Type
  | 0 => α
  | depth + 1 => List (Nested α depth)

namespace Nested

variable {α : Type}

/-- The codec of nested lists is that of lists at every level. -/
instance codec [Codec α] : (depth : Nat) → Codec (Nested α depth)
  | 0 => inferInstanceAs (Codec α)
  | depth + 1 =>
    have := codec depth
    inferInstanceAs (Codec (List (Nested α depth)))

/-- All the innermost values have a property. -/
def Every (P : α → Prop) : (depth : Nat) → Nested α depth → Prop
  | 0 => P
  | depth + 1 => fun (xs : List (Nested α depth)) => ∀ x ∈ xs, Every P depth x

/-- **Nested lists are read back** if their innermost values are, whatever the depth. -/
theorem exact [Codec α] {P : α → Prop} (hP : ∀ a, P a → Exact a) {depth : Nat}
    {x : Nested α depth} (h : Every P depth x) : Exact x := by
  induction depth with
  | zero => exact hP x h
  | succ depth ih => exact exact_list fun y hy => ih (h y hy)

/-- A property of all values is one of the innermost values. -/
theorem every_of_forall {P : α → Prop} (hP : ∀ a, P a) {depth : Nat} (x : Nested α depth) :
    Every P depth x := by
  induction depth with
  | zero => exact hP x
  | succ depth ih => exact fun y _ => ih y

end Nested

/-- **A list of values with closed texts that are read back is read back**, as a list and as a list
    of its length, and its text is closed again; so are lists of lists of integers, of truth
    values and of closed texts at every depth. -/
theorem lists_read_back :
    (∀ (α : Type) [Codec α] (xs : List α), (∀ x ∈ xs, Exact x) →
      Exact xs ∧ Exact (⟨xs, rfl⟩ : FixedList α xs.length))
    ∧ (∀ (k : Number.IntKind) (depth : Nat) (x : Nested (Number.Ranged k) depth), Exact x)
    ∧ (∀ (depth : Nat) (x : Nested Bool depth), Exact x)
    ∧ ∀ (depth : Nat) (x : Nested String depth),
      Nested.Every (fun s => Literal.Closed s.toList) depth x → Exact x := by
  refine ⟨?_, ?_, ?_, ?_⟩
  · intro α _ xs h
    exact ⟨exact_list h, exact_fixedList h⟩
  · intro k depth x
    exact Nested.exact (fun n _ => exact_ranged n) (Nested.every_of_forall (fun _ => trivial) x)
  · intro depth x
    exact Nested.exact (fun b _ => exact_bool b) (Nested.every_of_forall (fun _ => trivial) x)
  · intro depth x h
    exact Nested.exact (fun _ hs => exact_string hs) h

/-- Empty entries at both ends, a semicolon in inner brackets, a list of one empty entry and an
    empty list, at two depths. -/
theorem lists_read_back_empty_entries :
    let entries := ["", "a b", "[;]", ""]
    let rows : Nested String 2 := [[""], [], entries]
    Codec.encode rows = "[[;]; []; [; a b; [;]; ;]]"
      ∧ (∀ s ∈ entries, Exact s) ∧ Exact entries ∧ Exact (⟨entries, rfl⟩ : FixedList String 4)
      ∧ Nested.Every (fun s => Literal.Closed s.toList) 2 rows ∧ Exact rows := by
  intro entries rows
  have hentries : ∀ s ∈ entries, Literal.Closed s.toList := by decide
  have hexact : ∀ s ∈ entries, Exact s := fun s hs => exact_string (hentries s hs)
  have hrows : Nested.Every (fun s => Literal.Closed s.toList) 2 rows := by
    show ∀ row ∈ [[""], [], entries], ∀ s ∈ row, Literal.Closed s.toList
    decide
  obtain ⟨hlists, _, _, hnested⟩ := lists_read_back
  obtain ⟨hlist, hfixed⟩ := hlists String entries hexact
  exact ⟨by rfl, hexact, hlist, hfixed, hrows, hnested 2 rows hrows⟩

end ParamStore
