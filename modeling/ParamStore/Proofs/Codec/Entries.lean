import ParamStore.Proofs.Codec.Shape
import ParamStore.Proofs.Codec.Vector

/-!
# Entries — what a reader can find, and what the writer keeps of it

A reader finds entries in three ways, and each lets through other texts: between semicolons, where
    every entry is trimmed; between blanks, where a last one may run into an open bracket and end
    with a blank; and a text without brackets as one entry, whatever semicolons it holds. The
    writer knows one way only. It keeps what can stand before a semicolon: all entries but the
    last always can, the last of several loses its blanks, and a lone one can if it is solid.

* **`LooseEnd`** — the entries of a literal; `looseEnd_entriesOf`.
* **`Lasting`** — the entries that the writer keeps; `entryTokens_writeEntries_iff` says that
  among the ones that a reader finds these are read back.
-/

namespace ParamStore.Literal

/-- The entries of a literal that ends at some depth: solid ones, and a last one that is solid if
    the depth is zero. -/
structure LooseEnd (depth : Nat) (entries : List (List Char)) : Prop where
  front : ∀ entry ∈ entries.dropLast, Solid entry
  last : ∀ entry ∈ entries.getLast?, Loose entry
  shut : depth = 0 → ∀ entry ∈ entries.getLast?, Solid entry

theorem LooseEnd.of_solid {depth : Nat} {entries : List (List Char)}
    (h : ∀ entry ∈ entries, Solid entry) : LooseEnd depth entries where
  front entry hentry := h entry (List.dropLast_subset entries hentry)
  last entry hentry := (h entry (List.mem_of_mem_getLast? hentry)).loose
  shut _ entry hentry := h entry (List.mem_of_mem_getLast? hentry)

theorem LooseEnd.concat {depth : Nat} {front : List (List Char)} {last : List Char}
    (hfront : ∀ entry ∈ front, Solid entry) (hlast : Loose last)
    (hshut : depth = 0 → Solid last) : LooseEnd depth (front ++ [last]) where
  front entry hentry := hfront entry (by rwa [List.dropLast_concat] at hentry)
  last entry hentry := by
    rw [List.getLast?_concat] at hentry
    obtain rfl := Option.some.inj hentry
    exact hlast
  shut hdepth entry hentry := by
    rw [List.getLast?_concat] at hentry
    obtain rfl := Option.some.inj hentry
    exact hshut hdepth

-- ── Between blanks ────────────────────────────────────────────────────────────────

section Blanks

variable {separates : Char → Bool} (hblank : ∀ c, Text.isBlank c = true → separates c = true)

include hblank

/-- Where blanks separate, no part starts with one. -/
theorem TopFree.head {cs : List Char} (h : TopFree separates 0 cs) :
    ∀ c ∈ cs.head?, Text.isBlank c = false := by
  cases cs with
  | nil => exact fun c hc => absurd hc (by simp)
  | cons first rest =>
      intro c hc
      obtain rfl := Option.some.inj hc
      refine Bool.eq_false_iff.mpr ?_
      intro hc
      obtain ⟨hopen, hclose⟩ := not_bracket_of_isBlank hc
      exact Bool.eq_false_iff.mp ((topFree_cons.mp h).1 hopen hclose rfl) (hblank first hc)

/-- Where blanks separate, a sealed part does not end with one either. -/
theorem Sealed.trimmed {cs : List Char} (h : Sealed separates cs) : Text.Trimmed cs := by
  constructor
  · exact h.topFree.head hblank
  · intro c hc
    refine Bool.eq_false_iff.mpr ?_
    intro hend
    obtain ⟨front, rfl⟩ := List.getLast?_eq_some_iff.mp hc
    obtain ⟨hopen, hclose⟩ := not_bracket_of_isBlank hend
    -- the depth before the blank is the one after it
    have hdepth : openAfter 0 front = 0 := by
      have hshut := h.shut
      rw [openAfter_append] at hshut
      exact (shift_plain hopen hclose _).symm.trans hshut
    exact Bool.eq_false_iff.mp (h.topFree front c [] rfl hopen hclose hdepth) (hblank c hend)

end Blanks

/-- A literal without a semicolon at depth zero has the parts between blanks that are not empty. -/
theorem entriesOf_of_topFree {cs : List Char} (h : TopFree (· = ';') 0 cs) :
    entriesOf cs
      = ((cutTop Text.isBlank cs).filter fun part => !part.isEmpty).map String.ofList := by
  have hone : cutTop (· = ';') cs = [cs] := cutFrom_eq_singleton_iff.mpr ⟨rfl, h⟩
  rw [entriesOf, hone]

/-- Blanks and semicolons. -/
def parting (c : Char) : Bool := Text.isBlank c || decide (c = ';')

theorem parting_of_isBlank (c : Char) (h : Text.isBlank c = true) : parting c = true := by
  rw [parting, h, Bool.true_or]

theorem parting_of_semicolon (c : Char) (h : decide (c = ';') = true) : parting c = true := by
  rw [parting, h, Bool.or_true]

/-- Where no semicolon stands at depth zero, they may count as separators too. -/
theorem cutTop_parting {cs : List Char} (h : TopFree (· = ';') 0 cs) :
    cutTop parting cs = cutTop Text.isBlank cs := cutFrom_or h

/-- **The parts between blanks and semicolons** are solid, the last one apart. -/
theorem looseEnd_words (cs : List Char) :
    LooseEnd (openAfter 0 cs) ((cutTop parting cs).filter fun part => !part.isEmpty) := by
  have hsolid : ∀ part, Sealed parting part → Solid part := by
    intro part h
    exact ⟨h.trimmed parting_of_isBlank, h.mono parting_of_semicolon⟩
  obtain ⟨front, last, hcut, hfront, hlast, hdepth⟩ := exists_cutTop_eq parting cs
  have hkept : ∀ part ∈ front.filter (fun part => !part.isEmpty), Solid part := by
    intro part hpart
    exact hsolid part (hfront part (List.mem_of_mem_filter hpart))
  rw [hcut, List.filter_append]
  by_cases hempty : last = []
  · subst hempty
    rw [List.filter_singleton, List.isEmpty_nil, Bool.not_true, cond_false, List.append_nil]
    exact .of_solid hkept
  · have hfull : (!last.isEmpty) = true := by rwa [Bool.not_eq_true', List.isEmpty_eq_false_iff]
    rw [List.filter_singleton, hfull, cond_true]
    refine .concat hkept ⟨hlast.head parting_of_isBlank, hlast.mono parting_of_semicolon⟩ ?_
    intro hzero
    exact hsolid last ⟨hlast, hdepth.trans hzero⟩

-- ── The entries of a literal ──────────────────────────────────────────────────────

/-- **The entries of a literal are solid, the last one apart.** -/
theorem looseEnd_entriesOf (cs : List Char) :
    ∃ entries, entriesOf cs = entries.map String.ofList ∧ LooseEnd (openAfter 0 cs) entries := by
  obtain ⟨front, last, hcut, hfront, hlast, hdepth⟩ := exists_cutTop_eq (· = ';') cs
  have hsolid : ∀ part, Sealed (· = ';') part → Solid (Text.trimChars part) := by
    intro part h
    exact ⟨Text.trimmed_trimChars part, h.trimChars⟩
  have hkept : ∀ entry ∈ front.map Text.trimChars, Solid entry := by
    intro entry hentry
    obtain ⟨part, hpart, rfl⟩ := List.mem_map.mp hentry
    exact hsolid part (hfront part hpart)
  by_cases hne : front = []
  · subst hne
    obtain ⟨rfl, hfree⟩ := cutFrom_eq_singleton_iff.mp hcut
    exact ⟨_, entriesOf_of_topFree hfree, cutTop_parting hfree ▸ looseEnd_words last⟩
  · have hmap : ∀ parts : List (List Char),
        parts.map (fun part => String.ofList (Text.trimChars part))
          = (parts.map Text.trimChars).map String.ofList := by
      intro parts
      rw [List.map_map]
      rfl
    rw [entriesOf_concat hcut hne]
    by_cases hblank : Text.trimChars last = []
    · rw [if_pos hblank]
      exact ⟨_, hmap front, .of_solid hkept⟩
    · rw [if_neg hblank]
      refine ⟨_, hmap (front ++ [last]), ?_⟩
      rw [List.map_append]
      refine .concat hkept ⟨(Text.trimmed_trimChars last).1, hlast.trimChars⟩ ?_
      intro hzero
      exact hsolid last ⟨hlast, hdepth.trans hzero⟩

-- ── A lone entry ──────────────────────────────────────────────────────────────────

/-- Cut at blanks, an entry with a semicolon behind it is not the entry. -/
theorem words_concat_ne {c : Char} (hc : Text.isBlank c = false) (cs : List Char) :
    (cutTop Text.isBlank (c :: cs ++ [';'])).filter (fun part => !part.isEmpty)
      ≠ [c :: cs] := by
  intro h
  obtain ⟨front, last, hcut, hmore⟩ :=
    @cutFrom_concat_of_passes Text.isBlank (shift 0 c) cs ';' fun _ _ _ => by decide
  rw [List.cons_append, cutTop, cutFrom_cons_of_passes fun _ _ _ => hc, hmore] at h
  cases front with
  | nil =>
      -- the entry is a single part, and the semicolon grows it
      obtain ⟨rfl, -⟩ := cutFrom_eq_singleton_iff.mp hcut
      have hlength := congrArg (List.map List.length) h
      simp [grow] at hlength
  | cons first front =>
      -- the first part and the last one are both kept
      have hlength := congrArg List.length h
      simp [grow] at hlength

/-- A bracket that is open at the end takes the semicolon into the last part. -/
theorem entriesOf_body_ne_of_open {entry : List Char}
    (hhead : ∀ c ∈ entry.head?, Text.isBlank c = false) (hopen : openAfter 0 entry ≠ 0) :
    entriesOf (body [] entry) ≠ [String.ofList entry] := by
  rw [body_lone]
  obtain ⟨front, last, hcut, hmore⟩ :=
    @cutFrom_concat_of_passes (· = ';') 0 entry ';' fun _ _ hzero => absurd hzero hopen
  cases front with
  | nil =>
      intro h
      obtain ⟨rfl, -⟩ := cutFrom_eq_singleton_iff.mp hcut
      obtain ⟨-, hfree⟩ := cutFrom_eq_singleton_iff.mp hmore
      have hone : [String.ofList last] = [last].map String.ofList := rfl
      rw [entriesOf_of_topFree hfree, hone] at h
      have hwords := (List.map_inj_right fun _ _ => String.ofList_inj.mp).mp h
      cases last with
      | nil => exact hopen rfl
      | cons c cs => exact words_concat_ne (hhead c rfl) cs hwords
  | cons first front =>
      intro h
      have hkept : Text.trimChars (last ++ [';']) ≠ [] := by
        intro hnil
        have hblank := Text.isBlank_of_trimChars_eq_nil hnil ';' (by simp)
        exact absurd hblank (by decide)
      rw [entriesOf_concat hmore (List.cons_ne_nil _ _), if_neg hkept] at h
      have hlength := congrArg List.length h
      simp at hlength

/-- **A lone entry survives its closing semicolon exactly if it is solid.** -/
theorem entriesOf_body_lone_iff {entry : List Char}
    (hhead : ∀ c ∈ entry.head?, Text.isBlank c = false) :
    entriesOf (body [] entry) = [String.ofList entry] ↔ Solid entry := by
  constructor
  · intro h
    have hshut : openAfter 0 entry = 0 := by
      by_contra hopen
      exact entriesOf_body_ne_of_open hhead hopen h
    rw [entriesOf_body_of_shut hshut] at h
    obtain ⟨part, hpart, hread⟩ := List.map_eq_singleton_iff.mp h
    obtain ⟨rfl, hfree⟩ := cutFrom_eq_singleton_iff.mp hpart
    exact ⟨Text.trimmed_iff.mpr (String.ofList_inj.mp hread), hfree, hshut⟩
  · intro h
    rw [entriesOf_body_lone h.isSealed, Text.trimChars_eq_self h.trimmed]

-- ── Written once more ─────────────────────────────────────────────────────────────

/-- What the writer keeps of entries that a reader found: a last one without blanks at its ends,
    and a lone one that a semicolon ends. -/
structure Lasting (entries : List String) : Prop where
  last : ∀ entry ∈ entries.getLast?, Text.Trimmed entry.toList
  lone : ∀ entry, entries = [entry] → Sealed (· = ';') entry.toList

theorem lasting_nil : Lasting [] := by
  constructor
  · intro entry h
    exact absurd h (by simp)
  · intro entry h
    exact absurd h (by simp)

theorem lasting_singleton_iff {entry : String} : Lasting [entry] ↔ Solid entry.toList := by
  constructor
  · intro h
    exact ⟨h.last entry rfl, h.lone entry rfl⟩
  · intro h
    constructor
    · intro e he
      obtain rfl := Option.some.inj he
      exact h.trimmed
    · intro e he
      obtain rfl := List.singleton_inj.mp he
      exact h.isSealed

theorem lasting_concat_iff {front : List String} {last : String} (hne : front ≠ []) :
    Lasting (front ++ [last]) ↔ Text.Trimmed last.toList := by
  constructor
  · intro h
    exact h.last last List.getLast?_concat
  · intro h
    constructor
    · intro e he
      rw [List.getLast?_concat] at he
      obtain rfl := Option.some.inj he
      exact h
    · intro e he
      exact absurd (List.append_eq_singleton_iff.mp he) (by simp [hne])

/-- The entries of a literal that a reader finds. -/
theorem looseEnd_of_inner {raw : String} {cs : List Char} {entries : List String}
    (hinner : inner raw = .ok (some cs)) (h : entryTokens raw 0 = .ok entries) :
    LooseEnd (openAfter 0 cs) (entries.map String.toList) := by
  rw [entryTokens_zero hinner] at h
  obtain rfl := Except.ok.inj h
  obtain ⟨found, hfound, hloose⟩ := looseEnd_entriesOf cs
  rw [hfound, List.map_map]
  rwa [show String.toList ∘ String.ofList = id from funext fun _ => String.toList_ofList,
    List.map_id]

/-- What a reader finds without brackets is at most one entry, a trimmed one. -/
theorem trimmed_of_inner_none {raw : String} {entries : List String}
    (hinner : inner raw = .ok none) (h : entryTokens raw 0 = .ok entries) :
    entries.length ≤ 1 ∧ ∀ entry ∈ entries, Text.Trimmed entry.toList := by
  rw [entryTokens, hinner] at h
  dsimp only at h
  rw [if_pos rfl] at h
  obtain rfl := Except.ok.inj h
  by_cases hempty : (Text.trim raw).isEmpty = true
  · rw [if_pos hempty]
    exact ⟨Nat.zero_le 1, fun entry hentry => absurd hentry List.not_mem_nil⟩
  · rw [if_neg hempty]
    refine ⟨Nat.le_refl 1, List.forall_mem_singleton.mpr ?_⟩
    rw [Text.toList_trim]
    exact Text.trimmed_trimChars raw.toList

/-- A reader finds entries in a text only if it is a literal or has no bracket at its ends. -/
theorem inner_of_entryTokens {raw : String} {entries : List String}
    (h : entryTokens raw 0 = .ok entries) :
    inner raw = .ok none ∨ ∃ cs, inner raw = .ok (some cs) := by
  rw [entryTokens.eq_def] at h
  split at h
  · cases h
  · next hinner => exact .inl hinner
  · next cs hinner => exact .inr ⟨cs, hinner⟩

/-- The last entry that a reader finds starts with no blank. -/
theorem head_of_entryTokens {raw : String} {front : List String} {last : String}
    (h : entryTokens raw 0 = .ok (front ++ [last])) :
    ∀ c ∈ last.toList.head?, Text.isBlank c = false := by
  rcases inner_of_entryTokens h with hinner | ⟨cs, hinner⟩
  · have htrimmed := (trimmed_of_inner_none hinner h).2
    exact (htrimmed last (List.mem_append_right _ List.mem_cons_self)).1
  · refine ((looseEnd_of_inner hinner h).last last.toList ?_).head
    rw [List.map_append, List.map_singleton]
    exact List.getLast?_concat

/-- Several entries are those of a literal: solid ones, the last one apart. -/
theorem solid_of_entryTokens {raw : String} {front : List String} {last : String}
    (h : entryTokens raw 0 = .ok (front ++ [last])) (hne : front ≠ []) :
    (∀ entry ∈ front.map String.toList, Solid entry) ∧ Loose last.toList := by
  rcases inner_of_entryTokens h with hinner | ⟨cs, hinner⟩
  · have hshort := (trimmed_of_inner_none hinner h).1
    rw [List.length_append, List.length_singleton] at hshort
    have := List.length_pos_iff.mpr hne
    omega
  · have hloose := looseEnd_of_inner hinner h
    rw [List.map_append, List.map_singleton] at hloose
    have hfront := hloose.front
    rw [List.dropLast_concat] at hfront
    exact ⟨hfront, hloose.last last.toList List.getLast?_concat⟩

/-- **Among the entries that a reader finds, the lasting ones are read back** from the literal that
    the writer makes of them. -/
theorem entryTokens_writeEntries_iff {raw : String} {entries : List String}
    (h : entryTokens raw 0 = .ok entries) :
    entryTokens (writeEntries entries) 0 = .ok entries ↔ Lasting entries := by
  rcases List.eq_nil_or_concat entries with rfl | ⟨front, last, rfl⟩
  · exact iff_of_true rfl lasting_nil
  · rw [List.concat_eq_append] at h ⊢
    rw [entryTokens_zero (inner_enclosed (toList_writeEntries front last)), Except.ok.injEq]
    by_cases hne : front = []
    · subst hne
      have hlone := entriesOf_body_lone_iff (head_of_entryTokens h)
      rw [String.ofList_toList] at hlone
      exact hlone.trans lasting_singleton_iff.symm
    · -- the last entry comes back trimmed, and the others as they are
      obtain ⟨hfront, hlast⟩ := solid_of_entryTokens h hne
      have hread : entriesOf (body (front.map String.toList) last.toList)
          = front ++ [Text.trim last] := by
        rw [entriesOf_body_several hfront (by simpa using hne) hlast, List.map_append,
          List.map_map, List.map_singleton]
        exact congrArg (· ++ _) (List.map_id'' (fun _ => String.ofList_toList) front)
      rw [hread, List.append_cancel_left_eq, List.singleton_inj, Text.trim_eq_self_iff,
        lasting_concat_iff hne]

/-- **All entries of a literal are lasting** if its inner brackets are closed. -/
theorem lasting_of_inner {raw : String} {cs : List Char} {entries : List String}
    (hinner : inner raw = .ok (some cs)) (hshut : openAfter 0 cs = 0)
    (h : entryTokens raw 0 = .ok entries) : Lasting entries := by
  have hloose := looseEnd_of_inner hinner h
  rcases List.eq_nil_or_concat entries with rfl | ⟨front, last, rfl⟩
  · exact lasting_nil
  · rw [List.concat_eq_append] at hloose ⊢
    rw [List.map_append, List.map_singleton] at hloose
    have hsolid := hloose.shut hshut last.toList List.getLast?_concat
    by_cases hne : front = []
    · subst hne
      exact lasting_singleton_iff.mpr hsolid
    · exact (lasting_concat_iff hne).mpr hsolid.trimmed

end ParamStore.Literal
