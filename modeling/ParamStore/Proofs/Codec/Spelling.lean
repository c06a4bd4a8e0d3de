import ParamStore.Proofs.Codec.Entries

/-!
# Spellings — one list of entries, written in several ways

An entry without blanks and semicolons outside its brackets can be told from its neighbours by
    either of them, so a list of such entries has many literals: with blanks between the entries, or
    with semicolons that have blanks around them, and with one more semicolon behind the last. The
    reader cuts a literal in two different ways, and whether it finds a semicolon at depth zero
    decides which. A single entry has none between its neighbours; there the two ways meet.

* **`Compact`** — the entries that can be written in each of these ways.
* **`Joined`** — texts with something of a kind between any two; `Joined.of_append` carries a
  property from these pieces to the whole.
* **`Spells`** — the literals of a list of entries, blanks in every place that takes them.
* **`spacedParts_joined`**, **`map_trimChars_joined`** — the two cuts give the entries back.
* **`spellings_read_alike`** — the result is that of the entries, however they are written.
-/

namespace ParamStore

namespace Literal

-- ── What a literal is made of ─────────────────────────────────────────────────────

/-- Blanks only, perhaps none. -/
def Padding (cs : List Char) : Prop := ∀ c ∈ cs, Text.isBlank c = true

/-- An entry that blanks and semicolons leave whole: there are none outside its brackets, and these
    are balanced. -/
structure Compact (text : String) : Prop where
  full : text ≠ ""
  whole : Whole parting text.toList

instance (cs : List Char) : Decidable (Padding cs) :=
  decidable_of_iff (cs.all Text.isBlank = true) List.all_eq_true

instance (text : String) : Decidable (Compact text) :=
  decidable_of_iff (text ≠ "" ∧ Balanced text.toList ∧ Uncut parting 0 text.toList)
    ⟨fun ⟨hfull, hbalanced, huncut⟩ => ⟨hfull, hbalanced, huncut⟩,
      fun h => ⟨h.full, h.whole.balanced, h.whole.uncut⟩⟩

/-- A blank, or several. -/
def Gap (cs : List Char) : Prop := cs ≠ [] ∧ Padding cs

instance (cs : List Char) : Decidable (Gap cs) :=
  inferInstanceAs (Decidable (_ ∧ Padding cs))

/-- A semicolon, perhaps with blanks around it. -/
def Joint (cs : List Char) : Prop :=
  ∃ before after, Padding before ∧ Padding after ∧ cs = before ++ ';' :: after

/-- Some texts in a row, at least one, with something of a kind between any two. -/
inductive Joined (Between : List Char → Prop) : List String → List Char → Prop where
  | lone (text : String) : Joined Between [text] text.toList
  | more (text : String) {between : List Char} {texts : List String} {cs : List Char} :
      Between between → Joined Between texts cs →
      Joined Between (text :: texts) (text.toList ++ (between ++ cs))

/-- What may stand between the brackets of some entries, blanks at its ends apart. -/
inductive Written (texts : List String) : List Char → Prop where
  | spaced {cs : List Char} : Joined Gap texts cs → Written texts cs
  | separated {cs : List Char} : Joined Joint texts cs → Written texts cs
  | closed {cs before : List Char} : Joined Joint texts cs → Padding before →
      Written texts (cs ++ (before ++ [';']))

/-- The literals of some entries: what may stand between their brackets, with blanks inside of the
    brackets and around them. -/
def Spells (texts : List String) (raw : String) : Prop :=
  ∃ before front cs back after, Padding before ∧ Padding front ∧ Padding back ∧ Padding after
    ∧ Written texts cs ∧ raw.toList = before ++ '[' :: (front ++ cs ++ back ++ [']']) ++ after

-- ── Blanks and entries ────────────────────────────────────────────────────────────

theorem Padding.isSealed {cs : List Char} (h : Padding cs) : Sealed (· = ';') cs := by
  constructor
  · intro front c back heq _ _ _
    refine decide_eq_false ?_
    rintro rfl
    have hmem : ';' ∈ cs := heq ▸ List.mem_append_right front List.mem_cons_self
    exact absurd (h ';' hmem) (by decide)
  · exact openAfter_plain (fun c hc => not_bracket_of_isBlank (h c hc)) 0

theorem Compact.isSealed {text : String} (h : Compact text) : Sealed parting text.toList :=
  h.whole.isSealed

theorem Compact.solid {text : String} (h : Compact text) : Solid text.toList :=
  ⟨h.isSealed.trimmed parting_of_isBlank, h.isSealed.mono parting_of_semicolon⟩

theorem Joint.shut {cs : List Char} (h : Joint cs) : openAfter 0 cs = 0 := by
  obtain ⟨before, after, hbefore, hafter, rfl⟩ := h
  rw [openAfter_append, hbefore.isSealed.shut]
  exact hafter.isSealed.shut

theorem Joined.ne_nil {Between : List Char → Prop} {texts : List String} {cs : List Char}
    (h : Joined Between texts cs) : texts ≠ [] := by
  cases h with
  | lone text => exact List.cons_ne_nil _ _
  | more text _ _ => exact List.cons_ne_nil _ _

/-- **What holds of the texts and of what stands between them holds of the whole**, if it is kept
    when one is put behind the other. -/
theorem Joined.of_append {Between P : List Char → Prop} {texts : List String} {cs : List Char}
    (h : Joined Between texts cs) (happend : ∀ cs ds, P cs → P ds → P (cs ++ ds))
    (hbetween : ∀ cs, Between cs → P cs) (htexts : ∀ text ∈ texts, P text.toList) : P cs := by
  induction h with
  | lone text => exact htexts text List.mem_cons_self
  | more text hgap _ ih =>
      obtain ⟨htext, hrest⟩ := List.forall_mem_cons.mp htexts
      exact happend _ _ htext (happend _ _ (hbetween _ hgap) (ih hrest))

-- ── Parts ─────────────────────────────────────────────────────────────────────────

/-- The parts between blanks that are not empty. -/
def spacedParts (cs : List Char) : List (List Char) :=
  (cutTop Text.isBlank cs).filter fun part => !part.isEmpty

theorem spacedParts_append {cs : List Char} (hshut : openAfter 0 cs = 0) {c : Char}
    (hc : Text.isBlank c = true) (rest : List Char) :
    spacedParts (cs ++ c :: rest) = spacedParts cs ++ spacedParts rest := by
  obtain ⟨hopen, hclose⟩ := not_bracket_of_isBlank hc
  rw [spacedParts, cutTop, cutFrom_append_of_stops hopen hclose hshut hc, List.filter_append]
  rfl

/-- Blanks in front of a text leave its parts. -/
theorem spacedParts_append_left {front : List Char} (h : Padding front) (cs : List Char) :
    spacedParts (front ++ cs) = spacedParts cs := by
  induction front with
  | nil => rfl
  | cons c front ih =>
      obtain ⟨hc, hfront⟩ := List.forall_mem_cons.mp h
      -- nothing stands in front of the first blank
      have hstep : spacedParts (c :: (front ++ cs)) = spacedParts (front ++ cs) :=
        @spacedParts_append [] rfl c hc (front ++ cs)
      rw [List.cons_append, hstep, ih hfront]

/-- Blanks behind a text that leaves no bracket open leave its parts. -/
theorem spacedParts_append_right {cs back : List Char} (hshut : openAfter 0 cs = 0)
    (h : Padding back) : spacedParts (cs ++ back) = spacedParts cs := by
  cases back with
  | nil => rw [List.append_nil]
  | cons c back =>
      obtain ⟨hc, hback⟩ := List.forall_mem_cons.mp h
      have hnone : spacedParts back = [] := by
        rw [← List.append_nil back, spacedParts_append_left hback]
        rfl
      rw [spacedParts_append hshut hc, hnone, List.append_nil]

theorem Compact.spacedParts_eq {text : String} (h : Compact text) :
    spacedParts text.toList = [text.toList] := by
  have hfull : (!text.toList.isEmpty) = true := by simpa using h.full
  have hspaced := h.isSealed.mono parting_of_isBlank
  rw [spacedParts, hspaced.cutTop_eq, List.filter_singleton, hfull, cond_true]

theorem map_ofList_trimChars {parts : List (List Char)} {texts : List String}
    (h : parts.map Text.trimChars = texts.map String.toList) :
    parts.map (fun part => String.ofList (Text.trimChars part)) = texts := by
  have hmap := congrArg (List.map String.ofList) h
  rw [List.map_map, List.map_map] at hmap
  exact hmap.trans (List.map_id'' (fun _ => String.ofList_toList) texts)

/-- Several parts are the entries if none of them is blank. -/
theorem entriesOf_of_several {cs : List Char} {texts : List String}
    (h : (cutTop (· = ';') cs).map Text.trimChars = texts.map String.toList)
    (hfull : ∀ text ∈ texts, text ≠ "") (hseveral : 1 < texts.length) : entriesOf cs = texts := by
  rcases List.eq_nil_or_concat (cutTop (· = ';') cs) with hnil | ⟨parts, last, hcut⟩
  · exact absurd hnil (cutFrom_ne_nil _ _ _)
  · rw [List.concat_eq_append] at hcut
    rw [hcut] at h
    have hne : parts ≠ [] := by
      rintro rfl
      have hlength := congrArg List.length h
      rw [List.length_map, List.length_map, List.nil_append, List.length_singleton] at hlength
      omega
    have hlast : Text.trimChars last ≠ [] := by
      intro hnil
      have hmem : Text.trimChars last ∈ texts.map String.toList :=
        h ▸ List.mem_map_of_mem (List.mem_append_right parts List.mem_cons_self)
      obtain ⟨text, htext, heq⟩ := List.mem_map.mp hmem
      exact hfull text htext (String.toList_eq_nil_iff.mp (heq.trans hnil))
    rw [entriesOf_concat hcut hne, if_neg hlast, map_ofList_trimChars h]

-- ── Between blanks ────────────────────────────────────────────────────────────────

section Entries

variable {texts : List String} (hcompact : ∀ text ∈ texts, Compact text)

include hcompact

/-- **Cut at blanks, compact entries with blanks between them come apart.** -/
theorem spacedParts_joined {cs : List Char} (h : Joined Gap texts cs) :
    spacedParts cs = texts.map String.toList := by
  induction h with
  | lone text => exact (hcompact text List.mem_cons_self).spacedParts_eq
  | more text hgap _ ih =>
      obtain ⟨htext, hrest⟩ := List.forall_mem_cons.mp hcompact
      obtain ⟨hne, hblank⟩ := hgap
      obtain ⟨c, more, rfl⟩ := List.exists_cons_of_ne_nil hne
      obtain ⟨hc, hmore⟩ := List.forall_mem_cons.mp hblank
      rw [List.cons_append, spacedParts_append htext.solid.isSealed.shut hc, htext.spacedParts_eq,
        spacedParts_append_left hmore, ih hrest]
      rfl

variable {front cs back : List Char} (hfront : Padding front) (hback : Padding back)

include hfront hback

/-- The entries of a literal with blanks between them. -/
theorem entriesOf_spaced (h : Joined Gap texts cs) : entriesOf (front ++ cs ++ back) = texts := by
  have hsealed : Sealed (· = ';') cs :=
    h.of_append (fun _ _ => Sealed.append) (fun _ hgap => hgap.2.isSealed)
      fun text htext => (hcompact text htext).solid.isSealed
  have hfree := (hfront.isSealed.append hsealed).append hback.isSealed
  rw [entriesOf_of_topFree hfree.topFree, ← spacedParts,
    spacedParts_append_right (hfront.isSealed.append hsealed).shut hback,
    spacedParts_append_left hfront, spacedParts_joined hcompact h, List.map_map]
  exact List.map_id'' (fun _ => String.ofList_toList) texts

-- ── Between semicolons ────────────────────────────────────────────────────────────

/-- **Cut at semicolons and trimmed, compact entries with semicolons between them come apart.** -/
theorem map_trimChars_joined (h : Joined Joint texts cs) :
    (cutTop (· = ';') (front ++ cs ++ back)).map Text.trimChars = texts.map String.toList := by
  induction h generalizing front with
  | lone text =>
      have htext := (hcompact text List.mem_cons_self).solid
      have hone := ((hfront.isSealed.append htext.isSealed).append hback.isSealed).cutTop_eq
      rw [hone, List.map_singleton, Text.trimChars_between hfront hback htext.trimmed]
      rfl
  | @more text _ texts cs hjoint _ ih =>
      obtain ⟨htext, hrest⟩ := List.forall_mem_cons.mp hcompact
      obtain ⟨before, after, hbefore, hafter, rfl⟩ := hjoint
      have hpart := (hfront.isSealed.append htext.solid.isSealed).append hbefore.isSealed
      have hsplit : front ++ (text.toList ++ (before ++ ';' :: after ++ cs)) ++ back
          = front ++ text.toList ++ before ++ ';' :: (after ++ cs ++ back) := by
        simp only [List.append_assoc, List.cons_append]
      rw [hsplit, cutTop_append_semicolon hpart.shut, hpart.cutTop_eq, List.singleton_append,
        List.map_cons, Text.trimChars_between hfront hbefore htext.solid.trimmed, ih hrest hafter]
      rfl

/-- The entries of a literal with semicolons between them. -/
theorem entriesOf_separated (h : Joined Joint texts cs) :
    entriesOf (front ++ cs ++ back) = texts := by
  have hparts := map_trimChars_joined hcompact hfront hback h
  cases h with
  | lone text => exact entriesOf_spaced hcompact hfront hback (.lone text)
  | more text _ hjoined =>
      refine entriesOf_of_several hparts (fun text htext => (hcompact text htext).full) ?_
      have hpos := List.length_pos_iff.mpr hjoined.ne_nil
      rw [List.length_cons]
      omega

/-- The entries of a literal with a semicolon behind the last one. -/
theorem entriesOf_closed {before : List Char} (h : Joined Joint texts cs)
    (hbefore : Padding before) :
    entriesOf (front ++ (cs ++ (before ++ [';'])) ++ back) = texts := by
  have hcs : openAfter 0 cs = 0 :=
    h.of_append (fun cs ds hcs hds => by rw [openAfter_append, hcs, hds]) (fun _ => Joint.shut)
      fun text htext => (hcompact text htext).isSealed.shut
  have hshut : openAfter 0 (front ++ cs ++ before) = 0 := by
    rw [openAfter_append, openAfter_append, hfront.isSealed.shut, hcs, hbefore.isSealed.shut]
  have hcut : cutTop (· = ';') (front ++ (cs ++ (before ++ [';'])) ++ back)
      = cutTop (· = ';') (front ++ cs ++ before) ++ [back] := by
    have hsplit : front ++ (cs ++ (before ++ [';'])) ++ back
        = front ++ cs ++ before ++ ';' :: back := by
      simp only [List.append_assoc, List.cons_append, List.nil_append]
    rw [hsplit, cutTop_append_semicolon hshut, hback.isSealed.cutTop_eq]
  rw [entriesOf_concat hcut (cutFrom_ne_nil _ _ _), if_pos (Text.trimChars_eq_nil_of_blank hback)]
  exact map_ofList_trimChars (map_trimChars_joined hcompact hfront hbefore h)

/-- **The entries of a literal, however they are written.** -/
theorem entriesOf_written (h : Written texts cs) : entriesOf (front ++ cs ++ back) = texts := by
  cases h with
  | spaced hjoined => exact entriesOf_spaced hcompact hfront hback hjoined
  | separated hjoined => exact entriesOf_separated hcompact hfront hback hjoined
  | closed hjoined hbefore => exact entriesOf_closed hcompact hfront hback hjoined hbefore

end Entries

/-- **A reader finds the entries of every one of their literals.** -/
theorem entryTokens_of_spells {texts : List String} (hcompact : ∀ text ∈ texts, Compact text)
    {raw : String} (h : Spells texts raw) : entryTokens raw 0 = .ok texts := by
  obtain ⟨before, front, cs, back, after, hbefore, hfront, hback, hafter, hwritten, hraw⟩ := h
  have htrim : (Text.trim raw).toList = '[' :: (front ++ cs ++ back ++ [']']) := by
    rw [Text.toList_trim, hraw]
    exact Text.trimChars_between hbefore hafter (trimmed_enclose _)
  rw [entryTokens_zero (inner_of_enclosed htrim), entriesOf_written hcompact hfront hback hwritten]

end Literal

-- ── What the literals are read as ─────────────────────────────────────────────────

open Literal (Compact Spells) in
/-- **All literals of some compact entries are read alike**: the entries are read in order, whether
    blanks or semicolons stand between them, whether a semicolon stands behind the last one, and
    whatever blanks stand in the places that take them. -/
theorem spellings_read_alike {α : Type} [Codec α] {texts : List String}
    (hcompact : ∀ text ∈ texts, Compact text) :
    (∀ raw, Spells texts raw → ReadsEach texts (Codec.read raw : Except Error (List α)))
    ∧ ∀ raw raw', Spells texts raw → Spells texts raw' →
      (Codec.read raw : Except Error (List α)) = Codec.read raw' := by
  have hread : ∀ raw, Spells texts raw →
      (Codec.read raw : Except Error (List α)) = readAll texts := by
    intro raw h
    exact decode_list (Literal.entryTokens_of_spells hcompact h)
  constructor
  · intro raw h
    rw [hread raw h]
    exact readsEach_readAll texts
  · intro raw raw' h h'
    rw [hread raw h, hread raw' h']

open Literal (Compact Spells Joined Gap Joint) in
/-- A word and a list of two, with blanks between them, with a semicolon between them and with one
    behind each; and the list alone, with a semicolon behind it and without. -/
theorem spellings_read_alike_nested :
    let pair := "[b; c d]"
    (∀ text ∈ ["a", pair], Compact text)
    ∧ Spells ["a", pair] "[a \t [b; c d]]" ∧ Spells ["a", pair] " [ a ;[b; c d]]"
    ∧ Spells ["a", pair] "[a ;[b; c d] ; ]\n"
    ∧ Codec.read "[a \t [b; c d]]" = .ok ["a", pair]
    ∧ (Codec.read " [ a ;[b; c d]]" : Except Error (List (List String)))
      = Codec.read "[a ;[b; c d] ; ]\n"
    ∧ Spells [pair] "[[b; c d]]" ∧ Spells [pair] "[[b; c d];]"
    ∧ (Codec.read "[[b; c d]]" : Except Error (List (List String)))
      = Codec.read "[[b; c d];]" := by
  intro pair
  have hcompact : ∀ text ∈ ["a", pair], Compact text := by decide
  have hpair : ∀ text ∈ [pair], Compact text := by decide
  have hnone : Literal.Padding [] := List.forall_mem_nil _
  have hblank : Literal.Padding [' '] := by decide
  have hline : Literal.Padding ['\n'] := by decide
  have hgap : Gap [' ', '\t', ' '] := by decide
  have hjoint : Joint [' ', ';'] := ⟨[' '], [], hblank, hnone, rfl⟩
  have hspaced : Joined Gap ["a", pair] _ := .more "a" hgap (.lone pair)
  have hseparated : Joined Joint ["a", pair] _ := .more "a" hjoint (.lone pair)
  have hfirst : Spells ["a", pair] "[a \t [b; c d]]" :=
    ⟨[], [], _, [], [], hnone, hnone, hnone, hnone, .spaced hspaced, by decide⟩
  have hsecond : Spells ["a", pair] " [ a ;[b; c d]]" :=
    ⟨[' '], [' '], _, [], [], hblank, hblank, hnone, hnone, .separated hseparated, by decide⟩
  have hthird : Spells ["a", pair] "[a ;[b; c d] ; ]\n" :=
    ⟨[], [], _, [' '], ['\n'], hnone, hnone, hblank, hline, .closed hseparated hblank,
      by decide⟩
  have halone : Spells [pair] "[[b; c d]]" :=
    ⟨[], [], _, [], [], hnone, hnone, hnone, hnone, .spaced (.lone pair), by decide⟩
  have hended : Spells [pair] "[[b; c d];]" :=
    ⟨[], [], _, [], [], hnone, hnone, hnone, hnone, .closed (.lone pair) hnone, by decide⟩
  refine ⟨hcompact, hfirst, hsecond, hthird, ?_, ?_, halone, hended, ?_⟩
  · refine (((spellings_read_alike hcompact).1 _ hfirst).values _).mpr ?_
    exact .cons rfl (.cons rfl .nil)
  · exact (spellings_read_alike hcompact).2 _ _ hsecond hthird
  · exact (spellings_read_alike hpair).2 _ _ halone hended

end ParamStore
