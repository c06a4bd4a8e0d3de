import ParamStore.Text.Blank
import Mathlib.Data.List.DropRight
import Mathlib.Data.List.Flatten

/-!
# Trimming and cutting — the ends of a text and the pieces between cuts

A text is trimmed if neither of its ends is a blank. Trimming yields such a text and leaves
    one alone, so it is a projection onto the trimmed texts. Cutting yields pieces without a
    cutting character, and a text that was put together from such pieces, one cutting
    character between any two, is cut into them again; so are words that are joined with blanks.

* **`Trimmed`** — neither end is a blank; `trimmed_trimChars` and `trimChars_eq_self` are the
  two halves of the projection; `trimChars_between` puts blanks around the text.
* **`cut_intercalate`** — cutting undoes joining; `pieces_intercalate` is the case of pieces,
  `words_intercalate` that of words.
* **`cutOnce_append`**, **`cutOnce_of_uncut`** — a text that is cut once, at the first place.
* **`pieces_append_cut`**, **`map_trimChars_pieces`** — the pieces of two texts with a cutting
  character between them, and of a text with blanks around it; `words_trim` says the same of its
  words.
-/

namespace ParamStore.Text

/-- Neither end of the text is a blank. -/
def Trimmed (cs : List Char) : Prop :=
  (∀ c ∈ cs.head?, isBlank c = false) ∧ ∀ c ∈ cs.getLast?, isBlank c = false

instance (cs : List Char) : Decidable (Trimmed cs) :=
  decidable_of_iff (cs.head?.all (!isBlank ·) = true ∧ cs.getLast?.all (!isBlank ·) = true) (by
    simp only [Trimmed, Option.all_eq_true, Option.mem_def, Bool.not_eq_true'])

-- ── Trimming ──────────────────────────────────────────────────────────────────────

theorem trimStart_eq_self {cs : List Char} (h : ∀ c ∈ cs.head?, isBlank c = false) :
    trimStart cs = cs := by
  cases cs with
  | nil => rfl
  | cons c cs => exact trimStart_cons (h c rfl) cs

theorem trimEnd_eq_reverse (cs : List Char) : trimEnd cs = (trimStart cs.reverse).reverse := rfl

theorem trimEnd_eq_self {cs : List Char} (h : ∀ c ∈ cs.getLast?, isBlank c = false) :
    trimEnd cs = cs := by
  rw [trimEnd_eq_reverse, trimStart_eq_self (by rwa [List.head?_reverse]), List.reverse_reverse]

/-- **A trimmed text is left alone.** -/
theorem trimChars_eq_self {cs : List Char} (h : Trimmed cs) : trimChars cs = cs := by
  rw [trimChars, trimStart_eq_self h.1, trimEnd_eq_self h.2]

theorem trimChars_nil : trimChars [] = [] := rfl

/-- What is left starts with no blank. -/
theorem head?_trimStart (cs : List Char) : ∀ c ∈ (trimStart cs).head?, isBlank c = false := by
  intro c hc
  have h := List.head?_dropWhile_not isBlank cs
  rw [Option.mem_def, trimStart] at hc
  rw [hc] at h
  exact h

/-- **Trimming yields a trimmed text.** -/
theorem trimmed_trimChars (cs : List Char) : Trimmed (trimChars cs) := by
  constructor
  · intro c hc
    -- what is cut off at the end leaves the front, unless it takes all
    obtain ⟨rest, hrest⟩ : trimChars cs <+: trimStart cs :=
      List.rdropWhile_prefix isBlank _
    refine head?_trimStart cs c ?_
    rw [← hrest, List.head?_append, Option.mem_def.mp hc]
    rfl
  · intro c hc
    rw [trimChars, trimEnd_eq_reverse, List.getLast?_reverse] at hc
    exact head?_trimStart _ c hc

/-- The trimmed texts are those that trimming leaves alone. -/
theorem trimmed_iff {cs : List Char} : Trimmed cs ↔ trimChars cs = cs :=
  ⟨trimChars_eq_self, fun h => h ▸ trimmed_trimChars cs⟩

/-- Trimming leaves characters out and keeps the others in their order. -/
theorem trimChars_sublist (cs : List Char) : (trimChars cs).Sublist cs :=
  (List.rdropWhile_prefix isBlank _).sublist.trans (List.dropWhile_sublist isBlank)

theorem mem_of_mem_trimChars {c : Char} {cs : List Char} (h : c ∈ trimChars cs) : c ∈ cs :=
  (trimChars_sublist cs).subset h

/-- Trimming takes away blanks at the two ends. -/
theorem exists_eq_append_trimChars (cs : List Char) : ∃ front back,
    cs = front ++ trimChars cs ++ back ∧ (∀ c ∈ front, isBlank c = true)
      ∧ ∀ c ∈ back, isBlank c = true := by
  have hstart : ∀ ds : List Char, ∃ front, ds = front ++ trimStart ds
      ∧ ∀ c ∈ front, isBlank c = true := fun ds =>
    ⟨ds.takeWhile isBlank, List.takeWhile_append_dropWhile.symm,
      fun _ hc => List.mem_takeWhile_imp hc⟩
  obtain ⟨front, hfront, hblank⟩ := hstart cs
  obtain ⟨back, hback, hblank'⟩ := hstart (trimStart cs).reverse
  refine ⟨front, back.reverse, ?_, hblank, fun c hc => hblank' c (List.mem_reverse.mp hc)⟩
  have hrest : trimStart cs = trimChars cs ++ back.reverse := by
    rw [trimChars, trimEnd_eq_reverse, ← List.reverse_append, ← hback, List.reverse_reverse]
  rw [List.append_assoc, ← hrest, ← hfront]

/-- Only blanks are trimmed away altogether. -/
theorem isBlank_of_trimChars_eq_nil {cs : List Char} (h : trimChars cs = []) :
    ∀ c ∈ cs, isBlank c = true := by
  obtain ⟨front, back, heq, hfront, hback⟩ := exists_eq_append_trimChars cs
  rw [heq, h, List.append_nil]
  exact List.forall_mem_append.mpr ⟨hfront, hback⟩

/-- Blanks in front are trimmed away. -/
theorem trimChars_append_left {front : List Char} (h : ∀ c ∈ front, isBlank c = true)
    (cs : List Char) : trimChars (front ++ cs) = trimChars cs := by
  rw [trimChars, trimStart, List.dropWhile_append_of_pos h]
  rfl

/-- Nothing is left of blanks only. -/
theorem trimChars_eq_nil_of_blank {cs : List Char} (h : ∀ c ∈ cs, isBlank c = true) :
    trimChars cs = [] := by
  have hnone := trimChars_append_left h []
  rwa [List.append_nil] at hnone

/-- Blanks at the end are trimmed away. -/
theorem trimChars_append_right {back : List Char} (h : ∀ c ∈ back, isBlank c = true)
    (cs : List Char) : trimChars (cs ++ back) = trimChars cs := by
  have hreverse : ∀ c ∈ back.reverse, isBlank c = true := fun c hc => h c (List.mem_reverse.mp hc)
  by_cases hblank : ∀ c ∈ cs, isBlank c = true
  · have hall : ∀ c ∈ cs ++ back, isBlank c = true := List.forall_mem_append.mpr ⟨hblank, h⟩
    rw [trimChars_eq_nil_of_blank hall, trimChars_eq_nil_of_blank hblank]
  · -- the blanks in front end before those at the end begin
    have hrest : cs.dropWhile isBlank ≠ [] := by
      intro hnil
      exact hblank (List.dropWhile_eq_nil_iff.mp hnil)
    have hstart : trimStart (cs ++ back) = trimStart cs ++ back := by
      rw [trimStart, List.dropWhile_append, if_neg (by simpa using hrest)]
      rfl
    rw [trimChars, hstart, trimEnd_eq_reverse, List.reverse_append, trimStart,
      List.dropWhile_append_of_pos hreverse]
    rfl

/-- **Blanks around a text that is trimmed are trimmed away.** -/
theorem trimChars_between {front cs back : List Char} (hfront : ∀ c ∈ front, isBlank c = true)
    (hback : ∀ c ∈ back, isBlank c = true) (h : Trimmed cs) :
    trimChars (front ++ cs ++ back) = cs := by
  rw [trimChars_append_right hback, trimChars_append_left hfront, trimChars_eq_self h]

/-- A trimmed text that is not empty stays trimmed when others are put between its ends. -/
theorem trimmed_of_ends {c d : Char} (hc : isBlank c = false) (hd : isBlank d = false)
    (cs : List Char) : Trimmed (c :: (cs ++ [d])) := by
  constructor
  · intro e he
    obtain rfl : c = e := Option.some.inj he
    exact hc
  · intro e he
    rw [← List.cons_append, List.getLast?_concat] at he
    obtain rfl : d = e := Option.some.inj he
    exact hd

@[simp] theorem toList_trim (s : String) : (trim s).toList = trimChars s.toList :=
  String.toList_ofList

/-- A string is left alone by trimming exactly if its characters are trimmed. -/
theorem trim_eq_self_iff {s : String} : trim s = s ↔ Trimmed s.toList := by
  rw [trimmed_iff, ← toList_trim, String.toList_inj]

/-- The characters of joined texts are theirs and those between them. -/
theorem mem_intercalate {sep : List Char} {parts : List (List Char)} {c : Char}
    (h : c ∈ sep.intercalate parts) : c ∈ sep ∨ ∃ part ∈ parts, c ∈ part := by
  induction parts with
  | nil => exact absurd h List.not_mem_nil
  | cons part rest ih =>
      cases rest with
      | nil =>
          rw [List.intercalate_singleton] at h
          exact .inr ⟨part, List.mem_cons_self, h⟩
      | cons next more =>
          rw [List.intercalate_cons_cons, List.mem_append, List.mem_append] at h
          rcases h with (hpart | hsep) | hrest
          · exact .inr ⟨part, List.mem_cons_self, hpart⟩
          · exact .inl hsep
          · refine (ih hrest).imp_right ?_
            rintro ⟨other, hother, hc⟩
            exact ⟨other, List.mem_cons_of_mem _ hother, hc⟩

/-- Joined texts start and end as the first and the last one do. -/
theorem trimmed_intercalate {sep : List Char} {parts : List (List Char)}
    (h : ∀ part ∈ parts, part ≠ [] ∧ Trimmed part) : Trimmed (sep.intercalate parts) := by
  constructor
  · cases parts with
    | nil => exact fun c hc => absurd hc (by simp)
    | cons first more =>
        obtain ⟨hne, htrimmed⟩ := h first List.mem_cons_self
        obtain ⟨cs, hcs⟩ : ∃ cs, sep.intercalate (first :: more) = first ++ cs := by
          cases more with
          | nil => exact ⟨[], by rw [List.intercalate_singleton, List.append_nil]⟩
          | cons next more => exact ⟨_, by rw [List.intercalate_cons_cons, List.append_assoc]⟩
        rw [hcs, List.head?_append_of_ne_nil first hne]
        exact htrimmed.1
  · rcases List.eq_nil_or_concat parts with rfl | ⟨front, last, rfl⟩
    · exact fun c hc => absurd hc (by simp)
    · rw [List.concat_eq_append] at h ⊢
      obtain ⟨hne, htrimmed⟩ := h last (List.mem_append_right _ List.mem_cons_self)
      obtain ⟨cs, hcs⟩ : ∃ cs, sep.intercalate (front ++ [last]) = cs ++ last := by
        induction front with
        | nil => exact ⟨[], List.intercalate_singleton⟩
        | cons part front ih =>
            obtain ⟨cs, hcs⟩ := ih fun p hp => h p (List.mem_cons_of_mem _ hp)
            rw [List.cons_append, List.intercalate_cons_of_ne_nil (by simp), hcs]
            exact ⟨part ++ sep ++ cs, (List.append_assoc _ _ _).symm⟩
      rw [hcs, List.getLast?_append_of_ne_nil cs hne]
      exact htrimmed.2

-- ── Cutting ───────────────────────────────────────────────────────────────────────

variable {cut : Char → Bool}

/-- A piece ends at the first cutting character. -/
theorem pieces_append {part : List Char} (h : ∀ c ∈ part, cut c = false) {sep : Char}
    (hsep : cut sep = true) (rest : List Char) :
    pieces cut (part ++ sep :: rest) = part :: pieces cut rest := by
  induction part with
  | nil => simp [pieces, hsep]
  | cons c part ih =>
      have hc : cut c = false := h c List.mem_cons_self
      have hpart := ih fun d hd => h d (List.mem_cons_of_mem _ hd)
      simp [pieces, hc, hpart]

/-- **The first cutting character tells where a part ends**: a text with one comes apart there in one
    way only. -/
theorem append_cut_inj {part part' : List Char} (h : ∀ c ∈ part, cut c = false)
    (h' : ∀ c ∈ part', cut c = false) {sep : Char} (hsep : cut sep = true) {rest rest' : List Char}
    (heq : part ++ sep :: rest = part' ++ sep :: rest') : part = part' ∧ rest = rest' := by
  have hpieces := congrArg (pieces cut) heq
  rw [pieces_append h hsep, pieces_append h' hsep] at hpieces
  obtain ⟨rfl, -⟩ := List.cons.inj hpieces
  exact ⟨rfl, (List.cons.inj (List.append_cancel_left heq)).2⟩

/-- **A cut undoes joining** if it leaves a lone part whole and ends a part at the separator that
    follows it. -/
theorem cut_intercalate {cutter : List Char → List (List Char)} {sep : Char}
    {IsPart : List Char → Prop} (halone : ∀ part, IsPart part → cutter part = [part])
    (hfollowed : ∀ part rest, IsPart part →
      cutter (part ++ sep :: rest) = part :: cutter rest)
    {parts : List (List Char)} (hne : parts ≠ []) (h : ∀ part ∈ parts, IsPart part) :
    cutter ([sep].intercalate parts) = parts := by
  induction parts with
  | nil => exact absurd rfl hne
  | cons part rest ih =>
      have hpart := h part List.mem_cons_self
      cases rest with
      | nil => rw [List.intercalate_singleton, halone part hpart]
      | cons next more =>
          have hrest := ih (List.cons_ne_nil _ _) fun p hp => h p (List.mem_cons_of_mem _ hp)
          rw [List.intercalate_cons_cons, List.append_assoc, List.singleton_append,
            hfollowed part _ hpart, hrest]

/-- Pieces without a cutting character, joined with one, are cut into themselves. -/
theorem pieces_intercalate {sep : Char} (hsep : cut sep = true) {parts : List (List Char)}
    (hne : parts ≠ []) (h : ∀ part ∈ parts, ∀ c ∈ part, cut c = false) :
    pieces cut ([sep].intercalate parts) = parts :=
  cut_intercalate (pieces_of_uncut cut) (fun _ rest hpart => pieces_append hpart hsep rest) hne h

/-- No piece holds a cutting character. -/
theorem uncut_of_mem_pieces {cs piece : List Char} (h : piece ∈ pieces cut cs) :
    ∀ c ∈ piece, cut c = false := by
  induction cs generalizing piece with
  | nil =>
      obtain rfl : piece = [] := by simpa [pieces] using h
      intro c hc
      exact absurd hc List.not_mem_nil
  | cons c cs ih =>
      rw [pieces] at h
      by_cases hc : cut c = true
      · rw [if_pos hc] at h
        rcases List.mem_cons.mp h with rfl | hrest
        · exact fun d hd => absurd hd List.not_mem_nil
        · exact ih hrest
      · have hcf : cut c = false := Bool.eq_false_iff.mpr hc
        rw [if_neg hc] at h
        cases hp : pieces cut cs with
        | nil => exact absurd hp (pieces_ne_nil cut cs)
        | cons first more =>
            rw [hp] at h ih
            rcases List.mem_cons.mp h with rfl | hrest
            · intro d hd
              rcases List.mem_cons.mp hd with rfl | hd
              · exact hcf
              · exact ih List.mem_cons_self d hd
            · exact ih (List.mem_cons_of_mem _ hrest)

/-- **The pieces together are what is left of the text** when some of its characters are left out. -/
theorem flatten_pieces_sublist (cut : Char → Bool) (cs : List Char) :
    (pieces cut cs).flatten.Sublist cs := by
  induction cs with
  | nil => exact .slnil
  | cons first cs ih =>
      obtain ⟨next, more, hp⟩ := List.exists_cons_of_ne_nil (pieces_ne_nil cut cs)
      rw [hp] at ih
      rw [pieces, hp]
      by_cases hcut : cut first = true
      · rw [if_pos hcut]
        exact ih.cons first
      · rw [if_neg hcut]
        exact ih.cons_cons first

theorem sublist_of_mem_pieces {cs piece : List Char} (h : piece ∈ pieces cut cs) :
    piece.Sublist cs :=
  (List.sublist_flatten_of_mem h).trans (flatten_pieces_sublist cut cs)

/-- A piece holds characters of the text only. -/
theorem mem_of_mem_pieces {cs piece : List Char} (h : piece ∈ pieces cut cs) :
    ∀ c ∈ piece, c ∈ cs :=
  fun _ hc => (sublist_of_mem_pieces h).subset hc

/-- **A cutting character ends a piece**: what precedes it and what follows it are cut on their own. -/
theorem pieces_append_cut {sep : Char} (hsep : cut sep = true) (front rest : List Char) :
    pieces cut (front ++ sep :: rest) = pieces cut front ++ pieces cut rest := by
  induction front with
  | nil => simp [pieces, hsep]
  | cons c front ih =>
      obtain ⟨piece, more, hp⟩ := List.exists_cons_of_ne_nil (pieces_ne_nil cut front)
      by_cases hc : cut c = true
      · simp [pieces, hc, ih]
      · simp [pieces, hc, ih, hp]

/-- What holds no cutting character is added to the last piece. -/
theorem exists_pieces_append_uncut {back : List Char} (h : ∀ c ∈ back, cut c = false)
    (cs : List Char) : ∃ front last, pieces cut cs = front ++ [last]
      ∧ pieces cut (cs ++ back) = front ++ [last ++ back] := by
  induction cs with
  | nil => exact ⟨[], [], rfl, pieces_of_uncut cut back h⟩
  | cons c cs ih =>
      obtain ⟨front, last, hcs, hback⟩ := ih
      by_cases hc : cut c = true
      · exact ⟨[] :: front, last, by simp [pieces, hc, hcs], by simp [pieces, hc, hback]⟩
      · cases front with
        | nil => exact ⟨[], c :: last, by simp [pieces, hc, hcs], by simp [pieces, hc, hback]⟩
        | cons first more =>
            refine ⟨(c :: first) :: more, last, ?_, ?_⟩
            · simp [pieces, hc, hcs]
            · simp [pieces, hc, hback]

/-- A text is cut once at its first cutting character. -/
theorem cutOnce_append {front : List Char} (h : ∀ c ∈ front, cut c = false) {sep : Char}
    (hsep : cut sep = true) (rest : List Char) :
    cutOnce cut (front ++ sep :: rest) = some (front, rest) := by
  induction front with
  | nil => simp [cutOnce, hsep]
  | cons c front ih =>
      have hc : cut c = false := h c List.mem_cons_self
      have hfront := ih fun d hd => h d (List.mem_cons_of_mem _ hd)
      simp [cutOnce, hc, hfront]

theorem cutOnce_of_uncut {cs : List Char} (h : ∀ c ∈ cs, cut c = false) :
    cutOnce cut cs = none := by
  induction cs with
  | nil => rfl
  | cons c cs ih =>
      have hc : cut c = false := h c List.mem_cons_self
      have hcs := ih fun d hd => h d (List.mem_cons_of_mem _ hd)
      simp [cutOnce, hc, hcs]

-- ── Trimmed pieces ────────────────────────────────────────────────────────────────

section Blanks

variable (hcut : ∀ c, isBlank c = true → cut c = false)

include hcut

/-- Blanks in front of a text are trimmed off its first piece. -/
theorem map_trimChars_pieces_append_left {front : List Char} (h : ∀ c ∈ front, isBlank c = true)
    (cs : List Char) :
    (pieces cut (front ++ cs)).map trimChars = (pieces cut cs).map trimChars := by
  induction front with
  | nil => rfl
  | cons c front ih =>
      obtain ⟨hc, hfront⟩ := List.forall_mem_cons.mp h
      obtain ⟨piece, more, hp⟩ :=
        List.exists_cons_of_ne_nil (pieces_ne_nil cut (front ++ cs))
      have hstep : pieces cut (c :: front ++ cs) = (c :: piece) :: more := by
        simp [pieces, hcut c hc, hp]
      have htrim : trimChars (c :: piece) = trimChars piece := by
        have hone : ∀ d ∈ [c], isBlank d = true := by simpa using hc
        exact trimChars_append_left hone piece
      rw [hstep, ← ih hfront, hp, List.map_cons, List.map_cons, htrim]

/-- **Blanks around a text make no difference to its pieces, once these are trimmed**, if no blank
    is a cutting character. -/
theorem map_trimChars_pieces (cs : List Char) :
    (pieces cut (trimChars cs)).map trimChars = (pieces cut cs).map trimChars := by
  obtain ⟨front, back, heq, hfront, hback⟩ := exists_eq_append_trimChars cs
  obtain ⟨others, last, hpieces, hlast⟩ :=
    exists_pieces_append_uncut (fun c hc => hcut c (hback c hc)) (front ++ trimChars cs)
  have hend : (pieces cut (front ++ trimChars cs)).map trimChars = (pieces cut cs).map trimChars := by
    conv_rhs => rw [heq]
    rw [hpieces, hlast, List.map_append, List.map_append, List.map_singleton, List.map_singleton,
      trimChars_append_right hback]
  rw [← hend, map_trimChars_pieces_append_left hcut hfront]

end Blanks

/-- The trimmed pieces of a string are those of its characters. -/
theorem map_trim_split (cut : Char → Bool) (s : String) :
    (split cut s).map trim = ((pieces cut s.toList).map trimChars).map String.ofList := by
  rw [split, List.map_map, List.map_map]
  refine List.map_congr_left fun piece _ => ?_
  show trim (String.ofList piece) = String.ofList (trimChars piece)
  rw [trim, String.toList_ofList]

-- ── Words ─────────────────────────────────────────────────────────────────────────

/-- A word is not empty, and its characters are those of the text that are no blanks. -/
theorem mem_words {s word : String} (h : word ∈ words s) :
    word ≠ "" ∧ ∀ c ∈ word.toList, isBlank c = false ∧ c ∈ s.toList := by
  obtain ⟨hmem, hfull⟩ := List.mem_filter.mp h
  obtain ⟨piece, hpiece, rfl⟩ := List.mem_map.mp hmem
  refine ⟨by rintro hempty; rw [hempty] at hfull; exact absurd hfull (by decide), ?_⟩
  rw [String.toList_ofList]
  exact fun c hc => ⟨uncut_of_mem_pieces hpiece c hc, mem_of_mem_pieces hpiece c hc⟩

/-- A text that starts with no blank has a word. -/
theorem words_ne_nil {s : String} {c : Char} {cs : List Char} (h : s.toList = c :: cs)
    (hc : isBlank c = false) : words s ≠ [] := by
  obtain ⟨piece, more, hp⟩ := List.exists_cons_of_ne_nil (pieces_ne_nil isBlank cs)
  have hsplit : split isBlank s = String.ofList (c :: piece) :: more.map String.ofList := by
    rw [split, h, pieces, hc, hp]
    rfl
  have hfull : (!(String.ofList (c :: piece)).isEmpty) = true := by simp
  rw [words, hsplit, List.filter_cons, if_pos hfull]
  exact List.cons_ne_nil _ _

/-- **Words that are joined with blanks come apart again.** -/
theorem words_intercalate {texts : List String}
    (h : ∀ text ∈ texts, text ≠ "" ∧ ∀ c ∈ text.toList, isBlank c = false) :
    words (String.intercalate " " texts) = texts := by
  by_cases hne : texts = []
  · subst hne
    rfl
  · have hpieces : pieces isBlank (String.intercalate " " texts).toList
        = texts.map String.toList := by
      rw [String.toList_intercalate]
      refine pieces_intercalate (by decide) (by simpa using hne) ?_
      intro part hpart
      obtain ⟨text, htext, rfl⟩ := List.mem_map.mp hpart
      exact (h text htext).2
    rw [words, split, hpieces, List.map_map, List.filter_eq_self.mpr]
    · exact List.map_id'' (fun _ => String.ofList_toList) texts
    · intro text htext
      obtain ⟨same, hsame, rfl⟩ := List.mem_map.mp htext
      simpa using (h same hsame).1

/-- The words of a text are its pieces between blanks that are not empty. -/
theorem words_eq (s : String) : words s
    = ((pieces isBlank s.toList).filter fun piece => !(String.ofList piece).isEmpty).map
        String.ofList := by
  rw [words, split, List.filter_map]
  rfl

/-- **The words together are what is left of the text** when some of its characters are left out. -/
theorem flatMap_words_sublist (s : String) :
    ((words s).flatMap String.toList).Sublist s.toList := by
  rw [words_eq, List.flatMap_map]
  simp only [String.toList_ofList]
  refine (List.filter_sublist.flatMap _).trans ?_
  rw [List.flatMap_id']
  exact flatten_pieces_sublist isBlank s.toList

/-- No word begins with a blank. -/
theorem words_append_left {front : List Char} (h : ∀ c ∈ front, isBlank c = true)
    (cs : List Char) : words (String.ofList (front ++ cs)) = words (String.ofList cs) := by
  rw [words_eq, words_eq, String.toList_ofList, String.toList_ofList]
  induction front with
  | nil => rfl
  | cons c front ih =>
      obtain ⟨hc, hfront⟩ := List.forall_mem_cons.mp h
      rw [List.cons_append, pieces, if_pos hc, List.filter_cons_of_neg (by simp)]
      exact ih hfront

/-- No word ends with a blank. -/
theorem words_append_right {back : List Char} (h : ∀ c ∈ back, isBlank c = true)
    (cs : List Char) : words (String.ofList (cs ++ back)) = words (String.ofList cs) := by
  cases back with
  | nil => rw [List.append_nil]
  | cons c back =>
      obtain ⟨hc, hback⟩ := List.forall_mem_cons.mp h
      have hnone : words (String.ofList back) = [] := by
        rw [← List.append_nil back, words_append_left hback]
        rfl
      rw [words_eq, String.toList_ofList] at hnone
      rw [words_eq, words_eq, String.toList_ofList, String.toList_ofList, pieces_append_cut hc,
        List.filter_append, List.map_append, hnone, List.append_nil]

/-- **Trimming leaves the words of a text.** -/
theorem words_trim (s : String) : words (trim s) = words s := by
  obtain ⟨front, back, heq, hfront, hback⟩ := exists_eq_append_trimChars s.toList
  have hs : s = String.ofList (front ++ trimChars s.toList ++ back) := by
    rw [← heq, String.ofList_toList]
  conv_rhs => rw [hs, words_append_right hback, words_append_left hfront]
  rfl

/-- **Trimming leaves nothing exactly if all is blank.** -/
theorem isEmpty_trim (s : String) : (trim s).isEmpty = s.toList.all isBlank := by
  rw [Bool.eq_iff_iff, String.isEmpty_iff, ← String.toList_eq_nil_iff, toList_trim,
    List.all_eq_true]
  exact ⟨isBlank_of_trimChars_eq_nil, trimChars_eq_nil_of_blank⟩

end ParamStore.Text
