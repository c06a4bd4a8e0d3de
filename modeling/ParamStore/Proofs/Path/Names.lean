import ParamStore.Path
import ParamStore.Proofs.Text.Trimming

/-!
# Names — what the segments of a path can be, and the text of a path

A name is a text that one segment can be: not empty, without blanks at its ends and without a
    dot. The segments of every path are names, and every list of names but the empty one has a
    path, the one that joins them with dots. So places in a tree and lists of names are the
    same thing, and a path text only spells one of them.

* **`IsName`** — the texts that a segment can be.
* **`isName_of_segments?`** — the segments of a path are names.
* **`segments?_text`**, **`split_text`** — the joined path of some names has these names as its
  segments; `text_eq_intercalate` and `text_append` say where its dots are.
* **`segments?_eq_pieces`** — the segments of a path are its trimmed pieces, if none is blank.
* **`segments?_dot`** — the segments of two texts with a dot between them.
* **`normal`** — the one spelling of a place that has no blanks around its segments.
* **`splitLast_eq_ok_iff`**, **`splitLast_eq_error_iff`** — what cutting off the last segment
  says, in terms of the segments.
-/

namespace ParamStore.Path

/-- A text that one segment of a path can be. -/
structure IsName (name : String) : Prop where
  ne_empty : name ≠ ""
  trimmed : Text.Trimmed name.toList
  undotted : '.' ∉ name.toList

instance (name : String) : Decidable (IsName name) :=
  decidable_of_iff (name ≠ "" ∧ Text.Trimmed name.toList ∧ '.' ∉ name.toList)
    ⟨fun h => ⟨h.1, h.2.1, h.2.2⟩, fun h => ⟨h.1, h.2, h.3⟩⟩

-- ── Segments ──────────────────────────────────────────────────────────────────────

/-- The segments of a path are the trimmed pieces between its dots. -/
theorem eq_of_segments? {path : String} {parts : List String} (h : segments? path = some parts) :
    parts = (Text.split (· = '.') (Text.trim path)).map Text.trim ∧ ∀ p ∈ parts, p ≠ "" := by
  rw [segments?] at h
  dsimp only at h
  split at h
  · exact nomatch h
  · split at h
    · exact nomatch h
    · next hany =>
        obtain rfl := Option.some.inj h
        refine ⟨rfl, fun p hp hempty => hany ?_⟩
        exact List.any_eq_true.mpr ⟨p, hp, String.isEmpty_iff.mpr hempty⟩

/-- A path that is not refused has its segments as the answer. -/
theorem split_eq_ok_iff {path : String} {parts : List String} :
    split path = .ok parts ↔ segments? path = some parts := by
  rw [split]
  cases segments? path with
  | none => exact iff_of_false (by simp) (by simp)
  | some found =>
      constructor
      · exact fun h => congrArg some (Except.ok.inj h)
      · exact fun h => congrArg Except.ok (Option.some.inj h)

/-- **The segments of a path are names.** -/
theorem isName_of_segments? {path : String} {parts : List String}
    (h : segments? path = some parts) : ∀ p ∈ parts, IsName p := by
  obtain ⟨hparts, hne⟩ := eq_of_segments? h
  intro p hp
  refine ⟨hne p hp, ?_, ?_⟩
  all_goals
    rw [hparts] at hp
    obtain ⟨q, hq, rfl⟩ := List.mem_map.mp hp
    obtain ⟨piece, hpiece, rfl⟩ := List.mem_map.mp hq
    rw [Text.toList_trim, String.toList_ofList]
  · exact Text.trimmed_trimChars piece
  · intro hdot
    have := Text.uncut_of_mem_pieces hpiece '.' (Text.mem_of_mem_trimChars hdot)
    simp at this

theorem segments?_ne_nil {path : String} {parts : List String} (h : segments? path = some parts) :
    parts ≠ [] := by
  rw [(eq_of_segments? h).1]
  simp [Text.split, Text.pieces_ne_nil]

/-- The segments of a path are some parents and a name. -/
theorem exists_concat_of_segments? {path : String} {parts : List String}
    (h : segments? path = some parts) : ∃ parents name, parts = parents ++ [name] := by
  rcases List.eq_nil_or_concat parts with rfl | ⟨parents, name, hparts⟩
  · exact absurd rfl (segments?_ne_nil h)
  · exact ⟨parents, name, hparts.trans List.concat_eq_append⟩

/-- A text with segments is not blank. -/
theorem trim_ne_empty_of_segments? {path : String} {parts : List String}
    (h : segments? path = some parts) : ¬ (Text.trim path).isEmpty = true := by
  intro hblank
  rw [segments?] at h
  dsimp only at h
  rw [if_pos hblank] at h
  cases h

-- ── The text of some names ────────────────────────────────────────────────────────

/-- Joining puts a dot between a parent that is not empty and a name. -/
theorem join_of_ne_empty {parent : String} (h : parent ≠ "") (name : String) :
    join parent name = parent ++ "." ++ name :=
  if_neg fun he => h (String.isEmpty_iff.mp he)

theorem toList_join {parent : String} (h : parent ≠ "") (name : String) :
    (join parent name).toList = parent.toList ++ '.' :: name.toList := by
  rw [join_of_ne_empty h]
  simp

private theorem intercalate_append_head (sep front part : List Char) (rest : List (List Char)) :
    sep.intercalate ((front ++ part) :: rest) = front ++ sep.intercalate (part :: rest) := by
  cases rest with
  | nil => simp
  | cons next more => simp [List.intercalate_cons_cons]

/-- Joining names to a parent that is not empty puts dots between all of them. -/
theorem toList_foldl_join {parent : String} (h : parent ≠ "") (names : List String) :
    (names.foldl join parent).toList = ['.'].intercalate ((parent :: names).map String.toList) := by
  induction names generalizing parent with
  | nil => simp
  | cons name names ih =>
      have hjoin : join parent name ≠ "" := by
        intro he
        have hlist := toList_join h name
        rw [he] at hlist
        simp at hlist
      rw [List.foldl_cons, ih hjoin, List.map_cons, List.map_cons, toList_join h]
      rw [show parent.toList ++ '.' :: name.toList = (parent.toList ++ ['.']) ++ name.toList by simp]
      rw [intercalate_append_head, List.map_cons, List.intercalate_cons_cons]

/-- The text of some names, the first of which is not empty, has dots between them. -/
theorem toList_text {name : String} (h : name ≠ "") (names : List String) :
    (text (name :: names)).toList = ['.'].intercalate ((name :: names).map String.toList) :=
  toList_foldl_join h names

/-- Dots between names make a trimmed text. -/
theorem trimmed_intercalate {parts : List String} (h : ∀ p ∈ parts, IsName p) :
    Text.Trimmed (['.'].intercalate (parts.map String.toList)) := by
  induction parts with
  | nil => exact ⟨fun c hc => by simp at hc, fun c hc => by simp at hc⟩
  | cons p rest ih =>
      have hp := h p List.mem_cons_self
      have hne : p.toList ≠ [] := fun he => hp.ne_empty (String.toList_eq_nil_iff.mp he)
      cases rest with
      | nil => simpa using hp.trimmed
      | cons q more =>
          have hrest := ih fun r hr => h r (List.mem_cons_of_mem _ hr)
          have hq : q.toList ≠ [] := fun he =>
            (h q (by simp)).ne_empty (String.toList_eq_nil_iff.mp he)
          have hmore : ['.'].intercalate ((q :: more).map String.toList) ≠ [] := by
            cases more <;> simp [List.intercalate_cons_cons, hq]
          rw [List.map_cons, List.map_cons, List.intercalate_cons_cons, ← List.map_cons]
          constructor
          · intro c hc
            rw [List.append_assoc, List.head?_append_of_ne_nil _ hne] at hc
            exact hp.trimmed.1 c hc
          · intro c hc
            rw [List.getLast?_append_of_ne_nil _ hmore] at hc
            exact hrest.2 c hc

/-- **The joined path of some names has these names as its segments.** -/
theorem segments?_text {parts : List String} (hne : parts ≠ []) (h : ∀ p ∈ parts, IsName p) :
    segments? (text parts) = some parts := by
  obtain ⟨p, rest, rfl⟩ := List.exists_cons_of_ne_nil hne
  have hlist := toList_text (h p List.mem_cons_self).ne_empty rest
  have hwhole : Text.trim (text (p :: rest)) = text (p :: rest) := by
    rw [Text.trim_eq_self_iff, hlist]
    exact trimmed_intercalate h
  have hpieces : Text.split (· = '.') (text (p :: rest)) = p :: rest := by
    rw [Text.split, hlist, Text.pieces_intercalate (by simp) (by simp)]
    · simp [Function.comp_def]
    · intro part hpart c hc
      obtain ⟨q, hq, rfl⟩ := List.mem_map.mp hpart
      have hdot := (h q hq).undotted
      exact decide_eq_false fun he => hdot (he ▸ hc)
  have htrim : (p :: rest).map Text.trim = p :: rest := by
    have hid : ∀ q ∈ p :: rest, Text.trim q = id q := fun q hq =>
      Text.trim_eq_self_iff.mpr (h q hq).trimmed
    rw [List.map_congr_left hid, List.map_id]
  have hfull : ¬ (text (p :: rest)).isEmpty = true := by
    intro he
    rw [String.isEmpty_iff.mp he] at hpieces
    have hp : p = "" := (List.cons.inj hpieces).1.symm
    exact (h p List.mem_cons_self).ne_empty hp
  have hany : ¬ (p :: rest).any String.isEmpty = true := by
    intro ha
    obtain ⟨q, hq, he⟩ := List.any_eq_true.mp ha
    exact (h q hq).ne_empty (String.isEmpty_iff.mp he)
  rw [segments?]
  dsimp only
  rw [hwhole, if_neg hfull, hpieces, htrim, if_neg hany]

/-- **The joined path of some names is cut into them.** -/
theorem split_text {parts : List String} (hne : parts ≠ []) (h : ∀ p ∈ parts, IsName p) :
    split (text parts) = .ok parts :=
  split_eq_ok_iff.mpr (segments?_text hne h)

/-- Lists of names with one text are one list. -/
theorem eq_of_text_eq {parts parts' : List String} (hne : parts ≠ []) (hne' : parts' ≠ [])
    (h : ∀ p ∈ parts, IsName p) (h' : ∀ p ∈ parts', IsName p) (heq : text parts = text parts') :
    parts = parts' :=
  Option.some.inj (by rw [← segments?_text hne h, heq, segments?_text hne' h'])

/-- The text of some names and one more. -/
theorem text_concat (parents : List String) (name : String) :
    text (parents ++ [name]) = join (text parents) name := by
  rw [text, List.foldl_append]
  rfl

/-- The text of some names is made of their characters and of dots. -/
theorem mem_text {parts : List String} {c : Char} (h : c ∈ (text parts).toList) :
    c = '.' ∨ ∃ p ∈ parts, c ∈ p.toList := by
  induction parts using List.reverseRecOn with
  | nil => exact absurd h List.not_mem_nil
  | append_singleton parents name ih =>
      rw [text_concat] at h
      by_cases hparents : text parents = ""
      · rw [hparents] at h
        exact Or.inr ⟨name, by simp, h⟩
      · rw [toList_join hparents, List.mem_append, List.mem_cons] at h
        rcases h with hfront | hdot | hname
        · exact (ih hfront).imp_right fun ⟨p, hp, hc⟩ => ⟨p, List.mem_append_left _ hp, hc⟩
        · exact Or.inl hdot
        · exact Or.inr ⟨name, by simp, hname⟩

theorem text_ne_empty {parts : List String} (hne : parts ≠ []) (h : ∀ p ∈ parts, IsName p) :
    text parts ≠ "" := by
  intro hempty
  have hnone : segments? "" = none := by decide
  have hparts := segments?_text hne h
  rw [hempty, hnone] at hparts
  cases hparts

/-- The text of some names has a dot between any two of them. -/
theorem text_eq_intercalate {parts : List String} (h : ∀ p ∈ parts, IsName p) :
    text parts = String.intercalate "." parts := by
  cases parts with
  | nil => rfl
  | cons name names =>
      rw [← String.toList_inj, toList_text (h name List.mem_cons_self).ne_empty,
        String.toList_intercalate]
      rfl

/-- **The text of names after names** is their texts with a dot between them. -/
theorem text_append {front back : List String} (hfront : front ≠ []) (hback : back ≠ [])
    (h : ∀ p ∈ front ++ back, IsName p) :
    text (front ++ back) = text front ++ "." ++ text back := by
  obtain ⟨hnames, hnames'⟩ := List.forall_mem_append.mp h
  have hne := text_ne_empty hfront hnames
  induction back using List.reverseRecOn with
  | nil => exact absurd rfl hback
  | append_singleton back name ih =>
      rw [← List.append_assoc, text_concat, text_concat]
      by_cases hnil : back = []
      · subst hnil
        rw [List.append_nil, join_of_ne_empty hne]
        rfl
      · rw [← List.append_assoc] at h
        obtain ⟨hmore, -⟩ := List.forall_mem_append.mp h
        obtain ⟨hmore', -⟩ := List.forall_mem_append.mp hnames'
        have hback' := text_ne_empty hnil hmore'
        rw [ih hnil hmore hmore', join_of_ne_empty hback', join_of_ne_empty (by simp [hne])]
        simp only [String.append_assoc]

-- ── Two texts with a dot between them ─────────────────────────────────────────────

/-- The trimmed pieces of a text between its dots, blank ones included. -/
def pieces (path : String) : List String := (Text.split (· = '.') path).map Text.trim

theorem not_dot_of_isBlank (c : Char) (h : Text.isBlank c = true) : decide (c = '.') = false := by
  refine decide_eq_false ?_
  rintro rfl
  exact absurd h (by decide)

/-- Blanks around a text make no difference to its trimmed pieces. -/
theorem pieces_trim (path : String) : pieces (Text.trim path) = pieces path := by
  rw [pieces, pieces, Text.map_trim_split, Text.map_trim_split, Text.toList_trim,
    Text.map_trimChars_pieces not_dot_of_isBlank]

theorem pieces_of_blank {path : String} (h : (Text.trim path).isEmpty = true) :
    pieces path = [""] := by
  rw [← pieces_trim, String.isEmpty_iff.mp h]
  rfl

/-- **The segments of a path are its pieces**, none of which may be blank. That blanks around the whole
    are trimmed as well adds nothing to this. -/
theorem segments?_eq_pieces (path : String) :
    segments? path = if (pieces path).any String.isEmpty then none else some (pieces path) := by
  have hsplit : (Text.split (· = '.') (Text.trim path)).map Text.trim = pieces path :=
    pieces_trim path
  rw [segments?]
  dsimp only
  rw [hsplit]
  by_cases hblank : (Text.trim path).isEmpty = true
  · rw [if_pos hblank, pieces_of_blank hblank]
    rfl
  · rw [if_neg hblank]

theorem pieces_dot (path rest : String) :
    pieces (path ++ "." ++ rest) = pieces path ++ pieces rest := by
  have hlist : (path ++ "." ++ rest).toList = path.toList ++ '.' :: rest.toList := by simp
  rw [pieces, pieces, pieces, Text.map_trim_split, Text.map_trim_split, Text.map_trim_split, hlist,
    Text.pieces_append_cut (by simp), List.map_append, List.map_append]

/-- **A dot between two texts puts the segments of the second after those of the first.** The whole
    names no place if one of the two does not. -/
theorem segments?_dot (path rest : String) : segments? (path ++ "." ++ rest)
    = (segments? path).bind fun way => (segments? rest).map fun place => way ++ place := by
  rw [segments?_eq_pieces, segments?_eq_pieces, segments?_eq_pieces, pieces_dot, List.any_append]
  cases (pieces path).any String.isEmpty with
  | true => rfl
  | false =>
      cases (pieces rest).any String.isEmpty with
      | true => rfl
      | false => rfl

-- ── One spelling for each place ───────────────────────────────────────────────────

/-- The spelling of a path that has nothing but its segments and a dot between any two of them. A
    text that names no place is left as it is. -/
def normal (path : String) : String :=
  match segments? path with
  | some parts => text parts
  | none => path

theorem normal_eq {path : String} {parts : List String} (h : segments? path = some parts) :
    normal path = text parts := by
  rw [normal, h]

/-- **The normal spelling names the same place.** -/
theorem segments?_normal (path : String) : segments? (normal path) = segments? path := by
  cases h : segments? path with
  | some parts => rw [normal_eq h, segments?_text (segments?_ne_nil h) (isName_of_segments? h)]
  | none => rw [normal, h, h]

/-- A place has one normal spelling. -/
theorem normal_congr {path path' : String} (hnamed : segments? path ≠ none)
    (h : segments? path = segments? path') : normal path = normal path' := by
  obtain ⟨parts, hparts⟩ := Option.ne_none_iff_exists'.mp hnamed
  rw [normal_eq hparts, normal_eq (h ▸ hparts)]

-- ── The last segment ──────────────────────────────────────────────────────────────

/-- Cutting off the last segment succeeds with the segments before it and itself. -/
theorem splitLast_eq_ok_iff {path name : String} {parents : List String} :
    splitLast path = .ok (parents, name) ↔ segments? path = some (parents ++ [name]) := by
  unfold splitLast split
  constructor
  · intro h
    cases hs : segments? path with
    | none => rw [hs] at h; exact nomatch h
    | some parts =>
        rw [hs] at h
        dsimp only at h
        cases hu : unsnoc parts with
        | none => rw [hu] at h; exact nomatch h
        | some found =>
            rw [hu] at h
            obtain rfl : found = (parents, name) := Except.ok.inj h
            rw [eq_of_unsnoc hu]
  · intro h
    rw [h]
    dsimp only
    rw [unsnoc_append]

/-- Cutting off the last segment fails exactly where a path has no segments, and shows it. -/
theorem splitLast_eq_error_iff {path : String} {e : Error} :
    splitLast path = .error e ↔ segments? path = none ∧ e = .invalidKey path := by
  unfold splitLast split
  cases hs : segments? path with
  | none => simp [eq_comm]
  | some parts =>
      obtain ⟨parents, name, rfl⟩ := exists_concat_of_segments? hs
      simp [unsnoc_append]

end ParamStore.Path
