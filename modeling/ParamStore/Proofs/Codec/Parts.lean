import ParamStore.Proofs.Codec.Brackets

/-!
# Parts — what a cut gives, whether brackets match or not

A cut takes a text as it is: a closing bracket that closes nothing does not count, and an opening
    one that is never closed keeps the rest together. The depth of such a scan is always a number,
    and the cut is described by it alone: what it passes over, where it stops, and that its
    parts, the last one apart, end at depth zero and hold no separator at depth zero. Balanced
    texts are the case in which nothing is ignored.

* **`openAfter`** — the scan; `openAfter_append` is its law, `openAfter_of_depthAfter` the
  balanced case.
* **`TopFree`** — no separator at depth zero; `cutFrom_eq_singleton_iff` says that such texts are
  the ones that a cut leaves in one part.
* **`cutFrom_append_of_stops`** — a separator at depth zero ends a part;
  **`cutFrom_concat_of_passes`** — any other character goes to the last part.
* **`Sealed`** — a text that may be followed by a separator; `exists_cutTop_eq` says that all
  parts but the last are sealed, and `cutTop_intercalate_concat` that cutting undoes joining.
-/

namespace ParamStore.Literal

/-- The depth after one character, where a closing bracket too many is ignored. -/
def shift (depth : Nat) (c : Char) : Nat :=
  if c = '[' then depth + 1 else if c = ']' then depth - 1 else depth

/-- The depth after a text. -/
def openAfter (depth : Nat) (cs : List Char) : Nat := cs.foldl shift depth

/-- No separator stands at depth zero when the text is scanned from a given depth; brackets never
    separate. -/
def TopFree (separates : Char → Bool) (depth : Nat) (cs : List Char) : Prop :=
  ∀ front c back, cs = front ++ c :: back → c ≠ '[' → c ≠ ']' → openAfter depth front = 0 →
    separates c = false

variable {separates : Char → Bool}

-- ── The scan ──────────────────────────────────────────────────────────────────────

theorem openAfter_cons (d : Nat) (c : Char) (cs : List Char) :
    openAfter d (c :: cs) = openAfter (shift d c) cs := rfl

/-- **The scan of two texts in a row** goes on from where the first one ends. -/
theorem openAfter_append (d : Nat) (cs ds : List Char) :
    openAfter d (cs ++ ds) = openAfter (openAfter d cs) ds := by
  rw [openAfter, List.foldl_append]
  rfl

theorem shift_plain {c : Char} (hopen : c ≠ '[') (hclose : c ≠ ']') (d : Nat) :
    shift d c = d := by
  rw [shift, if_neg hopen, if_neg hclose]

/-- A text without brackets leaves every depth as it is. -/
theorem openAfter_plain {cs : List Char} (h : ∀ c ∈ cs, c ≠ '[' ∧ c ≠ ']') (d : Nat) :
    openAfter d cs = d := by
  induction cs with
  | nil => rfl
  | cons c cs ih =>
      obtain ⟨⟨hopen, hclose⟩, hrest⟩ := List.forall_mem_cons.mp h
      rw [openAfter_cons, shift_plain hopen hclose, ih hrest]

theorem not_bracket_of_isBlank {c : Char} (h : Text.isBlank c = true) : c ≠ '[' ∧ c ≠ ']' := by
  constructor
  · rintro rfl
    exact absurd h (by decide)
  · rintro rfl
    exact absurd h (by decide)

-- ── Texts without a separator at depth zero ───────────────────────────────────────

theorem topFree_nil (d : Nat) : TopFree separates d [] := by
  intro front c back h
  exact absurd h.symm (List.append_ne_nil_of_right_ne_nil front (List.cons_ne_nil c back))

/-- The first character, and the rest from the depth after it. -/
theorem topFree_cons {d : Nat} {c : Char} {cs : List Char} :
    TopFree separates d (c :: cs) ↔
      (c ≠ '[' → c ≠ ']' → d = 0 → separates c = false) ∧ TopFree separates (shift d c) cs := by
  constructor
  · intro h
    constructor
    · exact h [] c cs rfl
    · intro front e back heq
      exact h (c :: front) e back (congrArg (c :: ·) heq)
  · rintro ⟨hc, hcs⟩ front e back heq
    cases front with
    | nil =>
        obtain ⟨rfl, rfl⟩ := List.cons.inj heq
        exact hc
    | cons first front =>
        obtain ⟨rfl, hrest⟩ := List.cons.inj heq
        exact hcs front e back hrest

/-- Two texts in a row have no separator at depth zero exactly if neither has. -/
theorem topFree_append {d : Nat} {cs ds : List Char} :
    TopFree separates d (cs ++ ds) ↔
      TopFree separates d cs ∧ TopFree separates (openAfter d cs) ds := by
  induction cs generalizing d with
  | nil => exact (and_iff_right (topFree_nil d)).symm
  | cons c cs ih => rw [List.cons_append, topFree_cons, ih, topFree_cons, and_assoc, openAfter_cons]

/-- Fewer separators stand in no more places. -/
theorem TopFree.mono {other : Char → Bool} (himp : ∀ c, other c = true → separates c = true)
    {d : Nat} {cs : List Char} (h : TopFree separates d cs) : TopFree other d cs := by
  intro front c back heq hopen hclose hdepth
  refine Bool.eq_false_iff.mpr ?_
  intro hc
  exact Bool.eq_false_iff.mp (h front c back heq hopen hclose hdepth) (himp c hc)

/-- At every depth, a character either stops a cut or does not. -/
theorem stops_or_passes (separates : Char → Bool) (d : Nat) (c : Char) :
    (c ≠ '[' ∧ c ≠ ']' ∧ d = 0 ∧ separates c = true)
      ∨ (c ≠ '[' → c ≠ ']' → d = 0 → separates c = false) := by
  by_cases h : c ≠ '[' ∧ c ≠ ']' ∧ d = 0 ∧ separates c = true
  · left
    exact h
  · right
    intro hopen hclose hd
    refine Bool.eq_false_iff.mpr ?_
    intro hc
    exact h ⟨hopen, hclose, hd, hc⟩

-- ── Balanced texts ────────────────────────────────────────────────────────────────

theorem shift_of_descend {d e : Nat} {c : Char} (h : descend d c = some e) : shift d c = e := by
  rw [descend] at h
  rw [shift]
  by_cases hopen : c = '['
  · rw [if_pos hopen] at h ⊢
    exact Option.some.inj h
  · rw [if_neg hopen] at h ⊢
    by_cases hclose : c = ']'
    · rw [if_pos hclose] at h ⊢
      by_cases hd : d = 0
      · rw [if_pos hd] at h
        exact absurd h (by simp)
      · rw [if_neg hd] at h
        exact Option.some.inj h
    · rw [if_neg hclose] at h ⊢
      exact Option.some.inj h

/-- **Where nothing is ignored, the two scans agree.** -/
theorem openAfter_of_depthAfter {d e : Nat} {cs : List Char} (h : depthAfter d cs = some e) :
    openAfter d cs = e := by
  induction cs generalizing d with
  | nil => exact Option.some.inj h
  | cons c cs ih =>
      obtain ⟨m, hm, hrest⟩ := Option.bind_eq_some_iff.mp h
      rw [openAfter_cons, shift_of_descend hm]
      exact ih hrest

theorem Uncut.topFree {d e : Nat} {cs : List Char} (h : Uncut separates d cs)
    (hdepth : depthAfter d cs = some e) : TopFree separates d cs := by
  induction cs generalizing d with
  | nil => exact topFree_nil d
  | cons c cs ih =>
      obtain ⟨hc, hcs⟩ := uncut_cons.mp h
      obtain ⟨m, hm, hrest⟩ := Option.bind_eq_some_iff.mp hdepth
      rw [topFree_cons, shift_of_descend hm]
      exact ⟨fun _ _ hd => hc hd, ih (hcs m hm) hrest⟩

-- ── What a cut passes over, and where it stops ────────────────────────────────────

theorem cutFrom_cons_of_stops {c : Char} (hopen : c ≠ '[') (hclose : c ≠ ']')
    (hc : separates c = true) (cs : List Char) :
    cutFrom separates 0 (c :: cs) = [] :: cutFrom separates 0 cs := by
  rw [cutFrom, if_neg hopen, if_neg hclose, if_pos (by rw [hc]; rfl)]

/-- A character at which the cut does not stop grows the first part. -/
theorem cutFrom_cons_of_passes {d : Nat} {c : Char}
    (h : c ≠ '[' → c ≠ ']' → d = 0 → separates c = false) (cs : List Char) :
    cutFrom separates d (c :: cs) = grow c (cutFrom separates (shift d c) cs) := by
  rw [cutFrom, shift]
  by_cases hopen : c = '['
  · rw [if_pos hopen, if_pos hopen]
  · rw [if_neg hopen, if_neg hopen]
    by_cases hclose : c = ']'
    · rw [if_pos hclose, if_pos hclose]
    · rw [if_neg hclose, if_neg hclose, if_neg]
      intro hstop
      rw [Bool.and_eq_true, decide_eq_true_eq] at hstop
      exact Bool.eq_false_iff.mp (h hopen hclose hstop.1) hstop.2

theorem foldr_grow (part first : List Char) (more : List (List Char)) :
    part.foldr grow (first :: more) = (part ++ first) :: more := by
  induction part with
  | nil => rfl
  | cons c part ih => rw [List.foldr_cons, ih, grow, List.cons_append]

/-- **A cut passes over a text without separators at depth zero**, from any depth. -/
theorem cutFrom_append_of_topFree {d : Nat} {part : List Char} (h : TopFree separates d part)
    (rest : List Char) : cutFrom separates d (part ++ rest)
      = part.foldr grow (cutFrom separates (openAfter d part) rest) := by
  induction part generalizing d with
  | nil => rfl
  | cons c part ih =>
      obtain ⟨hc, hpart⟩ := topFree_cons.mp h
      rw [List.cons_append, cutFrom_cons_of_passes hc, ih hpart, List.foldr_cons, openAfter_cons]

/-- **The texts without separators at depth zero are those that a cut leaves in one part.** -/
theorem cutFrom_eq_singleton_iff {d : Nat} {cs part : List Char} :
    cutFrom separates d cs = [part] ↔ part = cs ∧ TopFree separates d cs := by
  constructor
  · intro h
    induction cs generalizing d part with
    | nil =>
        obtain rfl := (List.cons.inj h).1
        exact ⟨rfl, topFree_nil d⟩
    | cons c cs ih =>
        rcases stops_or_passes separates d c with ⟨hopen, hclose, rfl, hc⟩ | hpasses
        · rw [cutFrom_cons_of_stops hopen hclose hc] at h
          exact absurd (List.cons.inj h).2 (cutFrom_ne_nil _ _ _)
        · rw [cutFrom_cons_of_passes hpasses] at h
          cases hcut : cutFrom separates (shift d c) cs with
          | nil => exact absurd hcut (cutFrom_ne_nil _ _ _)
          | cons first more =>
              rw [hcut, grow] at h
              obtain ⟨rfl, rfl⟩ := List.cons.inj h
              obtain ⟨rfl, hfree⟩ := ih hcut
              exact ⟨rfl, topFree_cons.mpr ⟨hpasses, hfree⟩⟩
  · rintro ⟨rfl, h⟩
    have hcut := cutFrom_append_of_topFree h []
    rwa [List.append_nil, cutFrom, foldr_grow, List.append_nil] at hcut

/-- Where one kind of separator does not stand at depth zero, a cut may stop at it as well. -/
theorem cutFrom_or {other : Char → Bool} {d : Nat} {cs : List Char} (h : TopFree other d cs) :
    cutFrom (fun c => separates c || other c) d cs = cutFrom separates d cs := by
  induction cs generalizing d with
  | nil => rfl
  | cons c cs ih =>
      obtain ⟨hc, hcs⟩ := topFree_cons.mp h
      rcases stops_or_passes separates d c with ⟨hopen, hclose, rfl, hsep⟩ | hpasses
      · have hrest : TopFree other 0 cs := by rwa [shift_plain hopen hclose] at hcs
        rw [cutFrom_cons_of_stops hopen hclose hsep, ← ih hrest]
        exact cutFrom_cons_of_stops hopen hclose (by rw [hsep, Bool.true_or]) cs
      · rw [cutFrom_cons_of_passes hpasses, ← ih hcs]
        refine cutFrom_cons_of_passes ?_ cs
        intro hopen hclose hd
        rw [hpasses hopen hclose hd, hc hopen hclose hd, Bool.or_false]

-- ── One more character ────────────────────────────────────────────────────────────

theorem grow_append {c : Char} {parts : List (List Char)} (h : parts ≠ [])
    (more : List (List Char)) : grow c (parts ++ more) = grow c parts ++ more := by
  cases parts with
  | nil => exact absurd rfl h
  | cons part parts => rfl

/-- **A separator at depth zero ends a part**: what precedes it and what follows it are cut on their
    own. -/
theorem cutFrom_append_of_stops {d : Nat} {cs : List Char} {c : Char} (hopen : c ≠ '[')
    (hclose : c ≠ ']') (hdepth : openAfter d cs = 0) (hc : separates c = true) (rest : List Char) :
    cutFrom separates d (cs ++ c :: rest) = cutFrom separates d cs ++ cutFrom separates 0 rest := by
  induction cs generalizing d with
  | nil =>
      obtain rfl : d = 0 := hdepth
      exact cutFrom_cons_of_stops hopen hclose hc rest
  | cons e cs ih =>
      rw [openAfter_cons] at hdepth
      rcases stops_or_passes separates d e with ⟨hopen', hclose', rfl, he⟩ | hpasses
      · rw [shift_plain hopen' hclose'] at hdepth
        rw [List.cons_append, cutFrom_cons_of_stops hopen' hclose' he,
          cutFrom_cons_of_stops hopen' hclose' he, ih hdepth, List.cons_append]
      · rw [List.cons_append, cutFrom_cons_of_passes hpasses, cutFrom_cons_of_passes hpasses,
          ih hdepth, grow_append (cutFrom_ne_nil _ _ _)]

/-- A cut that stops at a last character leaves an empty part behind it. -/
theorem cutFrom_concat_of_stops {d : Nat} {cs : List Char} {c : Char} (hopen : c ≠ '[')
    (hclose : c ≠ ']') (hdepth : openAfter d cs = 0) (hc : separates c = true) :
    cutFrom separates d (cs ++ [c]) = cutFrom separates d cs ++ [[]] :=
  cutFrom_append_of_stops hopen hclose hdepth hc []

/-- A cut that does not stop at a last character leaves it in the last part. -/
theorem cutFrom_concat_of_passes {d : Nat} {cs : List Char} {c : Char}
    (h : c ≠ '[' → c ≠ ']' → openAfter d cs = 0 → separates c = false) :
    ∃ front last, cutFrom separates d cs = front ++ [last]
      ∧ cutFrom separates d (cs ++ [c]) = front ++ [last ++ [c]] := by
  induction cs generalizing d with
  | nil => exact ⟨[], [], rfl, cutFrom_cons_of_passes h []⟩
  | cons e cs ih =>
      rw [openAfter_cons] at h
      rcases stops_or_passes separates d e with ⟨hopen, hclose, rfl, he⟩ | hpasses
      · rw [shift_plain hopen hclose] at h
        obtain ⟨front, last, hcut, hmore⟩ := ih h
        refine ⟨[] :: front, last, ?_, ?_⟩
        · rw [cutFrom_cons_of_stops hopen hclose he, hcut, List.cons_append]
        · rw [List.cons_append, cutFrom_cons_of_stops hopen hclose he, hmore, List.cons_append]
      · obtain ⟨front, last, hcut, hmore⟩ := ih h
        rw [List.cons_append, cutFrom_cons_of_passes hpasses, cutFrom_cons_of_passes hpasses, hcut,
          hmore]
        cases front with
        | nil => exact ⟨[], e :: last, rfl, rfl⟩
        | cons first front => exact ⟨(e :: first) :: front, last, rfl, rfl⟩

-- ── The parts of a cut ────────────────────────────────────────────────────────────

/-- No separator stands at depth zero, and the depth is zero at the end. -/
structure Sealed (separates : Char → Bool) (cs : List Char) : Prop where
  topFree : TopFree separates 0 cs
  shut : openAfter 0 cs = 0

/-- A whole text is sealed. -/
theorem Whole.isSealed {cs : List Char} (h : Whole separates cs) : Sealed separates cs :=
  ⟨h.uncut.topFree h.balanced, openAfter_of_depthAfter h.balanced⟩

theorem sealed_nil : Sealed separates [] := ⟨topFree_nil 0, rfl⟩

theorem Sealed.append {cs ds : List Char} (h : Sealed separates cs) (h' : Sealed separates ds) :
    Sealed separates (cs ++ ds) := by
  constructor
  · rw [topFree_append, h.shut]
    exact ⟨h.topFree, h'.topFree⟩
  · rw [openAfter_append, h.shut, h'.shut]

theorem Sealed.mono {other : Char → Bool} (himp : ∀ c, other c = true → separates c = true)
    {cs : List Char} (h : Sealed separates cs) : Sealed other cs :=
  ⟨h.topFree.mono himp, h.shut⟩

/-- A sealed text is a single part. -/
theorem Sealed.cutTop_eq {cs : List Char} (h : Sealed separates cs) :
    cutTop separates cs = [cs] :=
  cutFrom_eq_singleton_iff.mpr ⟨rfl, h.topFree⟩

/-- **All parts of a cut but the last one are sealed**, and the last one ends at the depth at which
    the text does. -/
theorem exists_cutTop_eq (separates : Char → Bool) (cs : List Char) :
    ∃ front last, cutTop separates cs = front ++ [last]
      ∧ (∀ part ∈ front, Sealed separates part) ∧ TopFree separates 0 last
      ∧ openAfter 0 last = openAfter 0 cs := by
  induction cs using List.reverseRecOn with
  | nil => exact ⟨[], [], rfl, fun _ h => absurd h List.not_mem_nil, topFree_nil 0, rfl⟩
  | append_singleton cs c ih =>
      obtain ⟨front, last, hcut, hfront, hlast, hdepth⟩ := ih
      rcases stops_or_passes separates (openAfter 0 cs) c with ⟨hopen, hclose, hzero, hc⟩ | hpasses
      · refine ⟨front ++ [last], [], ?_, ?_, topFree_nil 0, ?_⟩
        · rw [cutTop, cutFrom_concat_of_stops hopen hclose hzero hc, ← cutTop, hcut]
        · intro part hpart
          rcases List.mem_append.mp hpart with hpart | hpart
          · exact hfront part hpart
          · obtain rfl := List.mem_singleton.mp hpart
            exact ⟨hlast, hdepth.trans hzero⟩
        · rw [openAfter_append, hzero]
          exact (shift_plain hopen hclose 0).symm
      · obtain ⟨front', last', hcut', hmore⟩ := cutFrom_concat_of_passes hpasses
        obtain ⟨rfl, hsame⟩ := List.append_inj' (hcut.symm.trans hcut') rfl
        obtain rfl := List.singleton_inj.mp hsame
        refine ⟨front, last ++ [c], hmore, hfront, ?_, ?_⟩
        · refine topFree_append.mpr ⟨hlast, topFree_cons.mpr ⟨?_, topFree_nil _⟩⟩
          rwa [hdepth]
        · rw [openAfter_append, openAfter_append, hdepth]

/-- **Cutting undoes joining**, if every part but the last one is sealed. -/
theorem cutTop_intercalate_concat {sep : Char} (hopen : sep ≠ '[') (hclose : sep ≠ ']')
    (hsep : separates sep = true) {front : List (List Char)} {last : List Char}
    (hfront : ∀ part ∈ front, Sealed separates part) (hlast : TopFree separates 0 last) :
    cutTop separates ([sep].intercalate (front ++ [last])) = front ++ [last] := by
  induction front with
  | nil =>
      rw [List.nil_append, List.intercalate_singleton]
      exact cutFrom_eq_singleton_iff.mpr ⟨rfl, hlast⟩
  | cons part front ih =>
      obtain ⟨hpart, hrest⟩ := List.forall_mem_cons.mp hfront
      rw [List.cons_append, List.intercalate_cons_of_ne_nil (by simp), List.append_assoc,
        List.singleton_append, cutTop, cutFrom_append_of_stops hopen hclose hpart.shut hsep,
        ← cutTop, ← cutTop, hpart.cutTop_eq, ih hrest, List.singleton_append]

-- ── Blanks around a text ──────────────────────────────────────────────────────────

/-- **Trimming leaves the depth after a text.** -/
theorem openAfter_trimChars (d : Nat) (cs : List Char) :
    openAfter d (Text.trimChars cs) = openAfter d cs := by
  obtain ⟨front, back, heq, hfront, hback⟩ := Text.exists_eq_append_trimChars cs
  conv_rhs => rw [heq]
  rw [openAfter_append, openAfter_append,
    openAfter_plain (fun c hc => not_bracket_of_isBlank (hfront c hc)),
    openAfter_plain (fun c hc => not_bracket_of_isBlank (hback c hc))]

theorem TopFree.trimChars {d : Nat} {cs : List Char} (h : TopFree separates d cs) :
    TopFree separates d (Text.trimChars cs) := by
  obtain ⟨front, back, heq, hfront, -⟩ := Text.exists_eq_append_trimChars cs
  rw [heq] at h
  have hinner := (topFree_append.mp (topFree_append.mp h).1).2
  rwa [openAfter_plain fun c hc => not_bracket_of_isBlank (hfront c hc)] at hinner

theorem Sealed.trimChars {cs : List Char} (h : Sealed separates cs) :
    Sealed separates (Text.trimChars cs) :=
  ⟨h.topFree.trimChars, (openAfter_trimChars 0 cs).trans h.shut⟩

/-- A sealed text may stand behind a blank that does not separate. -/
theorem TopFree.blank_cons (hblank : separates ' ' = false) {cs : List Char}
    (h : TopFree separates 0 cs) : TopFree separates 0 (' ' :: cs) :=
  topFree_cons.mpr ⟨fun _ _ _ => hblank, h⟩

theorem Sealed.blank_cons (hblank : separates ' ' = false) {cs : List Char}
    (h : Sealed separates cs) : Sealed separates (' ' :: cs) :=
  ⟨h.topFree.blank_cons hblank, h.shut⟩

end ParamStore.Literal
