import Mathlib.Logic.Relation
import ParamStore.Proofs.Text.Trimming

/-!
# Runs — what stands between cutting characters

A cut leaves pieces, and some of them are empty: where two cutting characters stand side by side, and
    at an end of the text. The pieces that are not empty are the longest stretches without
    a cutting character, and these can be told from the text alone. Once they are trimmed and
    the blank ones dropped, neither cutting characters next to others or at an end nor blanks
    there make a difference to them.

* **`Runs`** — the longest stretches without a cutting character, in order; `runs_iff` says that they are
  the pieces that are not empty.
* **`kept`** — stretches trimmed, the blank ones dropped.
* **`Loosened`** — a text with a cutting character or a blank more, at an end or next to a cutting
  character; `kept_pieces_eq` says that nothing more is kept of it, and nothing less.
-/

namespace ParamStore.Text

/-- The longest stretches without a cutting character: each has characters, ends with the text or at
    a cutting character, and starts with it or behind one. -/
inductive Runs (cut : Char → Bool) : List Char → List (List Char) → Prop
  | done : Runs cut [] []
  | skip {c : Char} {cs : List Char} {runs : List (List Char)} (hc : cut c = true)
      (rest : Runs cut cs runs) : Runs cut (c :: cs) runs
  | take {run cs : List Char} {runs : List (List Char)} (hne : run ≠ [])
      (huncut : ∀ c ∈ run, cut c = false) (hends : ∀ c ∈ cs.head?, cut c = true)
      (rest : Runs cut cs runs) : Runs cut (run ++ cs) (run :: runs)

/-- Stretches without the blanks at their ends, those of blanks only left out. -/
def kept (runs : List (List Char)) : List (List Char) :=
  (runs.map trimChars).filter fun run => !run.isEmpty

/-- A place in a text at which a stretch ends whatever stands there: an end of the text, or one side
    of a cutting character. -/
def Bounds (cut : Char → Bool) (front back : List Char) : Prop :=
  (∀ c ∈ front.getLast?, cut c = true) ∨ ∀ c ∈ back.head?, cut c = true

/-- A text with one character more, a cutting one or a blank, at a place at which a stretch ends
    anyway. -/
inductive Loosened (cut : Char → Bool) : List Char → List Char → Prop
  | insert {front back : List Char} {c : Char} (hplace : Bounds cut front back)
      (hc : cut c = true ∨ isBlank c = true) : Loosened cut (front ++ back) (front ++ c :: back)

variable {cut : Char → Bool}

-- ── Runs and pieces ───────────────────────────────────────────────────────────────

/-- **Every text has its runs.** -/
theorem exists_runs (cut : Char → Bool) (cs : List Char) : ∃ runs, Runs cut cs runs := by
  induction cs with
  | nil => exact ⟨[], .done⟩
  | cons c cs ih =>
      obtain ⟨runs, hruns⟩ := ih
      by_cases hc : cut c = true
      · exact ⟨runs, .skip hc hruns⟩
      · have huncut : cut c = false := Bool.eq_false_iff.mpr hc
        have hone : ∀ d ∈ [c], cut d = false := List.forall_mem_singleton.mpr huncut
        -- the character starts a run, or goes in front of the one that starts behind it
        cases hruns with
        | done => exact ⟨[[c]], .take (List.cons_ne_nil _ _) hone (by simp) .done⟩
        | skip hd rest =>
            exact ⟨[c] :: runs, .take (List.cons_ne_nil _ _) hone (by simpa using hd)
              (.skip hd rest)⟩
        | take _ hrun hends rest =>
            exact ⟨_, .take (List.cons_ne_nil c _) (List.forall_mem_cons.mpr ⟨huncut, hrun⟩)
              hends rest⟩

theorem Runs.eq_pieces {cs : List Char} {runs : List (List Char)} (h : Runs cut cs runs) :
    runs = (pieces cut cs).filter fun run => !run.isEmpty := by
  induction h with
  | done => rfl
  | skip hc _ ih => rw [pieces, if_pos hc, List.filter_cons_of_neg (by simp), ih]
  | @take run cs runs hne huncut hends _ ih =>
      have hfull (rest : List (List Char)) : (run :: rest).filter (fun run => !run.isEmpty)
          = run :: rest.filter fun run => !run.isEmpty :=
        List.filter_cons_of_pos (by simpa using hne)
      cases cs with
      | nil =>
          rw [List.append_nil, pieces_of_uncut cut run huncut, hfull, ih]
          rfl
      | cons c cs =>
          have hc : cut c = true := hends c rfl
          rw [pieces, if_pos hc, List.filter_cons_of_neg (by simp)] at ih
          rw [pieces_append huncut hc, hfull, ih]

/-- **The runs are the pieces that are not empty.** -/
theorem runs_iff {cs : List Char} {runs : List (List Char)} :
    Runs cut cs runs ↔ runs = (pieces cut cs).filter fun run => !run.isEmpty := by
  refine ⟨Runs.eq_pieces, ?_⟩
  rintro rfl
  obtain ⟨runs, hruns⟩ := exists_runs cut cs
  rwa [← hruns.eq_pieces]

-- ── What is kept ──────────────────────────────────────────────────────────────────

theorem kept_append (runs more : List (List Char)) :
    kept (runs ++ more) = kept runs ++ kept more := by
  rw [kept, List.map_append, List.filter_append]
  rfl

/-- Nothing is kept of an empty stretch. -/
theorem kept_filter (runs : List (List Char)) :
    kept (runs.filter fun run => !run.isEmpty) = kept runs := by
  induction runs with
  | nil => rfl
  | cons run runs ih =>
      cases run with
      | nil => exact ih
      | cons c cs =>
          rw [List.filter_cons_of_pos rfl, ← List.singleton_append, kept_append, ih, ← kept_append]
          rfl

/-- Of the pieces of an empty text nothing is kept. -/
theorem kept_pieces_nil : kept (pieces cut []) = [] := rfl

/-- A loose character in front of a text is not kept. -/
theorem kept_pieces_cons {c : Char} (hc : cut c = true ∨ isBlank c = true) (cs : List Char) :
    kept (pieces cut (c :: cs)) = kept (pieces cut cs) := by
  by_cases hcut : cut c = true
  · rw [pieces, if_pos hcut]
    rfl
  · obtain ⟨piece, more, hp⟩ := List.exists_cons_of_ne_nil (pieces_ne_nil cut cs)
    have hblank : ∀ d ∈ [c], isBlank d = true :=
      List.forall_mem_singleton.mpr (hc.resolve_left hcut)
    have hstep : pieces cut (c :: cs) = (c :: piece) :: more := by
      rw [pieces, if_neg hcut, hp]
    have htrim : trimChars (c :: piece) = trimChars piece := trimChars_append_left hblank piece
    rw [hstep, hp, kept, kept, List.map_cons, List.map_cons, htrim]

/-- A loose character at the end of a text is not kept. -/
theorem kept_pieces_concat {c : Char} (hc : cut c = true ∨ isBlank c = true) (cs : List Char) :
    kept (pieces cut (cs ++ [c])) = kept (pieces cut cs) := by
  by_cases hcut : cut c = true
  · rw [pieces_append_cut hcut, kept_append, kept_pieces_nil, List.append_nil]
  · have huncut : ∀ d ∈ [c], cut d = false :=
      List.forall_mem_singleton.mpr (Bool.eq_false_iff.mpr hcut)
    have hblank : ∀ d ∈ [c], isBlank d = true :=
      List.forall_mem_singleton.mpr (hc.resolve_left hcut)
    obtain ⟨front, last, hcs, hback⟩ := exists_pieces_append_uncut huncut cs
    rw [hcs, hback, kept_append, kept_append, kept, kept, kept, List.map_singleton,
      List.map_singleton, trimChars_append_right hblank]

/-- **Where a stretch ends anyway, the two sides are kept on their own.** -/
theorem kept_pieces_append {front back : List Char} (h : Bounds cut front back) :
    kept (pieces cut (front ++ back)) = kept (pieces cut front) ++ kept (pieces cut back) := by
  rcases h with hlast | hhead
  · rcases List.eq_nil_or_concat front with rfl | ⟨start, c, rfl⟩
    · rw [kept_pieces_nil]
      rfl
    · rw [List.concat_eq_append] at hlast ⊢
      have hc : cut c = true := hlast c List.getLast?_concat
      rw [kept_pieces_concat (.inl hc), List.append_assoc, List.singleton_append,
        pieces_append_cut hc, kept_append]
  · cases back with
    | nil => rw [kept_pieces_nil, List.append_nil, List.append_nil]
    | cons c back =>
        have hc : cut c = true := hhead c rfl
        rw [kept_pieces_cons (.inl hc), pieces_append_cut hc, kept_append]

/-- **A loose character makes no difference.** Next to it a stretch ends before and after it is put
    there. -/
theorem Loosened.kept_eq {cs ds : List Char} (h : Loosened cut cs ds) :
    kept (pieces cut ds) = kept (pieces cut cs) := by
  cases h with
  | @insert front back c hplace hc =>
      rw [kept_pieces_append hplace]
      rcases hplace with hlast | hhead
      · rw [kept_pieces_append (.inl hlast), kept_pieces_cons hc]
      · rw [List.append_cons, kept_pieces_append (.inr hhead), kept_pieces_concat hc]

/-- **Texts that are equal up to loose characters keep the same.** -/
theorem kept_pieces_eq {cs ds : List Char} (h : Relation.EqvGen (Loosened cut) cs ds) :
    kept (pieces cut cs) = kept (pieces cut ds) := by
  induction h with
  | rel _ _ h => exact h.kept_eq.symm
  | refl _ => rfl
  | symm _ _ _ ih => exact ih.symm
  | trans _ _ _ _ _ ih ih' => exact ih.trans ih'

end ParamStore.Text
