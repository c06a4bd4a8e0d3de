import ParamStore.Proofs.Tree.Reachable

/-!
# Merging — acceptance and outcome in terms of paths

The theory of laying trees over one another speaks of places; what a caller sees are path texts.
    Every place that holds something in a well-formed tree has a text, so a conflict
    between two trees is a path that both have something to say about, and the objection to
    a merge is such a path.

* **`merge_at_root`** — when a merge at the root is accepted, what comes of it, and what it is
  refused for.
-/

namespace ParamStore.Tree

-- ── Texts of conflicts ────────────────────────────────────────────────────────────

/-- A path is a key exactly if a value is at its place. -/
theorem hasKey_eq {key name : String} {parents : List String}
    (h : Path.segments? key = some (parents ++ [name])) (t : Tree) :
    t.hasKey key = (t.valueAt? parents name).isSome := by
  rw [hasKey, get?_eq h]

/-- A path leads to a sub-tree exactly if one is at its place. -/
theorem hasSub_eq {path : String} {parts : List String} (h : Path.segments? path = some parts)
    (t : Tree) : t.hasSub path = (t.nodeAt? parts).isSome := by
  rw [hasSub, findSub?_eq h]

theorem segments?_of_hasKey {t : Tree} {key : String} (h : t.hasKey key = true) :
    ∃ parents name, Path.segments? key = some (parents ++ [name]) := by
  rcases segments?_cases key with hnone | hsome
  · rw [hasKey, get?_eq_none hnone] at h
    exact absurd h (by decide)
  · exact hsome

/-- The place of a value has a text. -/
theorem segments?_text_of_valueAt? {t : Tree} (h : t.WellFormed) {parents : List String}
    {name : String} (hvalue : (t.valueAt? parents name).isSome = true) :
    Path.segments? (Path.text (parents ++ [name])) = some (parents ++ [name]) := by
  obtain ⟨value, hsome⟩ := Option.isSome_iff_exists.mp hvalue
  exact segments?_text_concat (h.isName_of_valueAt? hsome)

/-- A place where two trees cross has a text. -/
theorem Crossed.segments?_text {a b : Tree} (ha : a.WellFormed) (hb : b.WellFormed)
    {parents : List String} {name : String} (h : Crossed a b parents name) :
    Path.segments? (Path.text (parents ++ [name])) = some (parents ++ [name]) := by
  rcases h with ⟨hvalue, _⟩ | ⟨_, hvalue⟩
  · exact segments?_text_of_valueAt? ha hvalue
  · exact segments?_text_of_valueAt? hb hvalue

/-- Where two trees cross, the path is a key of one and leads to a sub-tree of the other. -/
theorem crossed_iff {a b : Tree} {path name : String} {parents : List String}
    (h : Path.segments? path = some (parents ++ [name])) :
    Crossed a b parents name ↔ (a.hasKey path = true ∧ b.hasSub path = true)
      ∨ (a.hasSub path = true ∧ b.hasKey path = true) := by
  rw [Crossed, hasKey_eq h, hasKey_eq h, hasSub_eq h, hasSub_eq h]

/-- Where two trees double, the path is a key of both. -/
theorem doubled_iff {a b : Tree} {path name : String} {parents : List String}
    (h : Path.segments? path = some (parents ++ [name])) :
    Doubled a b parents name ↔ a.hasKey path = true ∧ b.hasKey path = true := by
  rw [Doubled, hasKey_eq h, hasKey_eq h]

/-- **A tree fits over another** exactly if no path is a key of one and a sub-tree of the other,
    and no path is a key of both unless values may be replaced. -/
theorem fits_iff_paths {a b : Tree} (ha : a.WellFormed) (hb : b.WellFormed) {overwrite : Bool} :
    Fits overwrite a b ↔
      (¬ ∃ path, (a.hasKey path = true ∧ b.hasSub path = true)
        ∨ (a.hasSub path = true ∧ b.hasKey path = true))
      ∧ (overwrite = true ∨ ¬ ∃ path, a.hasKey path = true ∧ b.hasKey path = true) := by
  constructor
  · rintro ⟨huncrossed, hundoubled⟩
    refine ⟨?_, hundoubled.imp_right ?_⟩
    · rintro ⟨path, hpath⟩
      have hkey : ∃ t : Tree, t.hasKey path = true :=
        hpath.elim (fun h => ⟨a, h.1⟩) fun h => ⟨b, h.2⟩
      obtain ⟨t, ht⟩ := hkey
      obtain ⟨parents, name, hsegments⟩ := segments?_of_hasKey ht
      exact huncrossed parents name ((crossed_iff hsegments).mpr hpath)
    · rintro h ⟨path, hpath⟩
      obtain ⟨parents, name, hsegments⟩ := segments?_of_hasKey hpath.1
      exact h parents name ((doubled_iff hsegments).mpr hpath)
  · rintro ⟨huncrossed, hundoubled⟩
    refine ⟨fun parents name h => ?_, hundoubled.imp_right fun hnone parents name h => ?_⟩
    · exact huncrossed ⟨_, (crossed_iff (h.segments?_text ha hb)).mp h⟩
    · exact hnone ⟨_, (doubled_iff (segments?_text_of_valueAt? ha h.1)).mp h⟩

-- ── At the root ───────────────────────────────────────────────────────────────────

/-- A merge at the root checks, and then lays the tree over the target. -/
theorem merge_root_eq (a b : Tree) (overwrite : Bool) :
    a.merge b "" overwrite = match checkMerge overwrite "" a b with
      | .error e => .refuse e a
      | .ok _ => .pure () (a.overlay b) := rfl

/-- A merge at the root is accepted exactly if the tree fits. -/
theorem merge_root_succeeds_iff {b : Tree} (hb : b.WellFormed) (a : Tree) (overwrite : Bool) :
    (a.merge b "" overwrite).succeeds = true ↔ Fits overwrite a b := by
  rw [← @checkMerge_eq_ok_iff overwrite "" a b hb, merge_root_eq]
  cases checkMerge overwrite "" a b <;> simp [Attempt.succeeds, Attempt.refuse, Attempt.pure]

theorem merge_root_state {a b : Tree} {overwrite : Bool}
    (h : (a.merge b "" overwrite).succeeds = true) :
    (a.merge b "" overwrite).state = a.overlay b := by
  rw [merge_root_eq] at h ⊢
  cases hcheck : checkMerge overwrite "" a b with
  | error e => rw [hcheck] at h; exact nomatch h
  | ok _ => rfl

/-- A value at a key after an overlay is the incoming one, or else the old one. -/
theorem get?_overlay {b : Tree} (hb : b.WellFormed) (a : Tree) (key : String) :
    (a.overlay b).get? key = (b.get? key).or (a.get? key) := by
  rcases segments?_cases key with hnone | ⟨parents, name, hsome⟩
  · rw [get?_eq_none hnone, get?_eq_none hnone, get?_eq_none hnone]
    rfl
  · rw [get?_eq hsome, get?_eq hsome, get?_eq hsome, valueAt?_overlay hb]

theorem hasSub_overlay {b : Tree} (hb : b.WellFormed) (a : Tree) (path : String) :
    (a.overlay b).hasSub path = (a.hasSub path || b.hasSub path) := by
  rcases segments?_cases path with hnone | ⟨parents, name, hsome⟩
  · simp only [hasSub, findSub?_eq_none hnone]
    rfl
  · rw [hasSub_eq hsome, hasSub_eq hsome, hasSub_eq hsome, isSome_nodeAt?_overlay hb]

/-- What a merge at the root is refused for is a path in conflict. -/
theorem merge_root_error {a b : Tree} (ha : a.WellFormed) (hb : b.WellFormed) {overwrite : Bool}
    {e : Error} (h : (a.merge b "" overwrite).result = .error e) :
    (∃ key, e = .duplicateKey key ∧ overwrite = false
        ∧ a.hasKey key = true ∧ b.hasKey key = true)
      ∨ ∃ path, e = .pathConflict path ∧ ((a.hasKey path = true ∧ b.hasSub path = true)
        ∨ (a.hasSub path = true ∧ b.hasKey path = true)) := by
  have hcheck : checkMerge overwrite "" a b = .error e := by
    rw [merge_root_eq] at h
    cases hc : checkMerge overwrite "" a b with
    | error e' => rw [hc] at h; exact h
    | ok _ => rw [hc] at h; exact nomatch h
  -- below the empty path, the place that is shown is the text of its names
  obtain ⟨parents, name, ⟨hcrossed, rfl⟩ | ⟨hover, hdoubled, rfl⟩⟩ := checkMerge_error hb hcheck
  · exact Or.inr ⟨_, rfl, (crossed_iff (hcrossed.segments?_text ha hb)).mp hcrossed⟩
  · have htext := segments?_text_of_valueAt? ha hdoubled.1
    exact Or.inl ⟨_, rfl, hover, (doubled_iff htext).mp hdoubled⟩

/-- **A merge at the root** is accepted exactly if no path is a key of one tree and a sub-tree of
    the other and, unless values may be replaced, none is a key of both. Then every key has
    the incoming value or else its old one, and the sub-trees are those of either side. A
    refusal names a path in conflict. -/
theorem merge_at_root {a b : Tree} (ha : a.Reachable) (hb : b.Reachable) (overwrite : Bool) :
    ((a.merge b "" overwrite).succeeds = true ↔
      (¬ ∃ path, (a.hasKey path = true ∧ b.hasSub path = true)
        ∨ (a.hasSub path = true ∧ b.hasKey path = true))
      ∧ (overwrite = true ∨ ¬ ∃ path, a.hasKey path = true ∧ b.hasKey path = true))
    ∧ ((a.merge b "" overwrite).succeeds = true →
      (∀ key, (a.merge b "" overwrite).state.get? key
        = if b.hasKey key then b.get? key else a.get? key)
      ∧ ∀ path, (a.merge b "" overwrite).state.hasSub path = (a.hasSub path || b.hasSub path))
    ∧ ∀ e, (a.merge b "" overwrite).result = .error e →
      (∃ key, e = .duplicateKey key ∧ overwrite = false
        ∧ a.hasKey key = true ∧ b.hasKey key = true)
      ∨ ∃ path, e = .pathConflict path ∧ ((a.hasKey path = true ∧ b.hasSub path = true)
        ∨ (a.hasSub path = true ∧ b.hasKey path = true)) := by
  refine ⟨?_, fun h => ?_, fun e he => merge_root_error ha.wellFormed hb.wellFormed he⟩
  · rw [merge_root_succeeds_iff hb.wellFormed, fits_iff_paths ha.wellFormed hb.wellFormed]
  · rw [merge_root_state h]
    refine ⟨fun key => ?_, hasSub_overlay hb.wellFormed a⟩
    rw [get?_overlay hb.wellFormed, hasKey]
    cases b.get? key with
    | none => rw [Option.none_or, Option.isSome_none, if_neg Bool.false_ne_true]
    | some value => rfl

/-- Two trees with a key in common below a sub-tree: replaced with leave, refused without. -/
theorem merge_at_root_below :
    let a := ((empty.set "s.x" "1" false).state.set "k" "0" false).state
    let b := ((empty.set "s.x" "2" false).state.set "s.t.y" "3" false).state
    a.Reachable ∧ b.Reachable
      ∧ (a.merge b "" true).succeeds = true
      ∧ (a.merge b "" true).state.get? "s.x" = some "2"
      ∧ (a.merge b "" true).state.get? "k" = some "0"
      ∧ (a.merge b "" true).state.hasSub "s.t" = true
      ∧ (a.merge b "" false).result = .error (.duplicateKey "s.x") := by
  intro a b
  have ha : a.Reachable := .set (.set .empty "s.x" "1" false) "k" "0" false
  have hb : b.Reachable := .set (.set .empty "s.x" "2" false) "s.t.y" "3" false
  have hsucceeds : (a.merge b "" true).succeeds = true := by decide +kernel
  obtain ⟨hvalues, hsubs⟩ := (merge_at_root ha hb true).2.1 hsucceeds
  refine ⟨ha, hb, hsucceeds, ?_, ?_, ?_, by rfl⟩
  · rw [hvalues]
    decide +kernel
  · rw [hvalues]
    decide +kernel
  · rw [hsubs]
    decide +kernel

end ParamStore.Tree
