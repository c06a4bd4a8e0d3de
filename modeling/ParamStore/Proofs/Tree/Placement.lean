import ParamStore.Proofs.Tree.Overlay

/-!
# Placing a tree under a path — the check ahead and the change that relies on it

A tree is placed under the last name of a path: a value there gives way if that is allowed, and a
    sub-tree there is laid over. The check goes down the way on its own and stops with
    approval where the way is not there yet; the change goes down again, opening it. Both come
    to the same level, an empty one if the way had to be opened, so whatever the check
    lets pass is carried out in full.

* **`Placeable`** — nothing at the level objects to the tree.
* **`checkPlacement_eq`** — the check asks the way, and then its end.
* **`checkPlacement_eq_ok_iff`** — the check passes if the way is free and the level has no objection.
* **`merge_cases`** — what a merge can do.
* **`merge_state_of_error`** — a refused merge leaves the tree as it was.
* **`merge_wellFormed`** — every merge leaves a well-formed tree.
-/

namespace ParamStore.Tree

/-- A tree may be put under a name of a level: a value there may be replaced, and a sub-tree
    there is one that the tree fits over. -/
structure Placeable (overwrite : Bool) (theirs : Tree) (name : String) (level : Tree) : Prop where
  replaces : name ∈ level.values.names → overwrite = true
  fits : ∀ own, level.subs.find? name = some own → Fits overwrite own theirs

section Placement

variable {overwrite : Bool} {full name : String} {theirs : Tree}

/-- **The check of a placement** asks whether the way is free, and then the level at its end, which is
    empty where the way is not there yet. -/
theorem checkPlacement_eq (parents : List String) (t : Tree) :
    checkPlacement overwrite full theirs name parents t
      = if blocked parents t then .error (.pathConflict full)
        else checkPlacement overwrite full theirs name [] ((t.nodeAt? parents).getD empty) := by
  induction parents generalizing t with
  | nil => rfl
  | cons parent rest ih =>
      rw [nodeAt?_getD_cons, blocked]
      conv_lhs => rw [checkPlacement]
      cases t.values.contains parent with
      | true => rfl
      | false =>
          cases t.subs.find? parent with
          | some next => exact ih next
          | none =>
              rw [Option.getD_none, blocked_empty, nodeAt?_empty_getD]
              rfl

/-- The level at the end of the way has no objection if the tree may be placed there. -/
theorem checkPlacement_nil_eq_ok_iff (h : theirs.WellFormed) (level : Tree) :
    checkPlacement overwrite full theirs name [] level = .ok ()
      ↔ Placeable overwrite theirs name level := by
  have hplaceable : Placeable overwrite theirs name level ↔
      (level.values.contains name && !overwrite) = false
        ∧ ∀ own, level.subs.find? name = some own →
          checkMerge overwrite full own theirs = .ok () := by
    constructor
    · rintro ⟨hreplaces, hfits⟩
      refine ⟨?_, fun own hown => (checkMerge_eq_ok_iff h).mpr (hfits own hown)⟩
      cases hvalue : level.values.contains name with
      | false => rfl
      | true => rw [hreplaces (KeyMap.contains_iff.mp hvalue)]; rfl
    · rintro ⟨hreplaces, hfits⟩
      refine ⟨fun hmem => ?_, fun own hown => (checkMerge_eq_ok_iff h).mp (hfits own hown)⟩
      rw [KeyMap.contains_iff.mpr hmem] at hreplaces
      simpa using hreplaces
  rw [hplaceable, checkPlacement]
  cases level.values.contains name && !overwrite with
  | true => simp
  | false => cases level.subs.find? name <;> simp

/-- **The check passes if the way is free and its end has no objection**; the end of a way that is
    not there yet is empty. -/
theorem checkPlacement_eq_ok_iff (h : theirs.WellFormed) (parents : List String) (t : Tree) :
    checkPlacement overwrite full theirs name parents t = .ok ()
      ↔ blocked parents t = false
        ∧ Placeable overwrite theirs name ((t.nodeAt? parents).getD empty) := by
  rw [checkPlacement_eq, ← @checkPlacement_nil_eq_ok_iff overwrite full name theirs h]
  cases blocked parents t with
  | true => simp
  | false => simp

theorem place_result (theirs : Tree) (name : String) (t : Tree) :
    (place theirs name t).result = .ok () := rfl

/-- A tree that may be placed leaves a well-formed level. -/
theorem place_wellFormed {t : Tree} (ht : t.WellFormed) (hname : Path.IsName name)
    (htheirs : theirs.WellFormed) (h : Placeable overwrite theirs name t) :
    (place theirs name t).state.WellFormed := by
  have hroom := ht.eraseValue name
  have hfree : name ∉ (t.withValues (t.values.erase name)).values.names :=
    fun hmem => (KeyMap.mem_names_erase.mp hmem).1 rfl
  have hlaid : (((t.subs.find? name).getD empty).overlay theirs).WellFormed := by
    refine overlay_wellFormed (ht.opened name) htheirs (?_ : Fits overwrite _ theirs)
    cases hown : t.subs.find? name with
    | none => exact fits_empty overwrite theirs
    | some own => exact h.fits own hown
  exact hroom.insertSub hname hfree hlaid

end Placement

/-- **A merge is one of three things**: a refusal at once, an overlay of what fits, or a placement
    that has nothing in its way. -/
theorem merge_cases {theirs : Tree} (h : theirs.WellFormed) (t : Tree) (under : String)
    (overwrite : Bool) :
    (∃ e, t.merge theirs under overwrite = .refuse e t)
      ∨ (Fits overwrite t theirs
        ∧ t.merge theirs under overwrite = .pure () (t.overlay theirs))
      ∨ ∃ parents name, Path.segments? under = some (parents ++ [name])
        ∧ blocked parents t = false
        ∧ Placeable overwrite theirs name ((t.nodeAt? parents).getD empty)
        ∧ t.merge theirs under overwrite = within under (place theirs name) parents t := by
  rw [merge]
  by_cases hblank : (Text.trim under).isEmpty = true
  · rw [if_pos hblank]
    cases hcheck : checkMerge overwrite "" t theirs with
    | error e => exact .inl ⟨e, rfl⟩
    | ok _ => exact .inr (.inl ⟨(checkMerge_eq_ok_iff h).mp hcheck, rfl⟩)
  · rw [if_neg hblank]
    cases hsplit : Path.splitLast under with
    | error e => exact .inl ⟨e, rfl⟩
    | ok found =>
        obtain ⟨parents, name⟩ := found
        have hsegments := Path.splitLast_eq_ok_iff.mp hsplit
        dsimp only
        cases hcheck : checkPlacement overwrite under theirs name parents t with
        | error e => exact .inl ⟨e, rfl⟩
        | ok _ =>
            obtain ⟨hfree, hplaceable⟩ := (checkPlacement_eq_ok_iff h parents t).mp hcheck
            exact .inr (.inr ⟨parents, name, hsegments, hfree, hplaceable, rfl⟩)

/-- **A refused merge leaves the tree as it was**: no value is dropped for a tree that is not
    placed, and no sub-tree stays open. -/
theorem merge_state_of_error {t theirs : Tree} (h : theirs.WellFormed) {under : String}
    {overwrite : Bool} {e : Error} (he : (t.merge theirs under overwrite).result = .error e) :
    (t.merge theirs under overwrite).state = t := by
  obtain ⟨_, heq⟩ | ⟨_, heq⟩ | ⟨parents, name, _, hfree, _, heq⟩ :=
    merge_cases h t under overwrite
  · rw [heq]
    rfl
  · rw [heq] at he
    exact nomatch he
  · -- the check has passed, so the change cannot refuse
    rw [heq, within_result, hfree, place_result] at he
    exact nomatch he

/-- **Every merge leaves a well-formed tree**, whether it is accepted or refused. -/
theorem merge_wellFormed {t theirs : Tree} (ht : t.WellFormed) (h : theirs.WellFormed)
    (under : String) (overwrite : Bool) : (t.merge theirs under overwrite).state.WellFormed := by
  obtain ⟨_, heq⟩ | ⟨hfits, heq⟩ | ⟨parents, name, hsegments, _, hplaceable, heq⟩ :=
    merge_cases h t under overwrite
  · rw [heq]
    exact ht
  · rw [heq]
    exact overlay_wellFormed ht h hfits
  · have hnames := Path.isName_of_segments? hsegments
    rw [heq]
    refine within_wellFormed (fun p hp => hnames p (List.mem_append_left _ hp)) ht ?_
    exact place_wellFormed (ht.endOf parents) (hnames name (by simp)) h hplaceable

end ParamStore.Tree
