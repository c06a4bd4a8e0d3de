import ParamStore.Proofs.Tree.Gather

/-!
# Pruned trees — which changes leave an empty sub-tree behind

Storing a value opens sub-trees on its way and ends with a value in the last of them, or is refused by
    something that is there; so it never leaves an empty one. Laying one pruned tree over another
    puts every sub-tree on the way to a value again. The one change that can leave an empty sub-tree
    in a pruned tree is to put an empty tree under a path where no sub-tree is yet, and where
    such a tree is accepted, it always does.

In a pruned tree, being empty and having no values are the same. In any tree, what is not empty and
    has no values has a sub-tree.

* **`keptBySet_pruned`** — storing a value keeps a tree pruned.
* **`Pruned.overlay`** — so does an overlay of a pruned tree.
* **`merge_pruned_iff`** — the merges that keep a tree pruned, and those that do not.
* **`WellFormed.isEmpty_iff`**, **`Pruned.isEmpty_iff`** — emptiness and the listing.
-/

namespace ParamStore.Tree

section Empty

variable {t : Tree}

theorem isEmpty_iff_eq_empty : t.isEmpty = true ↔ t = empty := by
  constructor
  · intro hempty
    obtain ⟨hvalues, hsubs⟩ := Bool.and_eq_true_iff.mp hempty
    rw [← node_values_subs t, List.isEmpty_iff.mp hvalues, List.isEmpty_iff.mp hsubs]
    rfl
  · rintro rfl
    rfl

/-- A level with a value is not empty. -/
theorem isEmpty_eq_false_of_value {name value : String} (h : t.values.find? name = some value) :
    t.isEmpty = false := by
  refine Bool.eq_false_iff.mpr fun hempty => ?_
  rw [isEmpty_iff_eq_empty.mp hempty] at h
  exact nomatch h

/-- A level with a sub-tree is not empty. -/
theorem isEmpty_eq_false_of_sub {name : String} {sub : Tree} (h : t.subs.find? name = some sub) :
    t.isEmpty = false := by
  refine Bool.eq_false_iff.mpr fun hempty => ?_
  rw [isEmpty_iff_eq_empty.mp hempty] at h
  exact nomatch h

/-- A tree with a value at any depth is not empty. -/
theorem isEmpty_eq_false_of_valueAt? {parents : List String} {name value : String}
    (h : t.valueAt? parents name = some value) : t.isEmpty = false := by
  cases parents with
  | nil => exact isEmpty_eq_false_of_value h
  | cons p rest =>
      rw [valueAt?_cons] at h
      obtain ⟨sub, hsub, -⟩ := Option.bind_eq_some_iff.mp h
      exact isEmpty_eq_false_of_sub hsub

/-- A sub-tree with a value below it is not empty. -/
theorem isEmpty_eq_false_of_below {path parents : List String} {sub : Tree} {name value : String}
    (hsub : t.nodeAt? path = some sub) (hvalue : t.valueAt? (path ++ parents) name = some value) :
    sub.isEmpty = false := by
  rw [valueAt?_below hsub] at hvalue
  exact isEmpty_eq_false_of_valueAt? hvalue

end Empty

theorem pruned_empty : empty.Pruned := pruned_of_find? fun _ _ h => nomatch h

-- ── Storing a value ───────────────────────────────────────────────────────────────

section Changes

variable {t : Tree}

/-- The sub-tree under a name, opened if it is missing, is pruned. -/
theorem Pruned.opened (h : t.Pruned) (name : String) : ((t.subs.find? name).getD empty).Pruned := by
  cases hsub : t.subs.find? name with
  | none => exact pruned_empty
  | some sub => exact h.child hsub

/-- The end of a way, opened if it is missing, is pruned. -/
theorem Pruned.endOf (h : t.Pruned) (path : List String) : ((t.nodeAt? path).getD empty).Pruned := by
  cases hend : t.nodeAt? path with
  | none => exact pruned_empty
  | some found => exact h.nodeAt hend

/-- A pruned sub-tree that is not empty may be put under any name. -/
theorem Pruned.insertSub (h : t.Pruned) {sub : Tree} (hsub : sub.isEmpty = false ∧ sub.Pruned)
    (vs : KeyMap String) (name : String) : (node vs (t.subs.insert name sub)).Pruned := by
  refine pruned_of_find? fun key found hfound => ?_
  rw [subs_node, KeyMap.find?_insert] at hfound
  split at hfound
  · obtain rfl := Option.some.inj hfound
    exact hsub
  · exact h.of_find? hfound

/-- **A change keeps a tree pruned** if it leaves something at the end of its way. -/
theorem within_pruned {α : Type} {full : String} {act : Tree → Attempt Tree α}
    {parents : List String} (h : t.Pruned)
    (hend : (act ((t.nodeAt? parents).getD empty)).state.isEmpty = false
      ∧ (act ((t.nodeAt? parents).getD empty)).state.Pruned) :
    (within full act parents t).state.isEmpty = false
      ∧ (within full act parents t).state.Pruned := by
  induction parents generalizing t with
  | nil => exact hend
  | cons name rest ih =>
      rw [nodeAt?_getD_cons] at hend
      rw [within]
      split
      · next hvalue =>
          -- the value that is in the way
          obtain ⟨value, hfind⟩ := Option.isSome_iff_exists.mp hvalue
          exact ⟨isEmpty_eq_false_of_value hfind, h⟩
      · have hsub := ih (h.opened name) hend
        exact ⟨isEmpty_eq_false_of_sub (KeyMap.find?_insert_self name _ t.subs),
          h.insertSub hsub t.values name⟩

/-- A level has something in it after a value was stored, or was refused for what is there. -/
theorem setLocal_pruned (h : t.Pruned) (full name value : String) (overwrite : Bool) :
    (setLocal full name value overwrite t).state.isEmpty = false
      ∧ (setLocal full name value overwrite t).state.Pruned := by
  rw [setLocal]
  split
  · next hsub =>
      obtain ⟨sub, hfind⟩ := Option.isSome_iff_exists.mp hsub
      exact ⟨isEmpty_eq_false_of_sub hfind, h⟩
  · split
    · next hvalue =>
        obtain ⟨old, hfind⟩ := Option.isSome_iff_exists.mp (Bool.and_eq_true_iff.mp hvalue).1
        exact ⟨isEmpty_eq_false_of_value hfind, h⟩
    · exact ⟨isEmpty_eq_false_of_value (KeyMap.find?_insert_self name value _),
        pruned_of_find? fun _ _ hsub => h.of_find? hsub⟩

/-- **Storing a value keeps a tree pruned**, also when it is refused. -/
theorem keptBySet_pruned : KeptBySet Pruned := by
  intro t key value overwrite h
  rw [set]
  cases hkey : Path.splitLast key with
  | error e => exact h
  | ok found => exact (within_pruned h (setLocal_pruned (h.endOf found.1) _ _ _ _)).2

end Changes

-- ── Merging ───────────────────────────────────────────────────────────────────────

section Merging

variable {a b : Tree}

/-- A value of either tree is found in the overlay, or another one in its place. -/
theorem exists_valueAt?_overlay (hb : b.WellFormed) {parents : List String} {name value : String}
    (h : a.valueAt? parents name = some value ∨ b.valueAt? parents name = some value) :
    ∃ laid, (a.overlay b).valueAt? parents name = some laid := by
  rw [valueAt?_overlay hb]
  rcases h with hold | hnew
  · rw [hold]
    cases b.valueAt? parents name with
    | none => exact ⟨value, rfl⟩
    | some incoming => exact ⟨incoming, rfl⟩
  · rw [hnew]
    exact ⟨value, rfl⟩

/-- **A pruned tree stays pruned when one is laid over it**: every sub-tree is on the way to a value of
    one of the two. -/
theorem Pruned.overlay (ha : a.WellFormed) (hb : b.WellFormed) (hpa : a.Pruned) (hpb : b.Pruned) :
    (a.overlay b).Pruned := by
  intro path sub hpath hsub
  have hnode : ((a.overlay b).nodeAt? path).isSome = true := by rw [hsub]; rfl
  rw [isSome_nodeAt?_overlay hb, Bool.or_eq_true] at hnode
  rcases hnode with hnode | hnode
  · obtain ⟨parents, name, value, hvalue⟩ := hpa.exists_valueAt?_below ha hpath hnode
    obtain ⟨laid, hlaid⟩ := exists_valueAt?_overlay hb (.inl hvalue)
    exact isEmpty_eq_false_of_below hsub hlaid
  · obtain ⟨parents, name, value, hvalue⟩ := hpb.exists_valueAt?_below hb hpath hnode
    obtain ⟨laid, hlaid⟩ := exists_valueAt?_overlay hb (.inr hvalue)
    exact isEmpty_eq_false_of_below hsub hlaid

/-- If one of two pruned trees is not empty, neither is their overlay. -/
theorem Pruned.isEmpty_overlay (ha : a.WellFormed) (hb : b.WellFormed) (hpa : a.Pruned)
    (hpb : b.Pruned) (h : a.isEmpty = false ∨ b.isEmpty = false) : (a.overlay b).isEmpty = false := by
  rcases h with hfull | hfull
  · obtain ⟨parents, name, value, hvalue⟩ := hpa.exists_valueAt? ha hfull
    obtain ⟨laid, hlaid⟩ := exists_valueAt?_overlay hb (.inl hvalue)
    exact isEmpty_eq_false_of_valueAt? hlaid
  · obtain ⟨parents, name, value, hvalue⟩ := hpb.exists_valueAt? hb hfull
    obtain ⟨laid, hlaid⟩ := exists_valueAt?_overlay hb (.inr hvalue)
    exact isEmpty_eq_false_of_valueAt? hlaid

end Merging

/-- A merge opens an empty sub-tree: an empty tree is accepted under a path where no sub-tree is. -/
structure OpensEmpty (t theirs : Tree) (under : String) (overwrite : Bool) : Prop where
  hollow : theirs.isEmpty = true
  placed : Path.segments? under ≠ none
  fresh : t.hasSub under = false
  accepted : (t.merge theirs under overwrite).succeeds = true

section Placing

variable {t theirs : Tree} {under name : String} {parents : List String} {overwrite : Bool}

/-- A placed tree that is not empty, or is laid over a sub-tree, leaves a pruned level. -/
theorem place_pruned {level : Tree} (hl : level.WellFormed) (htheirs : theirs.WellFormed)
    (hpl : level.Pruned) (hp : theirs.Pruned)
    (h : theirs.isEmpty = false ∨ ∃ own, level.subs.find? name = some own) :
    (place theirs name level).state.isEmpty = false
      ∧ (place theirs name level).state.Pruned := by
  have hlaid : (((level.subs.find? name).getD empty).overlay theirs).isEmpty = false
      ∧ (((level.subs.find? name).getD empty).overlay theirs).Pruned := by
    refine ⟨Pruned.isEmpty_overlay (hl.opened name) htheirs (hpl.opened name) hp ?_,
      (hpl.opened name).overlay (hl.opened name) htheirs hp⟩
    rcases h with hfull | ⟨own, hown⟩
    · exact .inr hfull
    · rw [hown]
      exact .inl (hpl.of_find? hown).1
  exact ⟨isEmpty_eq_false_of_sub (KeyMap.find?_insert_self name _ level.subs),
    hpl.insertSub hlaid (level.values.erase name) name⟩

/-- An empty tree that is accepted where no sub-tree is leaves an empty one there. -/
theorem OpensEmpty.not_pruned (htheirs : theirs.WellFormed)
    (h : t.OpensEmpty theirs under overwrite) : ¬ (t.merge theirs under overwrite).state.Pruned := by
  intro hpruned
  obtain ⟨hhollow, hplaced, hfresh, haccepted⟩ := h
  obtain rfl := isEmpty_iff_eq_empty.mp hhollow
  obtain ⟨parents, name, hunder⟩ := (segments?_cases under).resolve_left hplaced
  rw [Attempt.succeeds_iff, merge_under_result htheirs hunder] at haccepted
  obtain ⟨hway, -⟩ := (checkPlacement_eq_ok_iff htheirs parents t).mp haccepted
  rw [hasSub, findSub?_eq hunder, Option.isSome_eq_false_iff, Option.isNone_iff_eq_none] at hfresh
  rw [merge_under_eq hunder, haccepted] at hpruned
  dsimp only at hpruned
  have hnode := @nodeAt?_within _ under (place empty name) parents t hway [name]
  rw [place, find?_subs_endOf, hfresh] at hnode
  have hfull := hpruned (parents ++ [name]) empty (by simp) (by
    rw [hnode]
    show (KeyMap.find? name (KeyMap.insert name _ _)).bind _ = _
    rw [KeyMap.find?_insert_self]
    rfl)
  cases hfull

/-- **A merge of pruned trees leaves a pruned tree, unless it opens an empty sub-tree.** -/
theorem merge_pruned_iff (ht : t.WellFormed) (htheirs : theirs.WellFormed) (hpt : t.Pruned)
    (hp : theirs.Pruned) :
    (t.merge theirs under overwrite).state.Pruned ↔ ¬ t.OpensEmpty theirs under overwrite := by
  refine ⟨fun hpruned hopens => hopens.not_pruned htheirs hpruned, fun hopens => ?_⟩
  obtain ⟨e, heq⟩ | ⟨-, heq⟩ | ⟨parents, name, hunder, hway, -, heq⟩ :=
    merge_cases htheirs t under overwrite
  · rw [heq]
    exact hpt
  · rw [heq]
    exact hpt.overlay ht htheirs hp
  · have haccepted : (t.merge theirs under overwrite).succeeds = true := by
      rw [Attempt.succeeds_iff, heq, within_result, hway, place_result]
      rfl
    rw [heq]
    refine (within_pruned hpt (place_pruned (ht.endOf parents) htheirs (hpt.endOf parents) hp ?_)).2
    cases hhollow : theirs.isEmpty with
    | false => exact .inl rfl
    | true =>
        -- an empty tree is harmless only where a sub-tree is already
        rw [find?_subs_endOf, ← findSub?_eq hunder, ← Option.isSome_iff_exists]
        refine .inr (Bool.of_not_eq_false fun hfresh => hopens ?_)
        exact ⟨hhollow, by rw [hunder]; exact Option.some_ne_none _, hfresh, haccepted⟩

end Placing

-- ── Emptiness and the listing ─────────────────────────────────────────────────────

section Listing

variable {t : Tree}

/-- Nothing is listed exactly if there is no value. -/
theorem WellFormed.flatten_eq_nil_iff (h : t.WellFormed) :
    t.flatten = [] ↔ ∀ parents name, t.valueAt? parents name = none := by
  rw [List.eq_nil_iff_forall_not_mem]
  constructor
  · intro hnone parents name
    refine Option.eq_none_iff_forall_ne_some.mpr fun value hvalue => ?_
    exact hnone _ (h.mem_flatten.mpr ⟨parents, name, rfl, hvalue⟩)
  · rintro hnone ⟨key, value⟩ hmem
    obtain ⟨parents, name, -, hvalue⟩ := h.mem_flatten.mp hmem
    rw [hnone] at hvalue
    exact nomatch hvalue

/-- **A tree is empty exactly if it lists nothing and has no sub-trees.** -/
theorem WellFormed.isEmpty_iff (h : t.WellFormed) :
    t.isEmpty = true ↔ t.flatten = [] ∧ ∀ path, t.hasSub path = false := by
  rw [h.flatten_eq_nil_iff]
  constructor
  · intro hempty
    obtain rfl := isEmpty_iff_eq_empty.mp hempty
    refine ⟨valueAt?_empty, fun path => ?_⟩
    rcases segments?_cases path with hnone | ⟨parents, name, hsome⟩
    · rw [hasSub, findSub?_eq_none hnone]
      rfl
    · rw [hasSub, findSub?_eq hsome]
      cases parents <;> rfl
  · rintro ⟨hvalues, hsubs⟩
    refine Bool.of_not_eq_false fun hfull => ?_
    rcases Bool.and_eq_false_iff.mp hfull with hvs | hss
    · obtain ⟨name, value, hfind⟩ := KeyMap.exists_find?_of_ne_nil (List.isEmpty_eq_false_iff.mp hvs)
      have hnone := hvalues [] name
      rw [valueAt?_nil, hfind] at hnone
      cases hnone
    · obtain ⟨name, sub, hfind⟩ := KeyMap.exists_find?_of_ne_nil (List.isEmpty_eq_false_iff.mp hss)
      have hname : Path.IsName name := h.level.subs_named _ (KeyMap.mem_names_of_find? hfind)
      have hpath : Path.segments? (Path.text ([] ++ [name])) = some [name] :=
        segments?_text_concat fun p hp => List.mem_singleton.mp hp ▸ hname
      have hnone := hsubs (Path.text ([] ++ [name]))
      rw [hasSub, findSub?_eq hpath, nodeAt?_cons, hfind] at hnone
      cases hnone

/-- **A pruned tree is empty exactly if it lists nothing.** -/
theorem Pruned.isEmpty_iff (h : t.Pruned) (ht : t.WellFormed) :
    t.isEmpty = true ↔ t.flatten = [] := by
  refine ⟨fun hempty => (ht.isEmpty_iff.mp hempty).1, fun hnone => ?_⟩
  refine Bool.of_not_eq_false fun hfull => ?_
  obtain ⟨parents, name, value, hvalue⟩ := h.exists_valueAt? ht hfull
  rw [ht.flatten_eq_nil_iff.mp hnone] at hvalue
  exact nomatch hvalue

end Listing

end ParamStore.Tree
