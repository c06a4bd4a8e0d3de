import ParamStore.Tree.Basic
import ParamStore.Proofs.KeyMap.View
import ParamStore.Proofs.Path.Names

/-!
# Well-formed trees — names at every level, and the views that determine a tree

A level is sound if its names are names of paths, no name is a value and a sub-tree at once, and
    both maps ascend. A tree is well-formed if every level in it is sound. Then a tree is known
    from its views: which value is at which place, and at which places there is a sub-tree.
    A place is a list of names; what a path text names is the place of its segments, and
    every place that is taken has a text.

* **`Level`**, **`WellFormed`** — the invariant, for one level and for all of them.
* **`nodeAt?_below`**, **`valueAt?_below`** — what is below a sub-tree is what the sub-tree has.
* **`WellFormed.eq_of_views`** — well-formed trees with the same views are equal.
* **`get?_eq`**, **`findSub?_eq`** — queries by text are queries by place.
* **`WellFormed.not_hasKey_and_hasSub`** — no path is a value and a sub-tree.
-/

namespace ParamStore.Tree

/-- A level whose names are names of paths, none of them twice, in order. -/
structure Level (t : Tree) : Prop where
  values_named : ∀ name ∈ t.values.names, Path.IsName name
  subs_named : ∀ name ∈ t.subs.names, Path.IsName name
  disjoint : ∀ name ∈ t.values.names, name ∉ t.subs.names
  values_ascending : t.values.Ascending
  subs_ascending : t.subs.Ascending

/-- Every level is sound. -/
inductive WellFormed : Tree → Prop where
  | intro {t : Tree} (level : t.Level)
      (below : ∀ name sub, t.subs.find? name = some sub → WellFormed sub) : WellFormed t

namespace WellFormed

theorem level {t : Tree} (h : t.WellFormed) : t.Level := by
  cases h with
  | intro level _ => exact level

theorem child {t : Tree} (h : t.WellFormed) {name : String} {sub : Tree}
    (hsub : t.subs.find? name = some sub) : sub.WellFormed := by
  cases h with
  | intro _ below => exact below name sub hsub

end WellFormed

@[simp] theorem values_node (vs : KeyMap String) (ss : KeyMap Tree) : (node vs ss).values = vs := rfl
@[simp] theorem subs_node (vs : KeyMap String) (ss : KeyMap Tree) : (node vs ss).subs = ss := rfl
@[simp] theorem values_empty : empty.values = [] := rfl
@[simp] theorem subs_empty : empty.subs = [] := rfl

theorem node_values_subs (t : Tree) : node t.values t.subs = t := by
  cases t; rfl

theorem wellFormed_empty : empty.WellFormed := by
  refine .intro ⟨?_, ?_, ?_, List.Pairwise.nil, List.Pairwise.nil⟩ ?_
  · exact fun name h => absurd h List.not_mem_nil
  · exact fun name h => absurd h List.not_mem_nil
  · exact fun name h => absurd h List.not_mem_nil
  · exact fun name sub h => nomatch h

-- ── Places ────────────────────────────────────────────────────────────────────────

@[simp] theorem nodeAt?_nil (t : Tree) : t.nodeAt? [] = some t := rfl

/-- The first name of a way leads to a sub-tree, in which the rest is followed. -/
theorem nodeAt?_cons (name : String) (rest : List String) (t : Tree) :
    t.nodeAt? (name :: rest) = (t.subs.find? name).bind (nodeAt? rest) := rfl

/-- A way is followed piece by piece. -/
theorem nodeAt?_append (front rest : List String) (t : Tree) :
    t.nodeAt? (front ++ rest) = (t.nodeAt? front).bind (nodeAt? rest) := by
  induction front generalizing t with
  | nil => rfl
  | cons name front ih =>
      rw [List.cons_append, nodeAt?_cons, nodeAt?_cons]
      cases hsub : t.subs.find? name with
      | none => rfl
      | some sub => exact ih sub

/-- A way that leads on from a sub-tree is followed there. -/
theorem nodeAt?_below {t sub : Tree} {parts : List String} (h : t.nodeAt? parts = some sub)
    (rest : List String) : t.nodeAt? (parts ++ rest) = sub.nodeAt? rest := by
  rw [nodeAt?_append, h, Option.bind_some]

@[simp] theorem valueAt?_nil (name : String) (t : Tree) :
    t.valueAt? [] name = t.values.find? name := rfl

/-- A value below a sub-tree is looked up there. -/
theorem valueAt?_cons (p : String) (rest : List String) (name : String) (t : Tree) :
    t.valueAt? (p :: rest) name = (t.subs.find? p).bind (valueAt? rest name) := by
  rw [valueAt?, nodeAt?_cons]
  cases t.subs.find? p <;> rfl

/-- The values below a sub-tree are its own. -/
theorem valueAt?_below {t sub : Tree} {parts : List String} (h : t.nodeAt? parts = some sub)
    (rest : List String) (name : String) :
    t.valueAt? (parts ++ rest) name = sub.valueAt? rest name := by
  rw [valueAt?, nodeAt?_below h, valueAt?]

theorem nodeAt?_empty_cons (name : String) (rest : List String) :
    empty.nodeAt? (name :: rest) = none := rfl

/-- Every way that is opened in the empty tree ends in an empty one. -/
theorem nodeAt?_empty_getD (path : List String) : (empty.nodeAt? path).getD empty = empty := by
  cases path <;> rfl

theorem valueAt?_empty (parents : List String) (name : String) :
    empty.valueAt? parents name = none := by
  cases parents <;> rfl

namespace WellFormed

/-- The sub-trees at any depth are well-formed. -/
theorem nodeAt {t found : Tree} (h : t.WellFormed) {path : List String}
    (hfound : t.nodeAt? path = some found) : found.WellFormed := by
  induction path generalizing t with
  | nil =>
      obtain rfl := Option.some.inj hfound
      exact h
  | cons name rest ih =>
      rw [nodeAt?_cons] at hfound
      obtain ⟨sub, hsub, hrest⟩ := Option.bind_eq_some_iff.mp hfound
      exact ih (h.child hsub) hrest

/-- The end of a way, opened if it is missing, is well-formed. -/
theorem endOf {t : Tree} (h : t.WellFormed) (path : List String) :
    ((t.nodeAt? path).getD empty).WellFormed := by
  cases hend : t.nodeAt? path with
  | none => exact wellFormed_empty
  | some found => exact h.nodeAt hend

/-- A way through a well-formed tree consists of names. -/
theorem isName_of_nodeAt? {t found : Tree} (h : t.WellFormed) {path : List String}
    (hfound : t.nodeAt? path = some found) : ∀ p ∈ path, Path.IsName p := by
  induction path generalizing t with
  | nil => exact fun p hp => absurd hp List.not_mem_nil
  | cons name rest ih =>
      rw [nodeAt?_cons] at hfound
      obtain ⟨sub, hsub, hrest⟩ := Option.bind_eq_some_iff.mp hfound
      intro p hp
      rcases List.mem_cons.mp hp with rfl | hp
      · exact h.level.subs_named p (KeyMap.mem_names_of_find? hsub)
      · exact ih (h.child hsub) hrest p hp

/-- The place of a value in a well-formed tree consists of names. -/
theorem isName_of_valueAt? {t : Tree} (h : t.WellFormed) {parents : List String}
    {name value : String} (hvalue : t.valueAt? parents name = some value) :
    ∀ p ∈ parents ++ [name], Path.IsName p := by
  obtain ⟨found, hfound, hname⟩ := Option.bind_eq_some_iff.mp hvalue
  intro p hp
  rcases List.mem_append.mp hp with hp | hp
  · exact h.isName_of_nodeAt? hfound p hp
  · obtain rfl := List.mem_singleton.mp hp
    exact (h.nodeAt hfound).level.values_named p (KeyMap.mem_names_of_find? hname)

/-- No place is a value and a sub-tree at once. -/
theorem nodeAt?_eq_none_of_valueAt? {t : Tree} (h : t.WellFormed) {parents : List String}
    {name value : String} (hvalue : t.valueAt? parents name = some value) :
    t.nodeAt? (parents ++ [name]) = none := by
  obtain ⟨found, hfound, hname⟩ := Option.bind_eq_some_iff.mp hvalue
  have hdisjoint := (h.nodeAt hfound).level.disjoint name (KeyMap.mem_names_of_find? hname)
  rw [nodeAt?_below hfound, nodeAt?_cons, KeyMap.find?_eq_none_iff.mpr hdisjoint]
  rfl

/-- **Well-formed trees with the same views are equal.** -/
theorem eq_of_views {a b : Tree} (ha : a.WellFormed) (hb : b.WellFormed)
    (hvalues : ∀ parents name, a.valueAt? parents name = b.valueAt? parents name)
    (hnodes : ∀ path, (a.nodeAt? path).isSome = (b.nodeAt? path).isSome) : a = b := by
  induction ha generalizing b with
  | @intro a la _ ih =>
      have hv : a.values = b.values :=
        KeyMap.eq_of_find?_eq la.values_ascending hb.level.values_ascending (hvalues [])
      have hs : a.subs = b.subs := by
        refine KeyMap.eq_of_find?_eq la.subs_ascending hb.level.subs_ascending fun name => ?_
        -- both sides have a sub-tree of this name or none; two have the same views again
        have hsome : (a.subs.find? name).isSome = (b.subs.find? name).isSome := by
          have hn := hnodes [name]
          rw [nodeAt?_cons, nodeAt?_cons] at hn
          cases ha : a.subs.find? name <;> cases hb : b.subs.find? name <;> simp_all
        cases hsa : a.subs.find? name with
        | none =>
            rw [hsa] at hsome
            exact (Option.isNone_iff_eq_none.mp (Option.isSome_eq_false_iff.mp hsome.symm)).symm
        | some sub =>
            rw [hsa] at hsome
            obtain ⟨sub', hsb⟩ := Option.isSome_iff_exists.mp hsome.symm
            rw [hsb, ih name sub hsa (hb.child hsb)]
            · intro parents key
              simpa [valueAt?_cons, hsa, hsb] using hvalues (name :: parents) key
            · intro path
              simpa [nodeAt?_cons, hsa, hsb] using hnodes (name :: path)
      rw [← node_values_subs a, ← node_values_subs b, hv, hs]

end WellFormed

-- ── Texts and places ──────────────────────────────────────────────────────────────

/-- A key is looked up at the place of its segments. -/
theorem get?_eq {key name : String} {parents : List String}
    (h : Path.segments? key = some (parents ++ [name])) (t : Tree) :
    t.get? key = t.valueAt? parents name := by
  rw [get?, Path.splitLast_eq_ok_iff.mpr h]

theorem get?_eq_none {key : String} (h : Path.segments? key = none) (t : Tree) :
    t.get? key = none := by
  rw [get?, Path.splitLast_eq_error_iff.mpr ⟨h, rfl⟩]

theorem get?_empty (key : String) : empty.get? key = none := by
  unfold get?
  split
  · exact valueAt?_empty _ _
  · rfl

/-- A sub-tree is looked up at the place of the segments. -/
theorem findSub?_eq {path : String} {parts : List String} (h : Path.segments? path = some parts)
    (t : Tree) : t.findSub? path = t.nodeAt? parts := by
  rw [findSub?, h]

theorem findSub?_eq_none {path : String} (h : Path.segments? path = none) (t : Tree) :
    t.findSub? path = none := by
  rw [findSub?, h]

theorem findSub?_eq_some_iff {t found : Tree} {path : String} : t.findSub? path = some found ↔
    ∃ parts, Path.segments? path = some parts ∧ t.nodeAt? parts = some found := by
  cases h : Path.segments? path with
  | none => simp [findSub?_eq_none h]
  | some parts => simp [findSub?_eq h]

theorem sub_eq_ok_iff {t found : Tree} {path : String} :
    t.sub path = .ok found ↔ t.findSub? path = some found := by
  rw [sub]
  cases t.findSub? path with
  | none => simp
  | some node => simp

/-- A sub-tree that is found by its path is a node of the tree. -/
theorem exists_nodeAt?_of_sub {t found : Tree} {path : String} (h : t.sub path = .ok found) :
    ∃ parts, t.nodeAt? parts = some found := by
  obtain ⟨parts, -, hnode⟩ := findSub?_eq_some_iff.mp (sub_eq_ok_iff.mp h)
  exact ⟨parts, hnode⟩

/-- A text names no place, or the place of a name after some parents. -/
theorem segments?_cases (path : String) :
    Path.segments? path = none ∨
      ∃ parents name, Path.segments? path = some (parents ++ [name]) := by
  cases h : Path.segments? path with
  | none => exact Or.inl rfl
  | some parts =>
      obtain ⟨parents, name, rfl⟩ := Path.exists_concat_of_segments? h
      exact Or.inr ⟨parents, name, rfl⟩

/-- Every place of names has a text. -/
theorem segments?_text_concat {parents : List String} {name : String}
    (h : ∀ p ∈ parents ++ [name], Path.IsName p) :
    Path.segments? (Path.text (parents ++ [name])) = some (parents ++ [name]) :=
  Path.segments?_text (by simp) h

/-- **No path of a well-formed tree is a value and a sub-tree.** -/
theorem WellFormed.not_hasKey_and_hasSub {t : Tree} (h : t.WellFormed) (path : String) :
    ¬ (t.hasKey path = true ∧ t.hasSub path = true) := by
  rintro ⟨hkey, hsub⟩
  rcases segments?_cases path with hnone | ⟨parents, name, hpath⟩
  · rw [hasKey, get?_eq_none hnone] at hkey
    exact nomatch hkey
  · rw [hasKey, get?_eq hpath] at hkey
    rw [hasSub, findSub?_eq hpath] at hsub
    obtain ⟨value, hvalue⟩ := Option.isSome_iff_exists.mp hkey
    rw [h.nodeAt?_eq_none_of_valueAt? hvalue] at hsub
    exact nomatch hsub

end ParamStore.Tree
