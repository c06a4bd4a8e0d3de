import ParamStore.Proofs.Tree.Inverse
import ParamStore.Proofs.Tree.Storing

/-!
# Sub-trees taken out and put back — a sub-tree is what lies below its path

A sub-tree that is taken out of a tree answers every path as the tree answers the path that begins
    with the one to the sub-tree. Put at the end of the same path, it is a chain again, and the
    tree has all that this chain has. So merging it back changes nothing, and merging it into
    an empty tree leaves what the tree has below the path.

* **`get?_sub`**, **`findSub?_sub`** — queries of a sub-tree are queries of the tree.
* **`covers_chain`** — a tree covers the chain of each of its sub-trees.
* **`merge_back`** — merging a sub-tree back changes nothing.
* **`flatten_merge_into_empty`** — merging it into an empty tree leaves what is below its path.
* **`extraction_laws`** — the laws together.
-/

namespace ParamStore.Tree

section Below

variable {t s : Tree} {path : String} {parts : List String}

-- ── Queries ───────────────────────────────────────────────────────────────────────

/-- A sub-tree is found exactly where there is one. -/
theorem sub_succeeds_iff : (∃ s, t.sub path = .ok s) ↔ t.hasSub path = true := by
  rw [hasSub, Option.isSome_iff_exists]
  exact exists_congr fun s => sub_eq_ok_iff

theorem sub_of_missing (h : t.hasSub path = false) : t.sub path = .error (.missingSub path) := by
  rw [sub, Option.isNone_iff_eq_none.mp (Option.isSome_eq_false_iff.mp h)]

section Queries

variable (hpath : Path.segments? path = some parts) (hnode : t.nodeAt? parts = some s)

include hpath hnode

/-- **What a key finds in a sub-tree** is what the key finds in the tree after the path. -/
theorem get?_sub (key : String) : s.get? key = t.get? (path ++ "." ++ key) := by
  have hdot := Path.segments?_dot path key
  rcases segments?_cases key with hnone | ⟨parents, name, hkey⟩
  · rw [hpath, hnone] at hdot
    rw [get?_eq_none hnone, get?_eq_none hdot]
  · have hplace : Path.segments? (path ++ "." ++ key) = some ((parts ++ parents) ++ [name]) := by
      rw [hdot, hpath, hkey, List.append_assoc]
      rfl
    rw [get?_eq hkey, get?_eq hplace, valueAt?_below hnode]

/-- **The sub-trees of a sub-tree** are those of the tree after the path. -/
theorem findSub?_sub (rest : String) : s.findSub? rest = t.findSub? (path ++ "." ++ rest) := by
  have hdot := Path.segments?_dot path rest
  cases hrest : Path.segments? rest with
  | none =>
      rw [hpath, hrest] at hdot
      rw [findSub?_eq_none hrest, findSub?_eq_none hdot]
  | some place =>
      rw [hpath, hrest] at hdot
      rw [findSub?_eq hrest, findSub?_eq hdot, nodeAt?_below hnode]

end Queries

-- ── The chain of a sub-tree ───────────────────────────────────────────────────────

/-- **A tree covers the chain of each of its sub-trees.** -/
theorem covers_chain (hnode : t.nodeAt? parts = some s) : t.Covers (chain parts s) := by
  constructor
  · intro parents name value hvalue
    obtain ⟨rest, rfl, hrest⟩ := valueAt?_chain.mp hvalue
    rw [valueAt?_below hnode]
    exact hrest
  · intro place hplace
    rcases isSome_nodeAt?_chain.mp hplace with hway | ⟨rest, rfl, hrest⟩
    · refine isSome_nodeAt?_of_prefix hway ?_
      rw [hnode]
      rfl
    · rw [nodeAt?_below hnode]
      exact hrest

/-- **A key finds something in the chain of a sub-tree** exactly if the path is above it and it finds
    that in the tree. -/
theorem get?_chain (hpath : Path.segments? path = some parts) (hnode : t.nodeAt? parts = some s)
    (key value : String) : (chain parts s).get? key = some value ↔
      t.get? key = some value ∧ Path.Above path key := by
  rcases segments?_cases key with hnone | ⟨parents, name, hkey⟩
  · rw [get?_eq_none hnone, get?_eq_none hnone]
    exact iff_of_false (Option.some_ne_none value).symm fun h => Option.some_ne_none value h.1.symm
  · rw [get?_eq hkey, get?_eq hkey, valueAt?_chain, Path.above_iff hpath hkey]
    constructor
    · rintro ⟨rest, rfl, hvalue⟩
      rw [valueAt?_below hnode]
      exact ⟨hvalue, List.prefix_append parts rest⟩
    · rintro ⟨hvalue, rest, rfl⟩
      rw [valueAt?_below hnode] at hvalue
      exact ⟨rest, rfl, hvalue⟩

-- ── Putting a sub-tree under its path ─────────────────────────────────────────────

/-- What fits as a chain may be placed under the path, if no value is there. -/
theorem merge_under_of_fits {base : Tree} {overwrite : Bool} (hs : s.WellFormed)
    (hpath : Path.segments? path = some parts) (hfree : base.hasKey path = false)
    (hfits : Fits overwrite base (chain parts s)) :
    (base.merge s path overwrite).result = .ok ()
      ∧ (base.merge s path overwrite).state = base.overlay (chain parts s) := by
  have hchain := chain_wellFormed (Path.isName_of_segments? hpath) hs
  obtain ⟨parents, name, rfl⟩ := Path.exists_concat_of_segments? hpath
  rw [hasKey_eq hpath, Option.isSome_eq_false_iff, Option.isNone_iff_eq_none] at hfree
  obtain ⟨halike, hstate⟩ := merge_under_free hs hpath hfree overwrite
  have hroot := (merge_root_succeeds_iff hchain base overwrite).mpr hfits
  rw [hstate, merge_root_state hroot]
  exact ⟨halike.ok_iff.mpr (Attempt.succeeds_iff.mp hroot), rfl⟩

variable (ht : t.WellFormed) (hpath : Path.segments? path = some parts)
  (hnode : t.nodeAt? parts = some s)

include ht hpath hnode

/-- **Merging a sub-tree back under its path changes nothing**, with leave to replace its values. -/
theorem merge_back : (t.merge s path true).result = .ok () ∧ (t.merge s path true).state = t := by
  have hs := ht.nodeAt hnode
  have hcovers := covers_chain hnode
  have hsub : t.hasSub path = true := by
    rw [hasSub_eq hpath, hnode]
    rfl
  have hfree : t.hasKey path = false :=
    Bool.eq_false_iff.mpr fun hkey => ht.not_hasKey_and_hasSub path ⟨hkey, hsub⟩
  obtain ⟨hok, hstate⟩ := merge_under_of_fits hs hpath hfree (hcovers.fits ht)
  have hchain := chain_wellFormed (Path.isName_of_segments? hpath) hs
  exact ⟨hok, hstate.trans (hcovers.overlay ht hchain)⟩

/-- The chain of a sub-tree lists what the tree lists below the path. -/
theorem flatten_chain :
    (chain parts s).flatten = t.flatten.filter fun pair => Path.Above path pair.1 := by
  have hchain := chain_wellFormed (Path.isName_of_segments? hpath) (ht.nodeAt hnode)
  -- both ascend, so it is enough that they have the same pairs
  refine KeyMap.eq_of_mem_iff (fun _ _ => String.lt_asymm)
    (List.pairwise_map.mp hchain.flatten_ascending)
    ((List.pairwise_map.mp ht.flatten_ascending).filter _) ?_
  rintro ⟨key, value⟩
  rw [List.mem_filter, decide_eq_true_iff, hchain.mem_flatten_iff_get?, ht.mem_flatten_iff_get?,
    get?_chain hpath hnode, and_assoc]

/-- **Merging a sub-tree into an empty tree under its path** leaves what is below the path. -/
theorem flatten_merge_into_empty (overwrite : Bool) :
    (empty.merge s path overwrite).result = .ok ()
      ∧ (empty.merge s path overwrite).state.flatten
        = t.flatten.filter fun pair => Path.Above path pair.1 := by
  have hs := ht.nodeAt hnode
  have hchain := chain_wellFormed (Path.isName_of_segments? hpath) hs
  have hfree : empty.hasKey path = false := by
    rw [hasKey, get?_empty]
    rfl
  obtain ⟨hok, hstate⟩ := merge_under_of_fits hs hpath hfree (fits_empty overwrite _)
  rw [hstate, empty_overlay hchain]
  exact ⟨hok, flatten_chain ht hpath hnode⟩

end Below

/-- **The laws of taking out a sub-tree.** There is one to take out exactly where the tree has one;
    else the path is what is missing. What is taken out answers as the tree does below the path,
    merging it back under the path changes nothing, and merging it into an empty tree there
    makes a tree that lists what the tree lists below the path. -/
theorem extraction_laws {t : Tree} (h : t.Reachable) (path : String) :
    ((∃ s, t.sub path = .ok s) ↔ t.hasSub path = true)
    ∧ (t.hasSub path = false → t.sub path = .error (.missingSub path))
    ∧ ∀ s, t.sub path = .ok s →
      (∀ key, s.get? key = t.get? (path ++ "." ++ key))
      ∧ (∀ rest found, s.sub rest = .ok found ↔ t.sub (path ++ "." ++ rest) = .ok found)
      ∧ ((t.merge s path true).result = .ok () ∧ (t.merge s path true).state = t)
      ∧ ∀ overwrite, (empty.merge s path overwrite).result = .ok ()
        ∧ (empty.merge s path overwrite).state.flatten
          = t.flatten.filter fun pair => Path.Above path pair.1 := by
  refine ⟨sub_succeeds_iff, sub_of_missing, fun s hs => ?_⟩
  obtain ⟨parts, hpath, hnode⟩ := findSub?_eq_some_iff.mp (sub_eq_ok_iff.mp hs)
  refine ⟨get?_sub hpath hnode, fun rest found => ?_, merge_back h.wellFormed hpath hnode,
    flatten_merge_into_empty h.wellFormed hpath hnode⟩
  rw [sub_eq_ok_iff, sub_eq_ok_iff, findSub?_sub hpath hnode]

/-- A sub-tree with a sub-tree in it and an empty one beside it, taken out by a path with blanks, and a
    path that leads to none. -/
theorem extraction_laws_spaced :
    let a := ((empty.set "s.k" "1" false).state.set "s.t.x" "2" false).state
    let t := ((a.set "v" "3" false).state.merge empty "s.e" false).state
    let s := node [("k", "1")] [("e", empty), ("t", node [("x", "2")] [])]
    t.Reachable ∧ t.sub " s " = .ok s
      ∧ t.sub "v" = .error (.missingSub "v")
      ∧ s.get? "t . x" = some "2" ∧ t.get? " s .t . x" = some "2"
      ∧ t.sub " s .t" = .ok (node [("x", "2")] []) ∧ (¬ ∃ found, t.sub " s .k" = .ok found)
      ∧ (t.merge s " s " true).state = t
      ∧ (empty.merge s " s " false).state.flatten = [("s.k", "1"), ("s.t.x", "2")] := by
  intro a t s
  have ht : t.Reachable :=
    .merge (.set (.set (.set .empty "s.k" "1" false) "s.t.x" "2" false) "v" "3" false) .empty "s.e"
      false
  have hs : t.sub " s " = .ok s := by decide +kernel
  obtain ⟨-, hmissing, -⟩ := extraction_laws ht "v"
  obtain ⟨-, -, hlaws⟩ := extraction_laws ht " s "
  obtain ⟨hkeys, hsubs, ⟨-, hback⟩, hempty⟩ := hlaws s hs
  have hfound : s.get? "t . x" = some "2" := by decide +kernel
  have hflat : t.flatten = [("s.k", "1"), ("s.t.x", "2"), ("v", "3")] :=
    ht.wellFormed.flatten_eq_of_perm (by decide +kernel) (by decide +kernel)
  refine ⟨ht, hs, hmissing (by decide +kernel), hfound, (hkeys "t . x").symm.trans hfound,
    (hsubs "t" _).mp (by decide +kernel), ?_, hback, ?_⟩
  · rintro ⟨found, hk⟩
    have habsent : s.findSub? "k" = none := by decide +kernel
    rw [sub_eq_ok_iff.mp ((hsubs "k" found).mpr hk)] at habsent
    cases habsent
  · rw [(hempty false).2, hflat]
    decide +kernel

end ParamStore.Tree
