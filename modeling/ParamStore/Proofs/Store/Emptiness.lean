import ParamStore.Proofs.Store.Reachable
import ParamStore.Proofs.Tree.Pruned

/-!
# Emptiness — when a store that lists nothing is empty

A store is empty if its tree has neither values nor sub-trees. Whoever asks means that there are no
    values, and an empty sub-tree sets the two apart. Of all operations only one makes such a
    sub-tree where there was none: a merge of an empty tree, or of an empty store, under a path
    where no sub-tree is yet. Runs without such a merge lead to filled stores, in which every
    sub-tree holds a value somewhere.

* **`Filled`** — the runs that never put an empty tree where no sub-tree is.
* **`Filled.pruned`** — they leave no empty sub-tree.
* **`isEmpty_iff_nothing_listed`** — what being empty means for every reachable store, and for a
  filled one.
* **`empty_sub_tree_counts`** — a reachable store that is not empty and lists nothing.
-/

namespace ParamStore.Store

/-- The stores that runs of operations lead to when no empty tree is put where no sub-tree is. -/
inductive Filled : Store → Prop where
  | ofTree {t : Tree} (h : t.Reachable) (hp : t.Pruned) (o : Options) : Filled (ofTree t o)
  | ofValue {α : Type} [Codec α] {key : String} {value : α} {s : Store}
      (h : ofValue key value = .ok s) : Filled s
  | ofValues {α : Type} [Codec α] {keys : List String} {values : List α} {s : Store}
      (h : ofValues keys values = .ok s) : Filled s
  | ofFile {files : FileReader} {path : String} {o : Options} {s : Store}
      (h : ofFile files path o = .ok s) : Filled s
  | ofArgs {files : FileReader} {d : Directory} {args : List String} {o : Options} {s : Store}
      (h : (ofArgs files d args o).result = .ok s) : Filled s
  | ofArgsOrFile {files : FileReader} {d : Directory} {args : List String} {fallback : String}
      {o : Options} {s : Store} (h : (ofArgsOrFile files d args fallback o).result = .ok s) : Filled s
  | withOptions {s : Store} (h : Filled s) (o : Options) : Filled { s with options := o }
  | set {α : Type} [Codec α] {s : Store} (h : Filled s) (key : String) (value : α)
      (overwrite : Bool) : Filled (s.set key value overwrite).state
  | add {s other : Store} (h : Filled s) (h' : Filled other) (under : String) (overwrite : Bool)
      (hopens : ¬ s.tree.OpensEmpty other.tree under overwrite) :
      Filled (s.add other under overwrite).state
  | addTree {s : Store} {t : Tree} (h : Filled s) (h' : t.Reachable) (hp : t.Pruned)
      (under : String) (overwrite : Bool) (hopens : ¬ s.tree.OpensEmpty t under overwrite) :
      Filled (s.addTree t under overwrite).state
  | sub {s found : Store} {path : String} (h : Filled s) (hfound : s.sub path = .ok found) :
      Filled found
  | merged {s other both : Store} (h : Filled s) (h' : Filled other)
      (hboth : s.merged other = .ok both) : Filled both
  | readOptions {s : Store} (h : Filled s) (files : FileReader) (args : List String) :
      Filled (s.readOptions files args).state
  | getRequested {α : Type} [Codec α] {s : Store} (h : Filled s) (key : String) (default : α)
      (validator : Validator α) (shape : Shape) (site : Option CallSite) :
      Filled (s.getRequested key default validator shape site).store
  | getList {α : Type} [Codec α] {s : Store} (h : Filled s) (key : String) (default : α)
      (separators : String) (validator : Validator α) :
      Filled (s.getList key default separators validator).store

/-- A filled store is a reachable one. -/
theorem Filled.reachable {s : Store} (h : s.Filled) : s.Reachable := by
  induction h with
  | ofTree h _ o => exact .ofTree h o
  | ofValue h => exact .ofValue h
  | ofValues h => exact .ofValues h
  | ofFile h => exact .ofFile h
  | ofArgs h => exact .ofArgs h
  | ofArgsOrFile h => exact .ofArgsOrFile h
  | withOptions _ o ih => exact .withOptions ih o
  | set _ key value overwrite ih => exact .set ih key value overwrite
  | add _ _ under overwrite _ ih ih' => exact .add ih ih' under overwrite
  | addTree _ h' _ under overwrite _ ih => exact .addTree ih h' under overwrite
  | sub _ hfound ih => exact .sub ih hfound
  | merged _ _ hboth ih ih' => exact .merged ih ih' hboth
  | readOptions _ files args ih => exact .readOptions ih files args
  | getRequested _ key default validator shape site ih =>
      exact .getRequested ih key default validator shape site
  | getList _ key default separators validator ih =>
      exact .getList ih key default separators validator

/-- A merge at the root puts nothing under a path. -/
theorem not_opensEmpty_root {t theirs : Tree} {overwrite : Bool} :
    ¬ t.OpensEmpty theirs "" overwrite :=
  fun h => h.placed (by decide)

/-- **A filled store has no empty sub-tree**: each operation keeps it so, also when it is refused. -/
theorem Filled.pruned {s : Store} (h : s.Filled) : s.tree.Pruned := by
  have hkept := Tree.keptBySet_pruned
  have hempty := Tree.pruned_empty
  induction h with
  | ofTree _ hp _ => exact hp
  | ofValue h => exact ofValue_keeps hkept hempty h
  | ofValues h => exact ofValues_keeps hkept hempty h
  | ofFile h => exact ofFile_keeps hkept hempty h
  | ofArgs h => exact ofArgs_keeps hkept hempty h
  | ofArgsOrFile h => exact ofArgsOrFile_keeps hkept hempty h
  | withOptions _ _ ih => exact ih
  | set _ key value overwrite ih =>
      rw [set_state_tree]
      exact hkept _ _ _ _ ih
  | add h h' under overwrite hopens ih ih' =>
      have ht := h.reachable.tree.wellFormed
      have ht' := h'.reachable.tree.wellFormed
      rw [add_state_tree]
      exact (Tree.merge_pruned_iff ht ht' ih ih').mpr hopens
  | addTree h h' hp under overwrite hopens ih =>
      have ht := h.reachable.tree.wellFormed
      rw [addTree_state_tree]
      exact (Tree.merge_pruned_iff ht h'.wellFormed ih hp).mpr hopens
  | sub _ hfound ih =>
      obtain ⟨t, ht, rfl⟩ := exists_of_map_eq_ok hfound
      obtain ⟨_, hnode⟩ := Tree.exists_nodeAt?_of_sub ht
      exact ih.nodeAt hnode
  | merged h h' hboth ih ih' =>
      have ht := h.reachable.tree.wellFormed
      have ht' := h'.reachable.tree.wellFormed
      obtain ⟨_, _, rfl⟩ := exists_of_map_eq_ok hboth
      rw [add_state_tree]
      exact (Tree.merge_pruned_iff ht ht' ih ih').mpr not_opensEmpty_root
  | readOptions _ files args ih => exact readOptions_keeps hkept ih files args
  | getRequested _ key default validator shape site ih =>
      exact getRequested_keeps hkept ih key default validator shape site
  | getList _ key default separators validator ih =>
      exact getList_keeps hkept ih key default separators validator

/-- **What being empty says of the listing.** A reachable store is empty exactly if it lists nothing
    and has no sub-tree. For a filled one, listing nothing is enough. -/
theorem isEmpty_iff_nothing_listed {s : Store} (h : s.Reachable) :
    (s.isEmpty = true ↔ s.tree.flatten = [] ∧ ∀ path, s.tree.hasSub path = false)
      ∧ (s.Filled → (s.isEmpty = true ↔ s.tree.flatten = [])) := by
  have ht := h.tree.wellFormed
  constructor
  · exact ht.isEmpty_iff
  · intro hfilled
    exact hfilled.pruned.isEmpty_iff ht

/-- A look-up that keeps no default leaves an empty store, and merging that one where a sub-tree is
    opens nothing. -/
theorem isEmpty_iff_nothing_listed_merged :
    let s := (empty.set "a.b" "1" false).state
    let asked := (empty.getOr "x" "2").store
    let both := (s.add asked "a" true).state
    asked.Filled ∧ both.Filled
      ∧ asked.isEmpty = true ∧ asked.tree.flatten = []
      ∧ both.isEmpty = false ∧ both.tree.flatten ≠ [] := by
  intro s asked both
  have hasked : asked.Filled :=
    .getRequested (.ofTree .empty Tree.pruned_empty .quiet) "x" "2" .any .any none
  have hs : s.Filled := .set (.ofTree .empty Tree.pruned_empty .quiet) "a.b" "1" false
  have hboth : both.Filled :=
    .add hs hasked "a" true fun hopens => absurd hopens.fresh (by decide +kernel)
  have hempty : asked.isEmpty = true := by rfl
  have hfull : both.isEmpty = false := by rfl
  obtain ⟨-, hlisted⟩ := isEmpty_iff_nothing_listed hasked.reachable
  obtain ⟨-, hlisted'⟩ := isEmpty_iff_nothing_listed hboth.reachable
  refine ⟨hasked, hboth, hempty, (hlisted hasked).mp hempty, hfull, fun hnone => ?_⟩
  exact Bool.eq_false_iff.mp hfull ((hlisted' hboth).mpr hnone)

/-- **A store can list nothing and not be empty**: an empty tree was merged under a path, in a store
    without values, or in the place of the only value. -/
theorem empty_sub_tree_counts :
    let s := (empty.addTree .empty "s" false).state
    let s' := ((empty.set "a" "1" false).state.addTree .empty "a" true).state
    s.Reachable ∧ s.tree.flatten = [] ∧ s.isEmpty = false
      ∧ s'.Reachable ∧ s'.tree.flatten = [] ∧ s'.isEmpty = false := by
  intro s s'
  have hs : s.Reachable := .addTree (.ofTree .empty .quiet) .empty "s" false
  have hs' : s'.Reachable :=
    .addTree (.set (.ofTree .empty .quiet) "a" "1" false) .empty "a" true
  have hnone : s.tree.flatten = [] := List.mergeSort_nil
  have hnone' : s'.tree.flatten = [] := List.mergeSort_nil
  exact ⟨hs, hnone, by rfl, hs', hnone', by rfl⟩

end ParamStore.Store
