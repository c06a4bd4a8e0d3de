import ParamStore.Store.Ingest
import ParamStore.Proofs.Format.Datum
import ParamStore.Proofs.Store.Lookup
import ParamStore.Proofs.Tree.Placement

/-!
# Reachable trees — what any run of operations can make of the empty tree

A tree is reachable if some run of operations leads to it from the empty tree. Every operation that
    a tree can go through has a constructor, and where an operation may refuse, the tree that
    it leaves behind counts as well. Trees inside stores are changed by arguments, by
    parameter files and by look-ups that keep their defaults.

* **`Reachable`** — the runs.
* **`Reachable.wellFormed`** — they keep the invariant.
* **`reachable_levels_sound`** — what the invariant means for every node and for every path.
-/

namespace ParamStore

namespace Store

/-- Reading arguments keeps what storing a value keeps, wherever it stops. -/
theorem readOptions_keeps {P : Tree → Prop} (hP : Tree.KeptBySet P) {s : Store} (h : P s.tree)
    (files : FileReader) (args : List String) : P (s.readOptions files args).state.tree := by
  rw [readOptions]
  cases Argument.parse args with
  | error e => exact h
  | ok pairs =>
      have hset := Tree.setAll_keeps hP h true pairs
      dsimp only
      cases hresult : (s.onTree (Tree.setAll true pairs s.tree)).result with
      | error e =>
          rw [Attempt.andThen_of_error hresult]
          exact hset
      | ok _ =>
          rw [Attempt.andThen_of_ok hresult]
          split
          · exact hset
          · split
            · exact hset
            · exact Tree.fill_keeps hP hset _

end Store

namespace Tree

/-- The trees that runs of operations lead to, refused operations included. -/
inductive Reachable : Tree → Prop where
  | empty : Reachable .empty
  | set {t : Tree} (h : Reachable t) (key value : String) (overwrite : Bool) :
      Reachable (t.set key value overwrite).state
  | ofPairs {pairs : List (String × String)} {t : Tree} (h : ofPairs pairs = .ok t) : Reachable t
  | merge {t theirs : Tree} (h : Reachable t) (h' : Reachable theirs) (under : String)
      (overwrite : Bool) : Reachable (t.merge theirs under overwrite).state
  | fillMissing {t other : Tree} (h : Reachable t) (h' : Reachable other) :
      Reachable (t.fillMissing other).2
  | sub {t found : Tree} {path : String} (h : Reachable t) (hfound : t.sub path = .ok found) :
      Reachable found
  /-- The tree of a parameter file. -/
  | readTree {files : FileReader} {path : String} {t : Tree} (h : readTree files path = .ok t) :
      Reachable t
  /-- Arguments, and then the parameter file that they name. -/
  | readOptions {s : Store} (h : Reachable s.tree) (files : FileReader) (args : List String) :
      Reachable (s.readOptions files args).state.tree
  /-- A look-up that may keep its default. -/
  | getRequested {α : Type} [Codec α] {s : Store} (h : Reachable s.tree) (key : String)
      (default : α) (validator : Validator α) (shape : Shape) (site : Option CallSite) :
      Reachable (s.getRequested key default validator shape site).store.tree
  /-- A look-up of a list that may keep its default. -/
  | getList {α : Type} [Codec α] {s : Store} (h : Reachable s.tree) (key : String) (default : α)
      (separators : String) (validator : Validator α) :
      Reachable (s.getList key default separators validator).store.tree

/-- **Every reachable tree is well-formed.** -/
theorem Reachable.wellFormed {t : Tree} (h : t.Reachable) : t.WellFormed := by
  induction h with
  | empty => exact wellFormed_empty
  | set _ key value overwrite ih => exact set_wellFormed ih key value overwrite
  | ofPairs h => exact ofPairs_keeps keptBySet_wellFormed wellFormed_empty h
  | merge _ _ under overwrite ih ih' => exact merge_wellFormed ih ih' under overwrite
  | fillMissing _ _ ih _ => exact fill_keeps keptBySet_wellFormed ih _
  | sub _ hfound ih =>
      obtain ⟨_, hnode⟩ := exists_nodeAt?_of_sub hfound
      exact ih.nodeAt hnode
  | readTree h => exact readTree_keeps keptBySet_wellFormed wellFormed_empty h
  | readOptions _ files args ih => exact Store.readOptions_keeps keptBySet_wellFormed ih files args
  | getRequested _ key default validator shape site ih =>
      exact Store.getRequested_keeps keptBySet_wellFormed ih key default validator shape site
  | getList _ key default separators validator ih =>
      exact Store.getList_keeps keptBySet_wellFormed ih key default separators validator

/-- **In every reachable tree, every node is sound and no path is a value and a sub-tree.** -/
theorem reachable_levels_sound {t : Tree} (h : t.Reachable) :
    (∀ path node, t.nodeAt? path = some node → node.Level)
      ∧ ∀ path, ¬ (t.hasKey path = true ∧ t.hasSub path = true) :=
  ⟨fun _ _ hnode => (h.wellFormed.nodeAt hnode).level, h.wellFormed.not_hasKey_and_hasSub⟩

/-- A tree that went through a refused change and a placement, looked at two levels below its
    root. -/
theorem reachable_levels_sound_placed :
    let theirs := (empty.set " k " "1" false).state
    let t := ((theirs.merge theirs "s . t" false).state.set "s.t.k.x" "2" true).state
    t.Reachable ∧ t.nodeAt? ["s", "t"] = some (node [("k", "1")] [])
      ∧ (node [("k", "1")] []).Level ∧ ¬ (t.hasKey "s.t" = true ∧ t.hasSub "s.t" = true) := by
  intro theirs t
  have htheirs : theirs.Reachable := .set .empty " k " "1" false
  have ht : t.Reachable := .set (.merge htheirs htheirs "s . t" false) "s.t.k.x" "2" true
  have hnode : t.nodeAt? ["s", "t"] = some (node [("k", "1")] []) := by decide +kernel
  obtain ⟨hlevels, hpaths⟩ := reachable_levels_sound ht
  exact ⟨ht, hnode, hlevels _ _ hnode, hpaths "s.t"⟩

end Tree

end ParamStore
