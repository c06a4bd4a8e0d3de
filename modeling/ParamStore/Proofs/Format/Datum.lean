import ParamStore.Format.Basic
import ParamStore.Proofs.Tree.Change

/-!
# Trees of parameter files — what comes out of a table

A table becomes a tree by storing its data one after the other: a run over its leaves, each with the
    names that lead to it for its key. So its tree has every property that storing a value keeps,
    whatever names the file uses. A file adds nothing to that: its tree is the tree of its table,
    whatever reader has found it.

* **`Datum.leaves`** — the data of a table with the names that lead to them.
* **`Datum.store_eq_setAll`**, **`Datum.toTree_eq`** — storing a datum is a run over its leaves.
* **`readTree_keeps`** — the tree of a file has what is kept from the empty tree on.
-/

namespace ParamStore

namespace Datum

-- ── The data that are stored ──────────────────────────────────────────────────────

mutual

/-- The data in a datum that are neither tables nor lacking, each with the names that lead to it
    and the text that is stored for it. -/
def leaves : Datum → List (List String × String)
  | table members => leavesOf members
  | nothing => []
  | other => [([], stored other)]

/-- The leaves of a table's members. -/
def leavesOf : List (String × Datum) → List (List String × String)
  | [] => []
  | (name, item) :: members =>
    (leaves item).map (fun leaf => (name :: leaf.1, leaf.2)) ++ leavesOf members

end

/-- The key and the value of a leaf below a path. -/
def pairBelow (path : String) (leaf : List String × String) : String × String :=
  (leaf.1.foldl Path.join path, leaf.2)

/-- The key and the value of a leaf of a whole table. -/
def pair (leaf : List String × String) : String × String := (Path.text leaf.1, leaf.2)

/-- A leaf below a name is a leaf below the path with the name. -/
theorem map_pairBelow_cons (path name : String) (leaves : List (List String × String)) :
    (leaves.map fun leaf => (name :: leaf.1, leaf.2)).map (pairBelow path)
      = leaves.map (pairBelow (Path.join path name)) := by
  rw [List.map_map]
  rfl

theorem store_leaf_eq_setAll {datum : Datum} (htable : ∀ members, datum = .table members → False)
    (hnothing : datum = .nothing → False) (path : String) (t : Tree) :
    datum.store path t = Tree.setAll true (datum.leaves.map (pairBelow path)) t := by
  rw [store, leaves]
  · exact (Tree.setAll_singleton true path datum.stored t).symm
  · exact htable
  · exact hnothing
  · exact htable
  · exact hnothing

mutual

/-- **Storing a datum is storing its leaves**, one after the other. -/
theorem store_eq_setAll (path : String) : ∀ (datum : Datum) (t : Tree),
    datum.store path t = Tree.setAll true (datum.leaves.map (pairBelow path)) t
  | .table members, t => storeMembers_eq_setAll path members t
  | .nothing, _ => rfl
  | .truth _, t => store_leaf_eq_setAll (by simp) (by simp) path t
  | .integer _, t => store_leaf_eq_setAll (by simp) (by simp) path t
  | .real _, t => store_leaf_eq_setAll (by simp) (by simp) path t
  | .text _, t => store_leaf_eq_setAll (by simp) (by simp) path t
  | .list _, t => store_leaf_eq_setAll (by simp) (by simp) path t

/-- Storing the members of a table is storing the leaves of all of them. -/
theorem storeMembers_eq_setAll (path : String) : ∀ (members : List (String × Datum)) (t : Tree),
    storeMembers path members t = Tree.setAll true ((leavesOf members).map (pairBelow path)) t
  | [], _ => rfl
  | (name, item) :: members, t => by
      rw [storeMembers, leavesOf, List.map_append, map_pairBelow_cons, Tree.setAll_append,
        store_eq_setAll (Path.join path name) item t]
      congr 1
      funext _ next
      exact storeMembers_eq_setAll path members next

end

/-- **The tree of a table is built by a run over its leaves**, the members of every table in it being
    taken in the order of their names. -/
theorem toTree_eq (members : List (String × Datum)) : toTree members
    = let pairs := (leaves (sorted (.table members))).map pair
      (Tree.setAll true pairs .empty).result.map fun _ => (Tree.setAll true pairs .empty).state := by
  rw [toTree, storeMembers_eq_setAll]
  rfl

/-- The tree of a table has what storing a value keeps from the empty tree on. -/
theorem toTree_keeps {P : Tree → Prop} (hP : Tree.KeptBySet P) (hempty : P .empty)
    {members : List (String × Datum)} {t : Tree} (h : toTree members = .ok t) : P t := by
  rw [toTree_eq] at h
  dsimp only at h
  generalize (leaves (sorted (.table members))).map _ = pairs at h
  have hbuilt := Tree.setAll_keeps hP hempty true pairs
  cases hresult : (Tree.setAll true pairs .empty).result with
  | error e =>
      rw [hresult] at h
      cases h
  | ok _ =>
      rw [hresult] at h
      obtain rfl := Except.ok.inj h
      exact hbuilt

end Datum

/-- **The tree of a file has what is kept from the empty tree on.** -/
theorem readTree_keeps {P : Tree → Prop} (hP : Tree.KeptBySet P) (hempty : P .empty)
    {files : FileReader} {path : String} {t : Tree} (h : readTree files path = .ok t) : P t := by
  rw [readTree] at h
  split at h
  · exact nomatch h
  · exact Datum.toTree_keeps hP hempty h

end ParamStore
