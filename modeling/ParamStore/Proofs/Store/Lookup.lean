import ParamStore.Store.Lookup
import ParamStore.Proofs.Tree.Change

/-!
# Look-ups and the tree — what a look-up can leave behind

A look-up with a default touches the tree in one way only: the text of the default is stored under
    the key, without leave to replace anything, when the key is absent and the store keeps
    its defaults. All look-ups of this family go through the same consultation.

* **`consult_tree`** — the tree after a consultation is the old one, or has the default stored.
* **`getRequested_store`**, **`getList_store`** — both families leave what the consultation leaves.
* **`consult_keeps`** — so all of them keep what storing a value keeps.
-/

namespace ParamStore.Store

/-- The tree after a used default was dealt with. -/
theorem recordDefault_tree (s : Store) (key default : String) :
    (s.recordDefault key default).1.tree
      = if s.options.recordDefaults then (s.tree.set key default false).state else s.tree := by
  rw [recordDefault]
  split
  · dsimp only
  · dsimp only

/-- **A consultation leaves the tree alone, or stores the default's text.** -/
theorem consult_tree (s : Store) (r : Request) :
    (s.consult r).2.1.tree = s.tree
      ∨ (s.consult r).2.1.tree = (s.tree.set r.key r.default false).state := by
  rw [consult]
  dsimp only
  cases s.tree.get? r.key with
  | some raw => exact Or.inl rfl
  | none =>
      dsimp only
      rw [recordDefault_tree]
      dsimp only
      split
      · exact Or.inr rfl
      · exact Or.inl rfl

theorem consult_keeps {P : Tree → Prop} (hP : Tree.KeptBySet P) {s : Store} (h : P s.tree)
    (r : Request) : P (s.consult r).2.1.tree := by
  rcases s.consult_tree r with htree | htree
  · rw [htree]
    exact h
  · rw [htree]
    exact hP s.tree r.key r.default false h

section Getters

variable {α : Type} [Codec α]

/-- A look-up leaves the store that its consultation leaves. -/
theorem getRequested_store (s : Store) (key : String) (default : α) (validator : Validator α)
    (shape : Shape) (site : Option CallSite) :
    (s.getRequested key default validator shape site).store
      = (s.consult (requestOf key (Codec.encode default) validator site)).2.1 := by
  rw [getRequested]

theorem getList_store (s : Store) (key : String) (default : α) (separators : String)
    (validator : Validator α) :
    (s.getList key default separators validator).store
      = (s.consult (.unplaced key (Codec.encode default) validator.name)).2.1 := by
  rw [getList]

theorem getRequested_keeps {P : Tree → Prop} (hP : Tree.KeptBySet P) {s : Store} (h : P s.tree)
    (key : String) (default : α) (validator : Validator α) (shape : Shape)
    (site : Option CallSite) : P (s.getRequested key default validator shape site).store.tree := by
  rw [getRequested_store]
  exact consult_keeps hP h _

theorem getList_keeps {P : Tree → Prop} (hP : Tree.KeptBySet P) {s : Store} (h : P s.tree)
    (key : String) (default : α) (separators : String) (validator : Validator α) :
    P (s.getList key default separators validator).store.tree := by
  rw [getList_store]
  exact consult_keeps hP h _

end Getters

end ParamStore.Store
