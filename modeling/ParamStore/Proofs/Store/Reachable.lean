import ParamStore.Proofs.Tree.Reachable

/-!
# Reachable stores — what any run of operations can make of a store

A store starts from a tree, values, a file or arguments, and goes through changes, merges, copies of
    its sub-trees and look-ups. Each of these has a constructor, and a refused operation leads
    to the store that it leaves behind. Whatever is done to a store, its tree goes through
    operations on trees, so the tree of a reachable store is reachable.

* **`Reachable`** — the runs.
* **`Reachable.tree`** — they make reachable trees.
* **`refused_change_leaves_store`** — a refused change leaves the store as it was.
-/

namespace ParamStore

theorem exists_of_map_eq_ok {α β : Type} {f : α → β} {r : Except Error α} {b : β}
    (h : r.map f = .ok b) : ∃ a, r = .ok a ∧ f a = b := by
  cases r with
  | error e => exact nomatch h
  | ok a => exact ⟨a, rfl, Except.ok.inj h⟩

namespace Store

/-- The stores that runs of operations lead to, refused operations included. -/
inductive Reachable : Store → Prop where
  | ofTree {t : Tree} (h : t.Reachable) (o : Options) : Reachable (ofTree t o)
  | ofValue {α : Type} [Codec α] {key : String} {value : α} {s : Store}
      (h : ofValue key value = .ok s) : Reachable s
  | ofValues {α : Type} [Codec α] {keys : List String} {values : List α} {s : Store}
      (h : ofValues keys values = .ok s) : Reachable s
  | ofFile {files : FileReader} {path : String} {o : Options} {s : Store}
      (h : ofFile files path o = .ok s) : Reachable s
  | ofArgs {files : FileReader} {d : Directory} {args : List String} {o : Options} {s : Store}
      (h : (ofArgs files d args o).result = .ok s) : Reachable s
  | ofArgsOrFile {files : FileReader} {d : Directory} {args : List String} {fallback : String}
      {o : Options} {s : Store} (h : (ofArgsOrFile files d args fallback o).result = .ok s) : Reachable s
  | withOptions {s : Store} (h : Reachable s) (o : Options) : Reachable { s with options := o }
  | set {α : Type} [Codec α] {s : Store} (h : Reachable s) (key : String) (value : α)
      (overwrite : Bool) : Reachable (s.set key value overwrite).state
  | add {s other : Store} (h : Reachable s) (h' : Reachable other) (under : String)
      (overwrite : Bool) : Reachable (s.add other under overwrite).state
  | addTree {s : Store} {t : Tree} (h : Reachable s) (h' : t.Reachable) (under : String)
      (overwrite : Bool) : Reachable (s.addTree t under overwrite).state
  | sub {s found : Store} {path : String} (h : Reachable s) (hfound : s.sub path = .ok found) :
      Reachable found
  | merged {s other both : Store} (h : Reachable s) (h' : Reachable other)
      (hboth : s.merged other = .ok both) : Reachable both
  | readOptions {s : Store} (h : Reachable s) (files : FileReader) (args : List String) :
      Reachable (s.readOptions files args).state
  | getRequested {α : Type} [Codec α] {s : Store} (h : Reachable s) (key : String) (default : α)
      (validator : Validator α) (shape : Shape) (site : Option CallSite) :
      Reachable (s.getRequested key default validator shape site).store
  | getList {α : Type} [Codec α] {s : Store} (h : Reachable s) (key : String) (default : α)
      (separators : String) (validator : Validator α) :
      Reachable (s.getList key default separators validator).store

-- ── The tree of a store ───────────────────────────────────────────────────────────

theorem set_state_tree {α : Type} [Codec α] (s : Store) (key : String) (value : α)
    (overwrite : Bool) : (s.set key value overwrite).state.tree
      = (s.tree.set key (Codec.encode value) overwrite).state := by
  rw [Store.set, onTree]

theorem addTree_state_tree (s : Store) (t : Tree) (under : String) (overwrite : Bool) :
    (s.addTree t under overwrite).state.tree = (s.tree.merge t under overwrite).state := by
  rw [addTree, onTree]

/-- The tree after a merge of stores is the tree after the merge of their trees. -/
theorem add_state_tree (s other : Store) (under : String) (overwrite : Bool) :
    (s.add other under overwrite).state.tree = (s.tree.merge other.tree under overwrite).state := by
  rw [← addTree_state_tree, add]
  cases hresult : (s.addTree other.tree under overwrite).result with
  | error e => rw [Attempt.andThen_of_error hresult]
  | ok _ => rw [Attempt.andThen_of_ok hresult, Attempt.pure]

-- ── Stores that are made of values, files and arguments ───────────────────────────

section Made

variable {P : Tree → Prop} (hP : Tree.KeptBySet P) (hempty : P .empty) {s : Store}

include hP hempty

theorem ofValue_keeps {α : Type} [Codec α] {key : String} {value : α}
    (h : ofValue key value = .ok s) : P s.tree := by
  rw [Store.ofValue] at h
  obtain ⟨_, _, rfl⟩ := exists_of_map_eq_ok h
  rw [set_state_tree]
  exact hP _ _ _ _ hempty

theorem ofValues_keeps {α : Type} [Codec α] {keys : List String} {values : List α}
    (h : ofValues keys values = .ok s) : P s.tree := by
  rw [Store.ofValues] at h
  split at h
  · exact nomatch h
  · obtain ⟨t, ht, rfl⟩ := exists_of_map_eq_ok h
    exact Tree.ofPairs_keeps hP hempty ht

theorem ofFile_keeps {files : FileReader} {path : String} {o : Options}
    (h : ofFile files path o = .ok s) : P s.tree := by
  obtain ⟨t, ht, rfl⟩ := exists_of_map_eq_ok h
  exact readTree_keeps hP hempty ht

/-- A store of arguments has the tree that reading them leaves. -/
theorem ofArgs_keeps {files : FileReader} {d : Directory} {args : List String} {o : Options}
    (h : (ofArgs files d args o).result = .ok s) : P s.tree := by
  rw [ofArgs] at h
  dsimp only at h
  split at h
  · obtain rfl := Except.ok.inj h
    exact readOptions_keeps hP hempty files args
  · exact nomatch h

theorem ofArgsOrFile_keeps {files : FileReader} {d : Directory} {args : List String}
    {fallback : String} {o : Options} (h : (ofArgsOrFile files d args fallback o).result = .ok s) :
    P s.tree := by
  unfold Store.ofArgsOrFile at h
  split at h
  · exact ofFile_keeps hP hempty h
  · split at h
    · exact ofArgs_keeps hP hempty h
    · exact ofFile_keeps hP hempty h
  · exact ofArgs_keeps hP hempty h

end Made

theorem keptBySet_reachable : Tree.KeptBySet Tree.Reachable :=
  fun _ key value overwrite h => .set h key value overwrite

/-- **The tree of a reachable store is reachable.** -/
theorem Reachable.tree {s : Store} (h : s.Reachable) : s.tree.Reachable := by
  induction h with
  | ofTree h _ => exact h
  | ofValue h => exact ofValue_keeps keptBySet_reachable .empty h
  | ofValues h => exact ofValues_keeps keptBySet_reachable .empty h
  | ofFile h => exact ofFile_keeps keptBySet_reachable .empty h
  | ofArgs h => exact ofArgs_keeps keptBySet_reachable .empty h
  | ofArgsOrFile h => exact ofArgsOrFile_keeps keptBySet_reachable .empty h
  | withOptions _ _ ih => exact ih
  | set _ key value overwrite ih =>
      rw [set_state_tree]
      exact .set ih key _ overwrite
  | add _ _ under overwrite ih ih' =>
      rw [add_state_tree]
      exact .merge ih ih' under overwrite
  | addTree _ h' under overwrite ih =>
      rw [addTree_state_tree]
      exact .merge ih h' under overwrite
  | sub _ hfound ih =>
      obtain ⟨t, ht, rfl⟩ := exists_of_map_eq_ok hfound
      exact .sub ih ht
  | merged _ _ hboth ih ih' =>
      obtain ⟨_, _, rfl⟩ := exists_of_map_eq_ok hboth
      rw [add_state_tree]
      exact .merge ih ih' "" false
  | readOptions _ files args ih => exact .readOptions ih files args
  | getRequested _ key default validator shape site ih =>
      exact .getRequested ih key default validator shape site
  | getList _ key default separators validator ih =>
      exact .getList ih key default separators validator

-- ── Refused changes ───────────────────────────────────────────────────────────────

/-- A store whose tree is left alone is left alone. -/
theorem onTree_state_eq_self {α : Type} {s : Store} {a : Attempt Tree α} (h : a.state = s.tree) :
    (s.onTree a).state = s := by
  rw [onTree, h]

/-- A change of a store's tree succeeds or is refused as the tree's own change. -/
theorem onTree_result {α : Type} (s : Store) (a : Attempt Tree α) :
    (s.onTree a).result = a.result := by
  rw [onTree]

/-- A refused value leaves the store as it was. -/
theorem set_state_of_error {α : Type} [Codec α] {s : Store} (hs : s.tree.WellFormed) {key : String}
    {value : α} {overwrite : Bool} {e : Error} (h : (s.set key value overwrite).result = .error e) :
    (s.set key value overwrite).state = s := by
  rw [Store.set, onTree_result] at h
  rw [Store.set, onTree_state_eq_self (Tree.set_state_of_error hs h)]

theorem addTree_state_of_error {s : Store} {t : Tree} (ht : t.WellFormed) {under : String}
    {overwrite : Bool} {e : Error} (h : (s.addTree t under overwrite).result = .error e) :
    (s.addTree t under overwrite).state = s := by
  rw [addTree, onTree_result] at h
  rw [addTree, onTree_state_eq_self (Tree.merge_state_of_error ht h)]

/-- A refused merge of a store leaves the tree and the ledger as they were. -/
theorem add_state_of_error {s other : Store} (ht : other.tree.WellFormed) {under : String}
    {overwrite : Bool} {e : Error} (h : (s.add other under overwrite).result = .error e) :
    (s.add other under overwrite).state = s := by
  rw [add] at h ⊢
  cases hresult : (s.addTree other.tree under overwrite).result with
  | ok _ =>
      rw [Attempt.andThen_of_ok hresult] at h
      exact nomatch h
  | error e' =>
      rw [Attempt.andThen_of_error hresult]
      dsimp only
      exact addTree_state_of_error ht hresult

/-- **A refused change leaves the store as it was**: its tree with every sub-tree, empty ones
    included, its ledger and its options, whether a value, a store or a tree was refused. -/
theorem refused_change_leaves_store {s : Store} (h : s.Reachable) :
    (∀ (α : Type) [Codec α] (key : String) (value : α) (overwrite : Bool) (e : Error),
      (s.set key value overwrite).result = .error e → (s.set key value overwrite).state = s)
    ∧ (∀ other : Store, other.Reachable → ∀ (under : String) (overwrite : Bool) (e : Error),
      (s.add other under overwrite).result = .error e →
        (s.add other under overwrite).state = s)
    ∧ ∀ t : Tree, t.Reachable → ∀ (under : String) (overwrite : Bool) (e : Error),
      (s.addTree t under overwrite).result = .error e →
        (s.addTree t under overwrite).state = s := by
  refine ⟨?_, ?_, ?_⟩
  · intro α _ key value overwrite e he
    exact set_state_of_error h.tree.wellFormed he
  · intro other hother under overwrite e he
    exact add_state_of_error hother.tree.wellFormed he
  · intro t ht under overwrite e he
    exact addTree_state_of_error ht.wellFormed he

/-- A value below a value, a store with a ledger in the place of a value, and a tree that crosses
    the store's own: all three are refused and leave nothing behind. -/
theorem refused_change_leaves_store_below :
    let s := (empty.set "a.b" "1" false).state
    let other := (empty.getOr "x.y" "2").store
    s.Reachable ∧ other.Reachable
      ∧ (s.set "a.b.c.d" "3" true).result = .error (.pathConflict "a.b.c.d")
      ∧ (s.set "a.b.c.d" "3" true).state = s
      ∧ (s.add other "a.b" false).result = .error (.duplicateKey "a.b")
      ∧ (s.add other "a.b" false).state = s
      ∧ (s.addTree s.tree "a.b.c" true).result = .error (.pathConflict "a.b.c")
      ∧ (s.addTree s.tree "a.b.c" true).state = s := by
  intro s other
  have hs : s.Reachable := .set (.ofTree .empty .quiet) "a.b" "1" false
  have hother : other.Reachable := .getRequested (.ofTree .empty .quiet) "x.y" "2" .any .any none
  obtain ⟨hset, hadd, haddTree⟩ := refused_change_leaves_store hs
  have he : (s.set "a.b.c.d" "3" true).result = .error (.pathConflict "a.b.c.d") := by rfl
  have he' : (s.add other "a.b" false).result = .error (.duplicateKey "a.b") := by rfl
  have he'' : (s.addTree s.tree "a.b.c" true).result = .error (.pathConflict "a.b.c") := by rfl
  exact ⟨hs, hother, he, hset String "a.b.c.d" "3" true _ he, he',
    hadd other hother "a.b" false _ he', he'', haddTree s.tree hs.tree "a.b.c" true _ he''⟩

end Store

end ParamStore
