import ParamStore.KeyMap
import ParamStore.Path

/-!
# Parameter trees — values by name, in sub-trees by name

A tree holds texts under local names and sub-trees under local names, each in ascending order.
    A place is a list of segments: all but the last lead through sub-trees, the last one
    names a value or a sub-tree there. The operations take dotted texts, which are cut into
    segments first; a text that names no place is absent to every query and refused by every
    change.

A change works on the tree step by step and shows what it leaves even when it refuses: the parents
    of a new value are opened before its own name is looked at.

* **`nodeAt?`**, **`get?`** — the views: the sub-tree at a place, the value at a place.
* **`within`** — a change at the end of a way through sub-trees.
* **`set`** — stores one value.
* **`flatten`** — all values under their dotted keys, ascending.
-/

namespace ParamStore

/-- Values and sub-trees by local name. -/
inductive Tree where
  | node (values : List (String × String)) (subs : List (String × Tree))
deriving Repr

namespace Tree

/-- The values of this level. -/
def values : Tree → KeyMap String
  | node vs _ => vs

/-- The sub-trees of this level. -/
def subs : Tree → KeyMap Tree
  | node _ ss => ss

/-- Neither values nor sub-trees. -/
def empty : Tree := node [] []

instance : Inhabited Tree := ⟨empty⟩

mutual

/-- Equality is decided entry by entry. -/
def decEq : (a b : Tree) → Decidable (a = b)
  | node vs ss, node vs' ss' =>
    if hv : vs = vs' then
      match decEqSubs ss ss' with
      | isTrue hs => isTrue (by rw [hv, hs])
      | isFalse hs => isFalse fun h => hs (by injection h)
    else isFalse fun h => hv (by injection h)

/-- Equality of sub-trees by name. -/
def decEqSubs : (a b : List (String × Tree)) → Decidable (a = b)
  | [], [] => isTrue rfl
  | [], _ :: _ => isFalse (by simp)
  | _ :: _, [] => isFalse (by simp)
  | (n, t) :: rest, (n', t') :: rest' =>
    if hn : n = n' then
      match decEq t t', decEqSubs rest rest' with
      | isTrue ht, isTrue hr => isTrue (by rw [hn, ht, hr])
      | isFalse ht, _ => isFalse fun h => ht (by injection h with h _; injection h)
      | _, isFalse hr => isFalse fun h => hr (by injection h)
    else isFalse fun h => hn (by injection h with h _; injection h)

end

instance : DecidableEq Tree := decEq

/-- The tree with other values. -/
def withValues (t : Tree) (vs : KeyMap String) : Tree := node vs t.subs

/-- The tree with other sub-trees. -/
def withSubs (t : Tree) (ss : KeyMap Tree) : Tree := node t.values ss

/-- Neither values nor sub-trees are stored; an empty sub-tree counts. -/
def isEmpty (t : Tree) : Bool := t.values.isEmpty && t.subs.isEmpty

-- ── Queries ───────────────────────────────────────────────────────────────────────

/-- The sub-tree at the end of a way. -/
def nodeAt? : List String → Tree → Option Tree
  | [], t => some t
  | name :: rest, t => (t.subs.find? name).bind (nodeAt? rest)

/-- The value with a name at the end of a way. -/
def valueAt? (parents : List String) (name : String) (t : Tree) : Option String :=
  (t.nodeAt? parents).bind fun node => node.values.find? name

/-- The text stored under a dotted key. -/
def get? (t : Tree) (key : String) : Option String :=
  match Path.splitLast key with
  | .ok (parents, name) => t.valueAt? parents name
  | .error _ => none

/-- A value is stored under the dotted key. -/
def hasKey (t : Tree) (key : String) : Bool := (t.get? key).isSome

/-- The sub-tree at a dotted path. -/
def findSub? (t : Tree) (path : String) : Option Tree :=
  match Path.segments? path with
  | some parts => t.nodeAt? parts
  | none => none

/-- A sub-tree is at the dotted path. -/
def hasSub (t : Tree) (path : String) : Bool := (t.findSub? path).isSome

/-- The sub-tree at a dotted path, or a refusal that shows the path as given. -/
def sub (t : Tree) (path : String) : Except Error Tree :=
  match t.findSub? path with
  | some found => .ok found
  | none => .error (.missingSub path)

-- ── Changes ───────────────────────────────────────────────────────────────────────

/-- Works on the sub-tree at the end of a way, opening missing sub-trees. A name on the way that
    holds a value ends the attempt, which shows `full` as the path in conflict. -/
def within {α : Type} (full : String) (act : Tree → Attempt Tree α) :
    List String → Tree → Attempt Tree α
  | [], t => act t
  | name :: rest, t =>
    if t.values.contains name then .refuse (.pathConflict full) t
    else
      let inner := within full act rest ((t.subs.find? name).getD empty)
      ⟨inner.result, t.withSubs (t.subs.insert name inner.state)⟩

/-- Stores a value under a local name. The name of a sub-tree takes no value, and the name of a
    value takes another one only with leave. -/
def setLocal (full name value : String) (overwrite : Bool) (t : Tree) : Attempt Tree Unit :=
  if t.subs.contains name then .refuse (.pathConflict full) t
  else if t.values.contains name && !overwrite then .refuse (.duplicateKey full) t
  else .pure () (t.withValues (t.values.insert name value))

/-- Stores a value under a dotted key, opening the sub-trees on the way. -/
def set (t : Tree) (key value : String) (overwrite : Bool) : Attempt Tree Unit :=
  match Path.splitLast key with
  | .error e => .refuse e t
  | .ok (parents, name) => within key (setLocal key name value overwrite) parents t

/-- Stores values one after the other; the first refusal ends the attempt. -/
def setAll (overwrite : Bool) : List (String × String) → Tree → Attempt Tree Unit
  | [], t => .pure () t
  | (key, value) :: rest, t =>
    (t.set key value overwrite).andThen fun _ next => setAll overwrite rest next

/-- A tree of values under dotted keys, no key given twice. -/
def ofPairs (pairs : List (String × String)) : Except Error Tree :=
  let built := setAll false pairs empty
  match built.result with
  | .ok _ => .ok built.state
  | .error e => .error e

-- ── Listing ───────────────────────────────────────────────────────────────────────

mutual

/-- All values below `path` under their dotted keys: those of a level before those of its
    sub-trees. -/
def collect (path : String) : Tree → List (String × String)
  | node vs ss => vs.map (fun entry => (Path.join path entry.1, entry.2)) ++ collectSubs path ss

/-- `collect` for each of some sub-trees. -/
def collectSubs (path : String) : List (String × Tree) → List (String × String)
  | [] => []
  | (name, t) :: rest => collect (Path.join path name) t ++ collectSubs path rest

end

/-- The order of pairs: by key, then by value. -/
def pairLe (a b : String × String) : Bool := a.1 < b.1 || (a.1 == b.1 && a.2 ≤ b.2)

/-- All values under their dotted keys, ascending. -/
def flatten (t : Tree) : List (String × String) := (collect "" t).mergeSort pairLe

end Tree

end ParamStore
