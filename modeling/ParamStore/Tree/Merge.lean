import ParamStore.Tree.Basic

/-!
# Merging — one tree laid over another, at the root or under a path

A merge looks at the whole incoming tree before it changes anything. A name that is a value
    on one side and a sub-tree on the other is a conflict; a value on both sides needs leave to be
    replaced. Values are looked at before sub-trees, each in ascending order, and the first
    objection is the answer. What passes is laid over the target without looking again.

* **`checkMerge`** — the first objection to laying a tree over another.
* **`overlay`** — lays it over.
* **`merge`** — both, at the root for a blank path, else at the end of the path.
* **`fillMissing`** — adds only what is not there and skips what conflicts.
-/

namespace ParamStore.Tree

/-- Looks at the incoming values of one level against what is there. -/
def checkValues (overwrite : Bool) (path : String) (mine : Tree) :
    List (String × String) → Except Error Unit
  | [] => .ok ()
  | (name, _) :: rest =>
    if mine.subs.contains name then .error (.pathConflict (Path.join path name))
    else if mine.values.contains name && !overwrite then
      .error (.duplicateKey (Path.join path name))
    else checkValues overwrite path mine rest

mutual

/-- The first objection to laying the second tree over the first, whose place is `path`. -/
def checkMerge (overwrite : Bool) (path : String) (mine : Tree) : Tree → Except Error Unit
  | node vs ss =>
    match checkValues overwrite path mine vs with
    | .error e => .error e
    | .ok _ => checkSubs overwrite path mine ss

/-- The first objection among incoming sub-trees. -/
def checkSubs (overwrite : Bool) (path : String) (mine : Tree) :
    List (String × Tree) → Except Error Unit
  | [] => .ok ()
  | (name, theirs) :: rest =>
    let full := Path.join path name
    if mine.values.contains name then .error (.pathConflict full)
    else
      match mine.subs.find? name with
      | none => checkSubs overwrite path mine rest
      | some own =>
        match checkMerge overwrite full own theirs with
        | .error e => .error e
        | .ok _ => checkSubs overwrite path mine rest

end

mutual

/-- Lays the second tree over the first: its values replace, its sub-trees are laid over those of
    the same name. -/
def overlay (base : Tree) : Tree → Tree
  | node vs ss =>
    node (vs.foldl (fun m entry => KeyMap.insert entry.1 entry.2 m) base.values)
      (overlaySubs base.subs ss)

/-- Lays sub-trees over sub-trees. -/
def overlaySubs (base : KeyMap Tree) : List (String × Tree) → KeyMap Tree
  | [] => base
  | (name, theirs) :: rest =>
    overlaySubs (base.insert name (overlay ((base.find? name).getD empty) theirs)) rest

end

/-- The first objection to putting a tree under a name at the end of a way. Where the way is
    not there yet, nothing can object. -/
def checkPlacement (overwrite : Bool) (full : String) (theirs : Tree) (name : String) :
    List String → Tree → Except Error Unit
  | [], level =>
    if level.values.contains name && !overwrite then .error (.duplicateKey full)
    else
      match level.subs.find? name with
      | some own => checkMerge overwrite full own theirs
      | none => .ok ()
  | parent :: rest, level =>
    if level.values.contains parent then .error (.pathConflict full)
    else
      match level.subs.find? parent with
      | some next => checkPlacement overwrite full theirs name rest next
      | none => .ok ()

/-- Makes room for a sub-tree and lays the incoming tree over what is there. -/
def place (theirs : Tree) (name : String) (t : Tree) : Attempt Tree Unit :=
  let own := (t.subs.find? name).getD empty
  .pure () (node (t.values.erase name) (t.subs.insert name (own.overlay theirs)))

/-- Merges a tree into another: key by key at the root if the path is blank, else as
    the sub-tree at the path. -/
def merge (t theirs : Tree) (under : String) (overwrite : Bool) : Attempt Tree Unit :=
  if (Text.trim under).isEmpty then
    match checkMerge overwrite "" t theirs with
    | .error e => .refuse e t
    | .ok _ => .pure () (t.overlay theirs)
  else
    match Path.splitLast under with
    | .error e => .refuse e t
    | .ok (parents, name) =>
      match checkPlacement overwrite under theirs name parents t with
      | .error e => .refuse e t
      | .ok _ => within under (place theirs name) parents t

/-- Stores those of some pairs whose key is absent, skipping the ones that cannot be stored, and
    counts them. -/
def fill : List (String × String) → Tree → Nat × Tree
  | [], t => (0, t)
  | (key, value) :: rest, t =>
    if t.hasKey key then fill rest t
    else
      let stored := t.set key value false
      let more := fill rest stored.state
      (if stored.succeeds then more.1 + 1 else more.1, more.2)

/-- Adds every value whose key is absent; names that are taken otherwise are skipped. -/
def fillMissing (t other : Tree) : Nat × Tree := fill other.flatten t

end ParamStore.Tree
