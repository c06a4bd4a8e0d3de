import ParamStore.Tree.Basic

/-!
# The report — a tree as lines of text

Each value is a line `key = value` with its local name. Each sub-tree that holds values of its
    own has a header line with its full dotted path before them; a chain of sub-trees
    without values and with a single sub-tree each is followed to its end, and only the end can
    have a header.

* **`report`** — all lines, each after a given text and ended by a line feed.
* **`commonPath`** — the chain that starts at the root.
-/

namespace ParamStore.Tree

/-- Follows the chain of sub-trees that hold no values and one sub-tree each. -/
def descend (path : String) : Tree → String × Tree
  | node [] [(name, only)] => descend (Path.join path name) only
  | t => (path, t)

/-- The dotted path of the chain that starts at the root; empty if none does. -/
def commonPath (t : Tree) : String := (descend "" t).1

/-- The lines of the values of one level. -/
def valueLines (lead : String) (vs : List (String × String)) : List String :=
  vs.map fun entry => lead ++ entry.1 ++ " = " ++ entry.2

/-- The header of a sub-tree that holds values. -/
def header (lead path : String) (vs : List (String × String)) : List String :=
  if vs.isEmpty then [] else [lead ++ "[ " ++ path ++ " ]"]

mutual

/-- The lines of the sub-trees of a level, each at the end of its chain. -/
def sections (lead path : String) : List (String × Tree) → List String
  | [] => []
  | (name, t) :: rest => chainLines lead (Path.join path name) t ++ sections lead path rest

/-- The lines of a sub-tree: those of the end of its chain. -/
def chainLines (lead path : String) : Tree → List String
  | node [] [(name, only)] => chainLines lead (Path.join path name) only
  | node vs ss => header lead path vs ++ valueLines lead vs ++ sections lead path ss

end

/-- The lines of a whole tree. -/
def lines (lead : String) (t : Tree) : List String :=
  valueLines lead t.values ++ sections lead "" t.subs

/-- The report as one text, `lead` before every line. -/
def report (lead : String) (t : Tree) : String :=
  String.join ((lines lead t).map (· ++ "\n"))

end ParamStore.Tree
