import ParamStore.Codec.Literal
import ParamStore.Ledger.Basic
import ParamStore.Store.Options
import ParamStore.Tree.Merge
import ParamStore.Tree.Report

/-!
# Stores — a tree of parameters with the ledger of its look-ups

A store owns a tree, the ledger of the requests made of it, and its options. Values go in as the
    texts of their codec. A sub-store is a copy: it takes the options along but starts with an empty
    ledger and writes no log on leaving, and what happens to either afterwards is not seen by
    the other.

* **`Store.set`**, **`Store.add`** — values and whole stores going in.
* **`Store.sub`**, **`Store.merged`** — new stores from old ones.
* **`Warning`** — what an operation remarks without refusing.
-/

namespace ParamStore

/-- A remark that refuses nothing. -/
inductive Warning where
  | defaultUsed (key default : String)
  | defaultNotRecorded (key : String) (cause : Error)
  | logNotWritten (logfile : String)
deriving DecidableEq, Repr

namespace Warning

/-- The wording of a remark. -/
def message : Warning → String
  | defaultUsed .. => "Using default value for missing key"
  | defaultNotRecorded .. => "Could not record default value"
  | logNotWritten _ => "Failed to write parameter log"

end Warning

/-- A tree, the ledger of its look-ups, and options. -/
structure Store where
  tree : Tree
  ledger : Ledger
  options : Options
deriving DecidableEq

namespace Store

/-- A store of a tree, nothing requested yet. -/
def ofTree (tree : Tree) (options : Options) : Store := ⟨tree, .empty, options⟩

/-- A store without values. -/
def new (options : Options) : Store := ofTree .empty options

/-- A store without values whose options are all off. -/
def empty : Store := new .quiet

instance : Inhabited Store := ⟨empty⟩

/-- What an attempt on the tree means for the store. -/
def onTree {α : Type} (s : Store) (a : Attempt Tree α) : Attempt Store α :=
  ⟨a.result, { s with tree := a.state }⟩

/-- Stores the text of a value under a key. -/
def set {α : Type} [Codec α] (s : Store) (key : String) (value : α) (overwrite : Bool) :
    Attempt Store Unit :=
  s.onTree (s.tree.set key (Codec.encode value) overwrite)

/-- A store with a single value. -/
def ofValue {α : Type} [Codec α] (key : String) (value : α) : Except Error Store :=
  let built := empty.set key value false
  built.result.map fun _ => built.state

/-- A store of as many values as keys, no key given twice. -/
def ofValues {α : Type} [Codec α] (keys : List String) (values : List α) : Except Error Store :=
  if keys.length ≠ values.length then .error (.wrongCount keys.length values.length)
  else
    (Tree.ofPairs (keys.zip (values.map Codec.encode))).map fun tree => ofTree tree .quiet

/-- No value and no sub-tree is stored; requests do not count. -/
def isEmpty (s : Store) : Bool := s.tree.isEmpty

/-- The value under the key is a bracketed literal. -/
def hasVector (s : Store) (key : String) : Bool :=
  match s.tree.get? key with
  | some raw => Literal.isLiteral raw
  | none => false

/-- A copy of the sub-tree at a path as a store. -/
def sub (s : Store) (path : String) : Except Error Store :=
  (s.tree.sub path).map fun tree => ofTree tree s.options.withoutLog

/-- Merges a tree. -/
def addTree (s : Store) (tree : Tree) (under : String) (overwrite : Bool) : Attempt Store Unit :=
  s.onTree (s.tree.merge tree under overwrite)

/-- Merges a store: its tree, and then its ledger. -/
def add (s other : Store) (under : String) (overwrite : Bool) : Attempt Store Unit :=
  (s.addTree other.tree under overwrite).andThen fun _ s =>
    .pure () { s with ledger := s.ledger.merge other.ledger }

/-- Both trees and both ledgers in a new store, no key being in both trees. -/
def merged (s other : Store) : Except Error Store :=
  let both := { s with options := s.options.withoutLog }.add other "" false
  both.result.map fun _ => both.state

end Store

end ParamStore
