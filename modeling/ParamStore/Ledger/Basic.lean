import ParamStore.KeyMap
import ParamStore.Request

/-!
# The ledger — every request, by key

A ledger keeps a set of requests under each key, keys and requests ascending. Nothing here
    refuses: the ledger is consulted after the fact, to find keys that were asked for with
    different defaults. A key is in conflict if two of its requests differ in key or default;
    then all its requests are shown, so that every call site is seen.

* **`Ledger.record`**, **`Ledger.merge`** — how requests come in.
* **`Ledger.mismatched`** — the requests of a key in conflict.
* **`Ledger.text`**, **`Ledger.mismatchText`** — listings by key.
-/

namespace ParamStore

/-- Sets of requests by key. -/
structure Ledger where
  requests : KeyMap (List Request)
deriving DecidableEq

namespace Ledger

/-- No request. -/
def empty : Ledger := ⟨[]⟩

instance : Inhabited Ledger := ⟨empty⟩

/-- The requests of a key; none if the key was never asked for. -/
def requestsFor? (l : Ledger) (key : String) : Option (List Request) := l.requests.find? key

/-- The keys, ascending. -/
def keys (l : Ledger) : List String := l.requests.names

/-- The number of requests. -/
def size (l : Ledger) : Nat := (l.requests.flatMap Prod.snd).length

/-- No key is there. -/
def isEmpty (l : Ledger) : Bool := l.requests.isEmpty

/-- Adds requests to those of a key. -/
def add (key : String) (more : List Request) (l : Ledger) : Ledger :=
  ⟨l.requests.insert key (Request.union ((l.requests.find? key).getD []) more)⟩

/-- Records a request; one that is there already changes nothing. -/
def record (l : Ledger) (r : Request) : Ledger := l.add r.key [r]

/-- The union of two ledgers, key by key. -/
def merge (l other : Ledger) : Ledger :=
  other.requests.foldl (fun into entry => into.add entry.1 entry.2) l

/-- Some request differs from the first one in key or default. -/
def inConflict : List Request → Bool
  | [] => false
  | first :: rest => rest.any fun r => Request.claimOrder r first != .eq

/-- The requests of a key, if they disagree on the default. -/
def mismatched (l : Ledger) (key : String) : List Request :=
  match l.requestsFor? key with
  | some rs => if inConflict rs then rs else []
  | none => []

/-- The keys whose requests disagree, with these requests. -/
def mismatches (l : Ledger) : KeyMap (List Request) :=
  l.requests.filter fun entry => inConflict entry.2

/-- Each key on a line, its requests on indented lines. -/
def grouped (groups : KeyMap (List Request)) : String :=
  String.join (groups.map fun entry =>
    entry.1 ++ "\n" ++ String.join (entry.2.map fun r => "  " ++ r.text ++ "\n"))

/-- All requests. -/
def text (l : Ledger) : String := grouped l.requests

/-- The requests of the keys in conflict. -/
def mismatchText (l : Ledger) : String := grouped l.mismatches

/-- The requests of the keys in conflict as a part of a longer text: below a headline, and nothing
    at all without a conflict. -/
def conflictPart (l : Ledger) : String :=
  if l.mismatches.isEmpty then "" else "\nMismatched defaults:\n" ++ l.mismatchText

end Ledger

end ParamStore
