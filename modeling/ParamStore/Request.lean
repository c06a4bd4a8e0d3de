import ParamStore.Number.Integer

/-!
# Requests — one record per look-up with a default

A request says which key was asked for, with which default in its stored form, from where, and
    under which validator. A look-up without a call site has an empty file and no line. The
    full order compares key, default, file, line and validator in turn, a missing line before
    every line; it decides which requests are one. Whether two requests disagree is decided by key
    and default alone.

* **`Request`**, **`CallSite`** — the record and its origin.
* **`Request.order`**, **`Request.claimOrder`** — the two orders.
* **`Request.text`** — one line for a reader.
-/

namespace ParamStore

open Number

/-- The number of a line. -/
abbrev Line := Ranged .u32

/-- Where a look-up is written down, with the text of its validator. -/
structure CallSite where
  file : String
  line : Line
  validator : String

/-- A look-up with a default. -/
structure Request where
  key : String
  default : String
  file : String
  line : Option Line
  validator : String
deriving DecidableEq

namespace Request

/-- A request from nowhere in particular. -/
def unplaced (key default validator : String) : Request := ⟨key, default, "", none, validator⟩

/-- A request from a call site, which also names the validator. -/
def ofSite (key default : String) (site : CallSite) : Request :=
  ⟨key, default, site.file, some site.line, site.validator⟩

/-- Lines by number, a missing one first. -/
def lineOrder : Option Line → Option Line → Ordering
  | none, none => .eq
  | none, some _ => .lt
  | some _, none => .gt
  | some a, some b => compare a.val b.val

/-- Key, then default. -/
def claimOrder (a b : Request) : Ordering :=
  (compare a.key b.key).then (compare a.default b.default)

/-- Key, default, file, line, validator. -/
def order (a b : Request) : Ordering :=
  (claimOrder a b).then <|
    (compare a.file b.file).then <| (lineOrder a.line b.line).then (compare a.validator b.validator)

/-- One line for a reader. -/
def text (r : Request) : String :=
  let place :=
    match r.line with
    | some line => " -- " ++ r.file ++ ":" ++ decimal line.val
    | none => " -- <unknown location>"
  r.key ++ " -- default: '" ++ r.default ++ "' -- validator: " ++ r.validator ++ place

/-- Puts a request at its place among ascending ones; one that is there already is not
    repeated. -/
def insert (r : Request) : List Request → List Request
  | [] => [r]
  | s :: rest =>
    match order r s with
    | .lt => r :: s :: rest
    | .eq => s :: rest
    | .gt => s :: insert r rest

/-- Two sets of ascending requests as one. -/
def union (into more : List Request) : List Request :=
  more.foldl (fun set r => insert r set) into

end Request

end ParamStore
