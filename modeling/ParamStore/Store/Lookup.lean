import ParamStore.Store.Basic
import ParamStore.Validator

/-!
# Look-ups — typed values out of a store

There are two families. A plain look-up refuses an absent key and leaves no trace. A look-up with
    a default never refuses for absence: it records a request first, uses the default when the key
    is absent, with a warning if that is asked for, and may store the default's text under the
    key, as far as the key can hold one. Both read a stored text by the codec, refuse what
    cannot be read, and refuse what the validator turns down, a default included. A
    default is never put in the place of a stored text that cannot be read.

* **`Store.get`** — the plain family.
* **`Store.getRequested`** — the general look-up with a default; the others fix its arguments.
* **`Store.getList`** — the entries of a text between separators of the caller's choice.
-/

namespace ParamStore

/-- What a look-up answers, the store it leaves, and its remarks in order. -/
structure Outcome (α : Type) where
  result : Except Error α
  store : Store
  warnings : List Warning

namespace Store

variable {α : Type}

/-- A value that the validator accepts, or a refusal with its diagnostic. -/
def validate (key : String) (validator : Validator α) (value : α) : Except Error α :=
  if validator.accepts value then .ok value else .error (.rejected key validator.describe)

/-- Reads and validates the value under a key. -/
def get [Codec α] (s : Store) (key : String) (validator : Validator α) (shape : Shape) :
    Except Error α :=
  match s.tree.get? key with
  | none => .error (.missingKey key)
  | some raw =>
    match Codec.decode raw shape with
    | .error e => .error e
    | .ok value => validate key validator value

/-- The remark that a default is used. -/
def defaultRemarks (o : Options) (key default : String) : List Warning :=
  if o.warnOnDefault then [.defaultUsed key default] else []

/-- Stores the text of a used default, if that is asked for. A key that cannot hold it is
    remarked on and stays as it is. -/
def recordDefault (s : Store) (key default : String) : Store × List Warning :=
  if s.options.recordDefaults then
    let stored := s.tree.set key default false
    ({ s with tree := stored.state },
      match stored.result with
      | .ok _ => []
      | .error cause => [.defaultNotRecorded key cause])
  else (s, [])

/-- Records a request and finds the stored text. For an absent key the default's text is dealt with
    and nothing is found. -/
def consult (s : Store) (r : Request) : Option String × Store × List Warning :=
  let s := { s with ledger := s.ledger.record r }
  match s.tree.get? r.key with
  | some raw => (some raw, s, [])
  | none =>
    let (after, remarks) := s.recordDefault r.key r.default
    (none, after, defaultRemarks s.options r.key r.default ++ remarks)

/-- The request of a look-up: stamped with its call site, or named after its validator. -/
def requestOf (key default : String) (validator : Validator α) : Option CallSite → Request
  | some site => .ofSite key default site
  | none => .unplaced key default validator.name

/-- The value under a key, or the default if there is none. -/
def getRequested [Codec α] (s : Store) (key : String) (default : α) (validator : Validator α)
    (shape : Shape) (site : Option CallSite) : Outcome α :=
  let (found, after, remarks) :=
    s.consult (requestOf key (Codec.encode default) validator site)
  let value : Except Error α :=
    match found with
    | some raw => Codec.decode raw shape
    | none => .ok default
  let result :=
    match value with
    | .error e => .error e
    | .ok value => validate key validator value
  ⟨result, after, remarks⟩

/-- The value under a key or the default, read without a shape and not validated. -/
def getOr [Codec α] (s : Store) (key : String) (default : α) : Outcome α :=
  s.getRequested key default .any .any none

/-- The value under a key or the default, read with a shape. -/
def getOrShaped [Codec α] (s : Store) (key : String) (default : α) (shape : Shape) : Outcome α :=
  s.getRequested key default .any shape none

/-- The value under a key or the default, validated. -/
def getOrValid [Codec α] (s : Store) (key : String) (default : α) (validator : Validator α) :
    Outcome α :=
  s.getRequested key default validator .any none

/-- Reads and validates each of some texts; the first refusal is the answer. -/
def readValid [Codec α] (key : String) (validator : Validator α) :
    List String → Except Error (List α)
  | [] => .ok []
  | text :: rest =>
    match Codec.read text with
    | .error e => .error e
    | .ok value =>
      match validate key validator value with
      | .error e => .error e
      | .ok value => (readValid key validator rest).map (value :: ·)

/-- The entries of the stored text, or of the default's text, between any of the separators. -/
def getList [Codec α] (s : Store) (key : String) (default : α) (separators : String)
    (validator : Validator α) : Outcome (List α) :=
  let encoded := Codec.encode default
  let (found, after, remarks) := s.consult (.unplaced key encoded validator.name)
  ⟨readValid key validator (Literal.tokens separators (found.getD encoded)), after, remarks⟩

end Store

end ParamStore
