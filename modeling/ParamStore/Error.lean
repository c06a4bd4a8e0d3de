import ParamStore.Text.Quoted

/-!
# Errors — the causes for which an operation refuses, and their wording

Operations answer with a cause, never with a text; the wording is one function of the cause.
    The audit of requests has no cause here: a mismatch is reported on request and refuses nothing.

* **`Error`** — the causes.
* **`Error.message`** — the wording of a cause.
* **`Attempt`** — what an operation answers together with what it leaves behind, so that
  an operation that refuses halfway shows what it had already done.
-/

namespace ParamStore

/-- Why an operation refuses. -/
inductive Error where
  /-- No value under the key, and no default to fall back on. -/
  | missingKey (key : String)
  /-- A value under the key already, and no leave to replace it. -/
  | duplicateKey (key : String)
  /-- No sub-tree under the path. -/
  | missingSub (path : String)
  /-- The stored text is no text of the requested type. -/
  | unreadable (raw target reason : String)
  /-- The value was read and then turned down by the validator. -/
  | rejected (key diagnostic : String)
  /-- The number of entries does not fill the shape. -/
  | wrongCount (expected found : Nat)
  /-- One bracket of a literal without the other. -/
  | malformedLiteral (literal : String)
  /-- The text does not name a place in a tree. -/
  | invalidKey (path : String)
  /-- A name would be a value and a sub-tree at once. -/
  | pathConflict (path : String)
  /-- The argument is no key and value. -/
  | invalidArgument (argument : String)
  /-- The parameter file is not there or holds no table. -/
  | source (path : String)
  /-- The log cannot be written. -/
  | unwritable
  /-- Logging cannot be set up. -/
  | logging (reason : String)
deriving DecidableEq, Repr

namespace Error

/-- The wording of a cause. -/
def message : Error → String
  | missingKey key => "key '" ++ key ++ "' is missing and no default value was provided"
  | duplicateKey key => "key '" ++ key ++ "' already exists and no overwrite was requested"
  | missingSub path => "sub '" ++ path ++ "' is missing"
  | unreadable raw target reason => "cannot read '" ++ raw ++ "' as " ++ target ++ ": " ++ reason
  | rejected key diagnostic => "invalid value for '" ++ key ++ "': " ++ diagnostic
  | wrongCount expected found =>
    "shape mismatch: expected " ++ toString expected ++ " entries, found " ++ toString found
  | malformedLiteral _ => "Vectors have to be of the form '[entry_0; entry_1; ... ]!'"
  | invalidKey path => "invalid key path: '" ++ path ++ "'"
  | pathConflict path => "'" ++ path ++ "' is used both as a value key and as a sub"
  | invalidArgument argument => "invalid command line argument: '" ++ argument ++ "'"
  | source path => "failed to read parameter file " ++ Text.quoted path
  | unwritable => "I/O error: the log cannot be written"
  | logging reason => "logging setup failed: " ++ reason

end Error

/-- What an operation answers, and the state it leaves, whether it succeeds or not. -/
structure Attempt (σ α : Type) where
  result : Except Error α
  state : σ

namespace Attempt

variable {σ α β : Type}

/-- Success without a change. -/
def pure (a : α) (s : σ) : Attempt σ α := ⟨.ok a, s⟩

/-- Refusal without a change. -/
def refuse (e : Error) (s : σ) : Attempt σ α := ⟨.error e, s⟩

/-- Continues after a success from the state it left; a refusal ends the attempt there. -/
def andThen (first : Attempt σ α) (next : α → σ → Attempt σ β) : Attempt σ β :=
  match first.result with
  | .ok a => next a first.state
  | .error e => ⟨.error e, first.state⟩

/-- The operation did what it was asked for. -/
def succeeds (a : Attempt σ α) : Bool :=
  match a.result with
  | .ok _ => true
  | .error _ => false

/-- An attempt without an answer of its own succeeds exactly if it answers nothing. -/
theorem succeeds_iff {a : Attempt σ Unit} : a.succeeds = true ↔ a.result = .ok () := by
  rw [succeeds]
  cases a.result <;> simp

/-- An attempt that does not succeed is refused for a cause. -/
theorem exists_error {a : Attempt σ Unit} (h : a.result ≠ .ok ()) : ∃ e, a.result = .error e := by
  cases hresult : a.result with
  | ok _ => exact absurd hresult h
  | error e => exact ⟨e, rfl⟩

/-- After a success an attempt goes on. -/
theorem andThen_of_ok {first : Attempt σ α} {a : α} (h : first.result = .ok a)
    (next : α → σ → Attempt σ β) : first.andThen next = next a first.state := by
  rw [andThen, h]

/-- **After a refusal an attempt stays where it is.** -/
theorem andThen_of_error {first : Attempt σ α} {e : Error} (h : first.result = .error e)
    (next : α → σ → Attempt σ β) : first.andThen next = ⟨.error e, first.state⟩ := by
  rw [andThen, h]

/-- Three attempts in a row may be grouped either way. -/
theorem andThen_assoc {γ : Type} (first : Attempt σ α) (next : α → σ → Attempt σ β)
    (last : β → σ → Attempt σ γ) :
    (first.andThen next).andThen last = first.andThen fun a s => (next a s).andThen last := by
  cases hfirst : first.result with
  | ok a => rw [andThen_of_ok hfirst, andThen_of_ok hfirst]
  | error e =>
      rw [andThen_of_error hfirst, andThen_of_error hfirst]
      rfl

/-- Doing nothing afterwards changes nothing. -/
theorem andThen_pure (first : Attempt σ Unit) : (first.andThen fun _ s => pure () s) = first := by
  obtain ⟨result, state⟩ := first
  cases result with
  | ok _ => rfl
  | error e => rfl

/-- **Two attempts in a row succeed exactly if the first does, and the second after it.** -/
theorem succeeds_andThen (first : Attempt σ Unit) (next : Unit → σ → Attempt σ Unit) :
    (first.andThen next).succeeds = true ↔
      first.succeeds = true ∧ (next () first.state).succeeds = true := by
  cases hfirst : first.result with
  | ok _ => simp [andThen_of_ok hfirst, succeeds_iff, hfirst]
  | error e => simp [andThen_of_error hfirst, succeeds_iff, hfirst]

end Attempt

end ParamStore
