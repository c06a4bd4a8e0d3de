import ParamStore.Codec.Scalar
import ParamStore.Codec.Vector
import ParamStore.Proofs.Codec.Block

/-!
# Causes of a reader — a text is refused for what stands in it

Whatever is asked of a reader, it sees a text and a shape, and so it refuses for one of three causes:
    the text is no text of the type, one of its brackets is alone, or its entries do not fill
    the shape. That a key is missing is not among them, which is why a look-up that found a
    text never answers that there is none.

* **`Codec.Scalar`** — the codecs without entries, which know only the first of these causes.
* **`Error.OfText`** — the three causes.
* **`OfText`** — a result with no other cause; `ofText_readAll` carries it from entries to lists.
* **`Codec.BlamesText`** — the codecs all of whose results are such: those of all scalars, and of
  lists, lists of fixed length and matrices over such a codec.
-/

namespace ParamStore

/-- The cause lies in a text that was read. -/
def Error.OfText : Error → Prop
  | .unreadable .. => True
  | .malformedLiteral _ => True
  | .wrongCount .. => True
  | _ => False

/-- A result that refuses, if it does, for a cause in a text. -/
def OfText {α : Type} : Except Error α → Prop
  | .ok _ => True
  | .error e => e.OfText

/-- A codec whose reader refuses a text for causes in the text alone. -/
class Codec.BlamesText (α : Type) [Codec α] : Prop where
  ofText (raw : String) (shape : Shape) : OfText (Codec.decode raw shape : Except Error α)

open Codec (BlamesText)

theorem OfText.error {α : Type} {r : Except Error α} (h : OfText r) {e : Error}
    (he : r = .error e) : e.OfText := by
  rw [he] at h
  exact h

-- ── Scalars ───────────────────────────────────────────────────────────────────────

/-- A codec without entries: it refuses a text only as one that it cannot read. -/
class Codec.Scalar (α : Type) [Codec α] : Prop where
  error_of_decode {raw : String} {shape : Shape} {e : Error}
    (h : (Codec.decode raw shape : Except Error α) = .error e) :
    ∃ target reason, e = .unreadable raw target reason

open Codec (Scalar)

instance : Scalar String where
  error_of_decode h := by cases h

instance : Scalar Bool where
  error_of_decode h := by
    simp only [Codec.decode] at h
    split at h
    · cases h
    · exact ⟨_, _, (Except.error.inj h).symm⟩

instance : Scalar Char where
  error_of_decode h := by
    simp only [Codec.decode] at h
    split at h
    · cases h
    · split at h
      · cases h
      · exact ⟨_, _, (Except.error.inj h).symm⟩

instance (k : Number.IntKind) : Scalar (Number.Ranged k) where
  error_of_decode h := by
    simp only [Codec.decode] at h
    split at h
    · cases h
    · exact ⟨_, _, (Except.error.inj h).symm⟩

instance (f : Number.BinaryFormat) : Scalar (Number.Binary f) where
  error_of_decode h := by
    simp only [Codec.decode] at h
    split at h
    · cases h
    · exact ⟨_, _, (Except.error.inj h).symm⟩

instance {α : Type} [Codec α] [Scalar α] : BlamesText α where
  ofText raw shape := by
    cases h : (Codec.decode raw shape : Except Error α) with
    | ok a => trivial
    | error e =>
        obtain ⟨_, _, rfl⟩ := Scalar.error_of_decode h
        trivial

-- ── Literals ──────────────────────────────────────────────────────────────────────

namespace Literal

/-- **Why there are no entries**: a bracket is alone, or there are fewer than requested. -/
theorem error_of_entryTokens {raw : String} {size : Nat} {e : Error}
    (h : entryTokens raw size = .error e) :
    e = .malformedLiteral raw ∨ ∃ reason, e = .unreadable raw "vector" reason := by
  unfold entryTokens at h
  split at h
  · next hinner =>
      obtain rfl := Except.error.inj h
      exact .inl (error_of_inner hinner)
  · dsimp only at h
    split at h
    · cases h
    · cases h
  · dsimp only at h
    split at h
    · exact .inr ⟨_, (Except.error.inj h).symm⟩
    · cases h

theorem ofText_of_entryTokens {raw : String} {size : Nat} {e : Error}
    (h : entryTokens raw size = .error e) : e.OfText := by
  rcases error_of_entryTokens h with rfl | ⟨_, rfl⟩
  · trivial
  · trivial

theorem ofText_of_blockTokens {raw : String} {rows cols : Nat} {e : Error}
    (h : blockTokens raw rows cols = .error e) : e.OfText := by
  rcases error_of_blockTokens h with rfl | ⟨_, rfl⟩
  · trivial
  · trivial

end Literal

theorem ofText_ofEntries {α : Type} (rows cols : Nat) (entries : List α) :
    OfText (Matrix.ofEntries rows cols entries) := by
  unfold Matrix.ofEntries
  split
  · trivial
  · trivial

-- ── Lists and matrices ────────────────────────────────────────────────────────────

section Entries

variable {α : Type}

/-- The first text is read before the others, whatever it is read by. -/
theorem mapM_cons_eq (read : String → Except Error α) (text : String) (texts : List String) :
    (text :: texts).mapM read
      = match read text with
        | .error e => .error e
        | .ok value => (texts.mapM read).map (value :: ·) := by
  rw [List.mapM_cons]
  cases read text with
  | error e => rfl
  | ok value =>
      cases texts.mapM read with
      | error e => rfl
      | ok values => rfl

variable [Codec α]

theorem readAll_cons (text : String) (texts : List String) :
    (readAll (text :: texts) : Except Error (List α))
      = match (Codec.read text : Except Error α) with
        | .error e => .error e
        | .ok value => (readAll texts).map (value :: ·) :=
  mapM_cons_eq _ text texts

variable [BlamesText α]

theorem ofText_readAll (texts : List String) :
    OfText (readAll texts : Except Error (List α)) := by
  induction texts with
  | nil => trivial
  | cons text texts ih =>
      rw [readAll_cons]
      split
      · next hread => exact (BlamesText.ofText text .any).error hread
      · cases hrest : (readAll texts : Except Error (List α)) with
        | error e => exact ih.error hrest
        | ok values => trivial

instance : BlamesText (List α) where
  ofText raw shape := by
    simp only [Codec.decode]
    split
    · next htokens => exact Literal.ofText_of_entryTokens htokens
    · exact ofText_readAll _

instance {n : Nat} : BlamesText (FixedList α n) where
  ofText raw shape := by
    show OfText (if shape.size ≠ 0 ∧ shape.size ≠ n then _ else _)
    split
    · trivial
    · split
      · next hlist => exact (BlamesText.ofText (α := List α) ..).error hlist
      · split
        · trivial
        · trivial

instance : BlamesText (Matrix α) where
  ofText raw shape := by
    simp only [Codec.decode]
    split
    · next htokens => exact Literal.ofText_of_blockTokens htokens
    · split
      · next hread => exact (ofText_readAll _).error hread
      · exact ofText_ofEntries ..

end Entries

end ParamStore
