import ParamStore.Codec.Basic
import ParamStore.Text.Blank

/-!
# Literals — bracketed texts and the places where they are cut

A literal is a text between two brackets, blanks around it aside. A text with only one of the two
    brackets is malformed; a text with neither is a single entry. A literal is cut at separators
    that stand outside all inner brackets; a closing bracket too many is ignored.

* **`inner`** — what the brackets enclose.
* **`isLiteral`** — whether the text is bracketed.
* **`cutTop`** — the parts between top-level separators.
* **`tokens`** — the parts between any separators, without regard to brackets.
-/

namespace ParamStore.Literal

/-- The text is bracketed on both sides. -/
def isLiteral (raw : String) : Bool :=
  let cs := Text.trimChars raw.toList
  2 ≤ cs.length && cs.head? == some '[' && cs.getLast? == some ']'

/-- What the brackets enclose, nothing for a text without brackets. One bracket without the other
    is malformed. -/
def inner (raw : String) : Except Error (Option (List Char)) :=
  let cs := Text.trimChars raw.toList
  let opens := cs.head? == some '['
  let closes := cs.getLast? == some ']'
  match opens, closes with
  | true, true =>
    if 2 ≤ cs.length then .ok (some cs.tail.dropLast) else .error (.malformedLiteral raw)
  | false, false => .ok none
  | _, _ => .error (.malformedLiteral raw)

/-- A character put in front of the first part. -/
def grow (c : Char) : List (List Char) → List (List Char)
  | [] => [[c]]
  | part :: more => (c :: part) :: more

/-- The parts between separators at depth zero, starting at a given depth. Brackets belong to
    their part. -/
def cutFrom (separates : Char → Bool) : Nat → List Char → List (List Char)
  | _, [] => [[]]
  | depth, c :: cs =>
    if c = '[' then grow c (cutFrom separates (depth + 1) cs)
    else if c = ']' then grow c (cutFrom separates (depth - 1) cs)
    else if depth = 0 && separates c then [] :: cutFrom separates 0 cs
    else grow c (cutFrom separates depth cs)

/-- The parts between top-level separators. -/
def cutTop (separates : Char → Bool) (cs : List Char) : List (List Char) :=
  cutFrom separates 0 cs

/-- The non-blank parts between any of the separators, trimmed. -/
def tokens (separators raw : String) : List String :=
  ((Text.split (fun c => separators.toList.contains c) raw).map Text.trim).filter
    fun token => !token.isEmpty

-- ── Parts ─────────────────────────────────────────────────────────────────────────

/-- Growing leaves at least one part. -/
theorem grow_ne_nil (c : Char) (parts : List (List Char)) : grow c parts ≠ [] := by
  cases parts <;> simp [grow]

/-- **There is always a part.** -/
theorem cutFrom_ne_nil (separates : Char → Bool) (depth : Nat) (cs : List Char) :
    cutFrom separates depth cs ≠ [] := by
  cases cs with
  | nil => simp [cutFrom]
  | cons c cs =>
      unfold cutFrom
      split
      · exact grow_ne_nil _ _
      · split
        · exact grow_ne_nil _ _
        · split
          · simp
          · exact grow_ne_nil _ _

end ParamStore.Literal
