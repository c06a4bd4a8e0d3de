import ParamStore.Codec.Basic
import ParamStore.Text.Blank
import ParamStore.Number.FloatText

/-!
# Scalars — texts, truth values, characters and numbers

A text is stored as it is. Every other scalar ignores the blanks around its text, with one
    exception: a text that is a single character is that character, blank or not. A refusal shows
    the text as it was given, blanks included.

* Truth values are written `true` and `false` and read from four pairs of words in any case.
* Numbers are written in decimal and read by the rules of their kind.
-/

namespace ParamStore

open Number

instance : Codec String where
  typeName := .named "alloc::string::" "String"
  encode s := s
  decode raw _ := .ok raw

/-- The truth value that a word stands for. -/
def truth? (word : String) : Option Bool :=
  if word ∈ ["true", "1", "yes", "on"] then some true
  else if word ∈ ["false", "0", "no", "off"] then some false
  else none

/-- ASCII letters in lower case, all else as it is. -/
def lowered (s : String) : String := String.ofList (s.toList.map Char.toLower)

instance : Codec Bool where
  typeName := .named "" "bool"
  encode b := if b then "true" else "false"
  decode raw _ :=
    match truth? (lowered (Text.trim raw)) with
    | some b => .ok b
    | none => .error (.unreadable raw "bool" "expected true/false, 1/0, yes/no or on/off")

/-- The only character of a text. -/
def only? : List Char → Option Char
  | [c] => some c
  | _ => none

instance : Codec Char where
  typeName := .named "" "char"
  encode c := String.ofList [c]
  decode raw _ :=
    match only? raw.toList with
    | some c => .ok c
    | none =>
      match only? (Text.trimChars raw.toList) with
      | some c => .ok c
      | none => .error (.unreadable raw "char" "expected exactly one character")

instance (k : IntKind) : Codec (Ranged k) where
  typeName := .named "" k.name
  encode n := decimal n.val
  decode raw _ :=
    match k.parse (Text.trimChars raw.toList) with
    | .ok n => .ok n
    | .error fault => .error (.unreadable raw k.name fault.message)

instance (f : BinaryFormat) : Codec (Binary f) where
  typeName := .named "" f.name
  encode x := x.plain
  decode raw _ :=
    match Binary.parse (Text.trimChars raw.toList) with
    | .ok x => .ok x
    | .error fault => .error (.unreadable raw f.name fault.message)

-- ── Round trips ───────────────────────────────────────────────────────────────────

/-- **A text is read back as it was written.** -/
theorem read_encode_string (s : String) : Codec.read (Codec.encode s) = Except.ok s := rfl

/-- **A truth value is read back.** -/
theorem read_encode_bool (b : Bool) : Codec.read (Codec.encode b) = Except.ok b := by
  cases b <;> rfl

end ParamStore
