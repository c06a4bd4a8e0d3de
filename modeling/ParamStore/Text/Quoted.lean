import ParamStore.Text.Glyphless

/-!
# Quoted text — how a diagnostic shows a text or a character

A quoted text stands between two quotes. Inside, the quote itself and the backslash follow a
    backslash, five controls have a letter, and a character without a glyph is shown by its code
    in hexadecimal. A text takes double quotes and a single character takes single ones, so each
    leaves the other's quote as it is.

* **`escape`** — one character of a quoted text.
* **`quoted`**, **`quotedChar`** — the two forms.
-/

namespace ParamStore.Text

open Glyphless (isGlyphless)

/-- The code of a character in lower-case hexadecimal, between braces. -/
def byCode (c : Char) : List Char :=
  ['\\', 'u', '\x7b'] ++ Nat.toDigits 16 c.toNat ++ ['\x7d']

/-- One character between two `quote`s. -/
def escape (quote c : Char) : List Char :=
  if c = '\x00' then ['\\', '0']
  else if c = '\t' then ['\\', 't']
  else if c = '\n' then ['\\', 'n']
  else if c = '\x0d' then ['\\', 'r']
  else if c = '\\' then ['\\', '\\']
  else if c = quote then ['\\', c]
  else if isGlyphless c then byCode c
  else [c]

/-- A text in double quotes. -/
def quoted (s : String) : String :=
  String.ofList ('"' :: s.toList.flatMap (escape '"') ++ ['"'])

/-- A character in single quotes. -/
def quotedChar (c : Char) : String :=
  String.ofList ('\x27' :: escape '\x27' c ++ ['\x27'])

end ParamStore.Text
