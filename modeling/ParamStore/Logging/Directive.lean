import ParamStore.Codec.Scalar
import ParamStore.Logging.Setup

/-!
# Filter directives — which messages a log lets through

A directive names a module, a span of it in square brackets, and a level after an equals sign; each
    of them may be missing, but not all. A span may name fields in braces, with commas between
    them. Levels have six names, in any case, and six numbers; no level at all stands for one as
    well. A filter is some directives with commas between them.

The pattern that a field's value may be given by is taken as it stands.

* **`isLevel`** — the levels.
* **`check`** — whether a text is a directive; `Fault` is why it may be none.
* **`rules`** — what a setup asks: whether a text is a filter, and whether one is a directive.
-/

namespace ParamStore.Logging

open Number

namespace Directive

/-- Why a text is no directive. -/
inductive Fault where
  | unknownLevel
  | malformed
deriving DecidableEq, Repr

/-- The wording of a fault. -/
def Fault.message : Fault → String
  | unknownLevel =>
    "error parsing level filter: expected one of \"off\", \"error\", \"warn\", \"info\", "
      ++ "\"debug\", \"trace\", or a number 0-5"
  | malformed => "invalid filter directive"

/-- The names of the levels. -/
def levelNames : List String := ["off", "error", "warn", "info", "debug", "trace"]

/-- The text is the name or the number of a level, or empty. -/
def isLevel (text : String) : Bool :=
  let named := text.isEmpty || levelNames.contains (lowered text)
  match IntKind.parse .usize text.toList with
  | .ok number => named || number.val ≤ 5
  | .error _ => named

/-- The name of a module starts with a letter, a digit, a hyphen, a colon or an underscore. -/
def startsName (c : Char) : Bool :=
  c.isAlphanum || 128 ≤ c.toNat || c = '-' || c = ':' || c = '_'

/-- A level, which may be closed by one comma. -/
def checkLevel (text : String) : Except Fault Unit :=
  match Text.split (· = ',') text with
  | [level] => if isLevel level then .ok () else .error .unknownLevel
  | level :: after =>
    if !isLevel level then .error .unknownLevel
    else if after = [""] then .ok () else .error .malformed
  | [] => .ok ()

/-- What may follow a span: nothing, or a level after an equals sign. -/
def checkAfterSpan : List Char → Except Fault Unit
  | [] => .ok ()
  | '=' :: level => checkLevel (String.ofList level)
  | _ => .error .malformed

/-- A span and what follows it: a name up to the closing bracket, or up to its fields. -/
def checkSpan (cs : List Char) : Except Fault Unit :=
  match cs.dropWhile fun c => c ≠ ']' && c ≠ '\x7b' with
  | ']' :: rest => checkAfterSpan rest
  | '\x7b' :: rest =>
    let fields := rest.takeWhile (· ≠ '\x7d')
    match rest.drop fields.length with
    | '\x7d' :: ']' :: rest =>
      if (Text.pieces (· = ',') fields).any List.isEmpty then .error .malformed
      else checkAfterSpan rest
    | _ => .error .malformed
  | _ => .error .malformed

/-- A directive, blanks around it aside. -/
def check (text : String) : Except Fault Unit :=
  match (Text.trim text).toList with
  | [] => .error .malformed
  | '[' :: rest => checkSpan rest
  | first :: rest =>
    if !startsName first then .error .malformed
    else
      match rest.dropWhile fun c => c ≠ '=' && c ≠ '[' && c ≠ ',' with
      | [] => .ok ()
      | '=' :: level => checkLevel (String.ofList level)
      | '[' :: rest => checkSpan rest
      | [','] => .ok ()
      | _ => .error .malformed

/-- Directives between commas; nothing between two commas is no directive and does no harm. -/
def checkFilter (text : String) : Except Fault Unit :=
  ((Text.split (· = ',') text).filter fun piece => !piece.isEmpty).forM check

/-- The rules for filters and directives. -/
def rules : FilterRules where
  isFilter text := (checkFilter text).isOk
  directive text := (check text).mapError Fault.message

end Directive

end ParamStore.Logging
