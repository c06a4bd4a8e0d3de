import ParamStore.Command.Basic
import ParamStore.Text.Blank

/-!
# Reading a command line — options, words, and the command among them

A word that starts with two hyphens is an option, with its value after an equals sign or as the next
    word; a next word that looks like an option is no value, but a lone hyphen is. Two hyphens
    alone end the options: every later word is taken as it stands. An option that is not
    known, is given twice, lacks its value, or has one it cannot use makes the whole line no
    command. The options that every command has may stand before the command or after it;
    of one given in both places the later counts.

* **`Rule`** — what an option takes.
* **`scan`** — the options and the words of a line.
* **`Invocation.ofWords`** — the command of a line.
-/

namespace ParamStore.Command

/-- Why a line is no command. -/
inductive Usage where
  /-- It is not well-formed. -/
  | wrong
  /-- It asks for help. -/
  | help
deriving DecidableEq, Repr

/-- How often an option may be given, and whether it has values. -/
inductive Arity where
  | flag | once | many
deriving DecidableEq, Repr

/-- An option: its name, its arity, and the values it can use. -/
structure Rule where
  name : String
  arity : Arity
  fits : String → Bool

namespace Rule

/-- An option with any text as its value. -/
def text (name : String) : Rule := ⟨name, .once, fun _ => true⟩

/-- An option with the path of a file as its value. -/
def path (name : String) : Rule := ⟨name, .once, fun value => !value.isEmpty⟩

end Rule

/-- What a word of a line is by its look. -/
inductive Word where
  | plain
  | option (name : String) (attached : Option String)
  | help
  | ending
  | unknown
deriving DecidableEq, Repr

/-- An option by the characters after its hyphens. -/
def Word.ofOption (cs : List Char) : Word :=
  match Text.cutOnce (· = '=') cs with
  | some (name, value) => .option (String.ofList name) (some (String.ofList value))
  | none =>
    if cs = ['h', 'e', 'l', 'p'] then .help else .option (String.ofList cs) none

/-- What a word is. -/
def Word.of (word : String) : Word :=
  match word.toList with
  | ['-', '-'] => .ending
  | '-' :: '-' :: cs => .ofOption cs
  | ['-'] => .plain
  | '-' :: c :: _ => if c = 'h' then .help else .unknown
  | _ => .plain

/-- The options and the words of a line, in order. -/
structure Reading where
  options : List (String × String)
  words : List String
deriving DecidableEq, Repr

namespace Reading

/-- Nothing has been read. -/
def empty : Reading := ⟨[], []⟩

/-- The option was given. -/
def has (r : Reading) (name : String) : Bool := r.options.any fun entry => entry.1 == name

/-- The value of an option. -/
def value? (r : Reading) (name : String) : Option String := (r.options.lookup name)

/-- The value of an option, or what stands for it. -/
def valueOr (r : Reading) (name standsFor : String) : String := (r.value? name).getD standsFor

/-- All values of an option. -/
def values (r : Reading) (name : String) : List String :=
  (r.options.filter fun entry => entry.1 == name).map Prod.snd

/-- Adds an option with a value that it can use; only some options may be given again. -/
def addOption (r : Reading) (rule : Rule) (value : String) : Except Usage Reading :=
  if !rule.fits value || (rule.arity ≠ .many && r.has rule.name) then .error .wrong
  else .ok { r with options := r.options ++ [(rule.name, value)] }

/-- Adds words. -/
def addWords (r : Reading) (more : List String) : Reading := { r with words := r.words ++ more }

end Reading

/-- Reads the options and words of a line on top of what was read before. With `untilWord`, reading
    ends before the first plain word, and the rest of the line is handed back. -/
def scan (rules : List Rule) (untilWord : Bool) :
    Reading → List String → Except Usage (Reading × List String)
  | r, [] => .ok (r, [])
  | r, word :: rest =>
    match Word.of word with
    | .plain =>
      if untilWord then .ok (r, word :: rest)
      else scan rules untilWord (r.addWords [word]) rest
    | .ending => .ok (r.addWords rest, [])
    | .help => .error .help
    | .unknown => .error .wrong
    | .option name attached =>
      match rules.find? fun rule => rule.name == name with
      | none => .error .wrong
      | some rule =>
        match rule.arity, attached, rest with
        | .flag, none, rest =>
          match r.addOption rule "" with
          | .error e => .error e
          | .ok r => scan rules untilWord r rest
        | .flag, some _, _ => .error .wrong
        | _, some value, rest =>
          match r.addOption rule value with
          | .error e => .error e
          | .ok r => scan rules untilWord r rest
        | _, none, [] => .error .wrong
        | _, none, value :: rest =>
          match Word.of value with
          | .plain =>
            match r.addOption rule value with
            | .error e => .error e
            | .ok r => scan rules untilWord r rest
          | .help => .error .help
          | _ => .error .wrong

-- ── The commands ──────────────────────────────────────────────────────────────────

/-- The options of every command. -/
def globalRules : List Rule :=
  [.path "file", .text "log-level", .text "log-format", .text "log-output"]

/-- The options of a command by its name. -/
def rulesOf : String → Option (List Rule)
  | "report" => some [.text "prefix"]
  | "get" => some [.text "default", ⟨"kind", .once, fun value => (Kind.ofName? value).isSome⟩]
  | "keys" => some [.text "format"]
  | "merge" => some [.text "under", ⟨"overwrite", .flag, fun _ => true⟩]
  | "requests" => some [⟨"lookup", .many, fun _ => true⟩, .text "format"]
  | _ => none

/-- The action of a command, and the words that it leaves as overrides. -/
def Action.ofReading (command : String) (r : Reading) : Except Usage (Action × List String) :=
  match command, r.words with
  | "report", overrides => .ok (.report (r.valueOr "prefix" ""), overrides)
  | "get", key :: overrides =>
    let kind := ((r.value? "kind").bind Kind.ofName?).getD .string
    .ok (.get key (r.value? "default") kind, overrides)
  | "keys", overrides => .ok (.keys (r.valueOr "format" "text"), overrides)
  | "merge", other :: overrides =>
    if other.isEmpty then .error .wrong
    else .ok (.merge other (r.valueOr "under" "") (r.has "overwrite"), overrides)
  | "requests", overrides => .ok (.requests (r.values "lookup") (r.valueOr "format" "text"), overrides)
  | _, _ => .error .wrong

/-- The command of a line. -/
def Invocation.ofWords (line : List String) : Except Usage Invocation :=
  match scan globalRules true .empty line with
  | .error e => .error e
  | .ok (_, []) => .error .wrong
  | .ok (before, command :: rest) =>
    match rulesOf command with
    | none => .error (if command = "help" then .help else .wrong)
    | some rules =>
      match scan (globalRules ++ rules) false .empty rest with
      | .error e => .error e
      | .ok (after, _) =>
        match Action.ofReading command after with
        | .error e => .error e
        | .ok (action, overrides) =>
          let option (name : String) : Option String := (after.value? name).or (before.value? name)
          .ok ⟨option "file", option "log-level", option "log-format", option "log-output",
            action, overrides⟩

end ParamStore.Command
