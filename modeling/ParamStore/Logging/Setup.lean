import ParamStore.Directory
import ParamStore.Logging.Settings

/-!
# Setting logging up — from settings and the environment to a place for the log

What the environment says comes before the settings. A filter of its own, if it is one, settles
    what is let through; else the settings' levels and then the environment's levels for single
    modules have to be directives, unless everything is off. A form that the environment names
    wrongly is passed over; a destination that it names wrongly is refused, as are wrong
    settings. If the log goes to a file, the file is made. A process takes one log only.

What a filter and a directive are is not decided here: a setup is given the rules for them, and
    everything that is said about it holds under any rules.

* **`Environment`** — what the environment says.
* **`FilterRules`** — which texts are filters and directives.
* **`Setup.checkLevels`**, **`Setup.chooseForm`**, **`Setup.chooseDestination`** — the decisions.
* **`Setup.settle`** — all of them, in this order.
* **`Setup.begin`** — the decisions and the file of the log; `begin_state` says what it leaves.
-/

namespace ParamStore.Logging

/-- What the environment says about logging. -/
structure Environment where
  filter : Option String
  modules : Option String
  format : Option String
  output : Option String
deriving DecidableEq, Repr

/-- An environment that says nothing. -/
def Environment.silent : Environment := ⟨none, none, none, none⟩

/-- The rules for what is let through: which texts are filters, and which are directives, with a
    reason for every text that is none. -/
structure FilterRules where
  isFilter : String → Bool
  directive : String → Except String Unit

/-- The forms of a log. -/
inductive Form where
  | text | json
deriving DecidableEq, Repr

/-- Where a log goes. -/
inductive Destination where
  | stdout | stderr | file
deriving DecidableEq, Repr

/-- A form by its name. -/
def Form.ofName : String → Except Error Form
  | "text" => .ok text
  | "json" => .ok json
  | other => .error (.logging ("Invalid log format: " ++ other ++ " (must be 'json' or 'text')"))

/-- A destination by its name. -/
def Destination.ofName : String → Except Error Destination
  | "stdout" => .ok stdout
  | "stderr" => .ok stderr
  | "file" => .ok file
  | other =>
    .error (.logging
      ("Invalid log output: " ++ other ++ " (must be 'stdout', 'stderr' or 'file')"))

namespace Setup

/-- The environment's levels for single modules: between commas, with an equals sign between name
    and level. What has no equals sign is passed over. -/
def modulesOf (text : String) : List (String × String) :=
  (Text.split (· = ',') text).filterMap fun piece =>
    (Text.splitOnce (· = '=') piece).map fun halves => (Text.trim halves.1, Text.trim halves.2)

/-- The levels of single modules that come into play, in order. -/
def moduleLevels (settings : Settings) (env : Environment) : List (String × String) :=
  settings.modules ++ (env.modules.map modulesOf).getD []

/-- The environment gives a filter of its own. -/
def hasFilter (rules : FilterRules) (env : Environment) : Bool :=
  match env.filter with
  | some text => rules.isFilter text
  | none => false

/-- The directive that gives a module a level. -/
def moduleDirective (name level : String) : String := name ++ "=" ++ level

/-- Levels of single modules are directives. -/
def checkModules (rules : FilterRules) : List (String × String) → Except Error Unit
  | [] => .ok ()
  | (name, level) :: rest =>
    match rules.directive (moduleDirective name level) with
    | .ok _ => checkModules rules rest
    | .error reason => .error (.logging ("Invalid log directive: " ++ reason))

/-- What is let through is well said. -/
def checkLevels (rules : FilterRules) (settings : Settings) (env : Environment) :
    Except Error Unit :=
  if hasFilter rules env || settings.level = "off" then .ok ()
  else checkModules rules (moduleLevels settings env)

/-- The form of the log. -/
def chooseForm (settings : Settings) (env : Environment) : Except Error Form :=
  match env.format.map Form.ofName with
  | some (.ok form) => .ok form
  | _ => Form.ofName settings.format

/-- The destination of the log. -/
def chooseDestination (settings : Settings) (env : Environment) : Except Error Destination :=
  Destination.ofName (env.output.getD settings.output)

/-- Makes the file of the log, keeping one that is there. -/
def openFile (file : String) (d : Directory) : Attempt Directory Unit :=
  let opened := d.touch file
  match opened.result with
  | .ok _ => opened
  | .error _ => .refuse (.logging ("Failed to open log file " ++ Text.quoted file)) opened.state

/-- Everything that is decided before a file is touched: levels, form, destination, in this
    order. -/
def settle (rules : FilterRules) (settings : Settings) (env : Environment) :
    Except Error Destination :=
  match checkLevels rules settings env with
  | .error e => .error e
  | .ok _ =>
    match chooseForm settings env with
    | .error e => .error e
    | .ok _ => chooseDestination settings env

/-- Sets logging up. `taken` says that the process has a log already. -/
def begin (rules : FilterRules) (settings : Settings) (env : Environment) (taken : Bool)
    (d : Directory) : Attempt Directory Unit :=
  match settle rules settings env with
  | .error e => .refuse e d
  | .ok destination =>
    let opened : Attempt Directory Unit :=
      match destination with
      | .file => openFile settings.file d
      | .stdout | .stderr => .pure () d
    opened.andThen fun _ d =>
      if taken then
        .refuse (.logging "a global default trace dispatcher has already been set") d
      else .pure () d

/-- **Only a log that goes to a file touches the directory**, and only after everything has been
    decided. -/
theorem begin_state (rules : FilterRules) (settings : Settings) (env : Environment) (taken : Bool)
    (d : Directory) :
    (begin rules settings env taken d).state =
      match settle rules settings env with
      | .ok .file => (openFile settings.file d).state
      | _ => d := by
  have after : ∀ a : Attempt Directory Unit,
      (a.andThen fun _ d =>
        if taken then
          Attempt.refuse (.logging "a global default trace dispatcher has already been set") d
        else .pure () d).state = a.state := by
    intro a
    unfold Attempt.andThen
    split
    · split <;> rfl
    · rfl
  unfold begin
  split
  · next e decided => rw [decided]; rfl
  · next destination decided =>
      rw [decided]
      cases destination
      · exact after _
      · exact after _
      · exact after _

end Setup

end ParamStore.Logging
