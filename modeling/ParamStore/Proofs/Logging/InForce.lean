import ParamStore.Logging.Directive

/-!
# Settings in force — what is checked before a log is made

What the environment says comes before what a configuration says, and that before the standard. The
    setting of which this holds is in force. Setting up a log decides everything before it
    touches a file, so a directory that has changed tells that all checks have passed and that the
    destination in force is a file. A destination in force that is none is refused. A form in force
    that is none is not: where the environment names it, it is passed over as if it had not been
    said, and the configuration's own form is used.

* **`inForce`** — a setting in force.
* **`OnlyLogging`** — refusals that are about logging; `onlyLogging_settle` says that all are.
* **`settle_eq_ok_iff`** — what is checked.
* **`begin_checks_settings`** — what a setup does with the settings in force.
* **`misnamed_form_passed_over`** — a form in force that is none, and a log that is made.
-/

namespace ParamStore.Logging

/-- The setting in force: what the environment says, or else the configuration, or else the
    standard. -/
def inForce (said : Option String) (config : Option Settings) (field : Settings → String) :
    String :=
  said.getD ((config.map field).getD (field .standard))

theorem inForce_eq (said : Option String) (config : Option Settings) (field : Settings → String) :
    inForce said config field = said.getD (field (config.getD .standard)) := by
  cases config <;> rfl

-- ── Names ─────────────────────────────────────────────────────────────────────────

/-- The names of the forms. -/
def Form.names : List String := ["text", "json"]

/-- The names of the destinations. -/
def Destination.names : List String := ["stdout", "stderr", "file"]

/-- A refusal, if there is one, is about logging. -/
def OnlyLogging {α : Type} (r : Except Error α) : Prop :=
  ∀ e, r = .error e → ∃ reason, e = .logging reason

theorem onlyLogging_ok {α : Type} (a : α) : OnlyLogging (.ok a) := by
  intro e h
  cases h

theorem onlyLogging_error {α : Type} (reason : String) :
    OnlyLogging (.error (.logging reason) : Except Error α) := by
  intro e h
  exact ⟨reason, (Except.error.inj h).symm⟩

/-- A refusal that is handed on is about the same. -/
theorem OnlyLogging.of_error {α β : Type} {r : Except Error α} (h : OnlyLogging r) {e : Error}
    (he : r = .error e) : OnlyLogging (.error e : Except Error β) := by
  obtain ⟨reason, rfl⟩ := h e he
  exact onlyLogging_error reason

/-- **A form is read from its name**, and from no other text. -/
theorem Form.ofName_succeeds_iff {name : String} :
    (∃ form, Form.ofName name = .ok form) ↔ name ∈ Form.names := by
  unfold Form.ofName
  split
  · exact iff_of_true ⟨_, rfl⟩ (by decide)
  · exact iff_of_true ⟨_, rfl⟩ (by decide)
  · next htext hjson =>
      refine iff_of_false (by simp) ?_
      simpa [Form.names] using And.intro htext hjson

theorem Form.onlyLogging_ofName (name : String) : OnlyLogging (Form.ofName name) := by
  unfold Form.ofName
  split
  · exact onlyLogging_ok _
  · exact onlyLogging_ok _
  · exact onlyLogging_error _

/-- **A destination is read from its name**, and from no other text. -/
theorem Destination.ofName_succeeds_iff {name : String} :
    (∃ destination, Destination.ofName name = .ok destination) ↔ name ∈ Destination.names := by
  unfold Destination.ofName
  split
  · exact iff_of_true ⟨_, rfl⟩ (by decide)
  · exact iff_of_true ⟨_, rfl⟩ (by decide)
  · exact iff_of_true ⟨_, rfl⟩ (by decide)
  · next hstdout hstderr hfile =>
      refine iff_of_false (by simp) ?_
      simpa [Destination.names] using And.intro hstdout (And.intro hstderr hfile)

theorem Destination.ofName_eq_file_iff {name : String} :
    Destination.ofName name = .ok .file ↔ name = "file" := by
  constructor
  · intro h
    unfold Destination.ofName at h
    split at h
    · cases h
    · cases h
    · rfl
    · cases h
  · rintro rfl
    rfl

theorem Destination.onlyLogging_ofName (name : String) : OnlyLogging (Destination.ofName name) := by
  unfold Destination.ofName
  split
  · exact onlyLogging_ok _
  · exact onlyLogging_ok _
  · exact onlyLogging_ok _
  · exact onlyLogging_error _

namespace Setup

-- ── What is checked ───────────────────────────────────────────────────────────────

theorem onlyLogging_checkModules (rules : FilterRules) (levels : List (String × String)) :
    OnlyLogging (checkModules rules levels) := by
  induction levels with
  | nil => exact onlyLogging_ok ()
  | cons entry rest ih =>
      rw [checkModules]
      split
      · exact ih
      · exact onlyLogging_error _

theorem onlyLogging_checkLevels (rules : FilterRules) (settings : Settings) (env : Environment) :
    OnlyLogging (checkLevels rules settings env) := by
  rw [checkLevels]
  split
  · exact onlyLogging_ok ()
  · exact onlyLogging_checkModules rules _

/-- **A form that the environment names wrongly is passed over.** -/
theorem chooseForm_of_misnamed {env : Environment} {name : String} (hsaid : env.format = some name)
    (hname : name ∉ Form.names) (settings : Settings) :
    chooseForm settings env = Form.ofName settings.format := by
  rw [chooseForm, hsaid, Option.map_some]
  split
  · next form hform =>
      exact absurd (Form.ofName_succeeds_iff.mp ⟨form, Option.some.inj hform⟩) hname
  · rfl

theorem chooseForm_of_silent {env : Environment} (hsaid : env.format = none) (settings : Settings) :
    chooseForm settings env = Form.ofName settings.format := by
  rw [chooseForm, hsaid]
  rfl

theorem chooseForm_of_named {env : Environment} {name : String} {form : Form}
    (hsaid : env.format = some name) (hform : Form.ofName name = .ok form) (settings : Settings) :
    chooseForm settings env = .ok form := by
  rw [chooseForm, hsaid, Option.map_some, hform]

theorem onlyLogging_chooseForm (settings : Settings) (env : Environment) :
    OnlyLogging (chooseForm settings env) := by
  rw [chooseForm]
  split
  · exact onlyLogging_ok _
  · exact Form.onlyLogging_ofName _

/-- A form is chosen if the one that the environment names, or else the configuration, is a form, or
    else the configuration's own is. -/
theorem chooseForm_succeeds_iff {settings : Settings} {env : Environment} :
    (∃ form, chooseForm settings env = .ok form)
      ↔ env.format.getD settings.format ∈ Form.names ∨ settings.format ∈ Form.names := by
  cases hsaid : env.format with
  | none =>
      rw [chooseForm_of_silent hsaid, Form.ofName_succeeds_iff, Option.getD_none, or_self]
  | some name =>
      rw [Option.getD_some]
      by_cases hname : name ∈ Form.names
      · obtain ⟨form, hform⟩ := Form.ofName_succeeds_iff.mpr hname
        exact iff_of_true ⟨form, chooseForm_of_named hsaid hform settings⟩ (.inl hname)
      · rw [chooseForm_of_misnamed hsaid hname, Form.ofName_succeeds_iff]
        exact (or_iff_right hname).symm

/-- **What has to hold for a setup to get to a destination**: its levels, its form and its destination
    pass their checks. -/
theorem settle_eq_ok_iff {rules : FilterRules} {settings : Settings} {env : Environment}
    {destination : Destination} : settle rules settings env = .ok destination
      ↔ checkLevels rules settings env = .ok () ∧ (∃ form, chooseForm settings env = .ok form)
        ∧ chooseDestination settings env = .ok destination := by
  rw [settle]
  cases checkLevels rules settings env with
  | error e => simp
  | ok _ =>
      cases chooseForm settings env with
      | error e => simp
      | ok form => simp

/-- **All refusals before a file is touched are about logging.** -/
theorem onlyLogging_settle (rules : FilterRules) (settings : Settings) (env : Environment) :
    OnlyLogging (settle rules settings env) := by
  rw [settle]
  split
  · next hlevels => exact (onlyLogging_checkLevels rules settings env).of_error hlevels
  · split
    · next hform => exact (onlyLogging_chooseForm settings env).of_error hform
    · exact Destination.onlyLogging_ofName _

-- ── What a setup does ─────────────────────────────────────────────────────────────

/-- A setup that is refused as one of logging, and leaves the directory as it was. -/
def RefusedUntouched (d : Directory) (run : Attempt Directory Unit) : Prop :=
  (∃ reason, run.result = .error (.logging reason)) ∧ run.state = d

/-- **What is not settled is refused**, and nothing is written. -/
theorem refusedUntouched_of_unsettled {rules : FilterRules} {settings : Settings} {env : Environment}
    (h : ∀ destination, settle rules settings env ≠ .ok destination) (taken : Bool)
    (d : Directory) : RefusedUntouched d (begin rules settings env taken d) := by
  cases hsettled : settle rules settings env with
  | ok destination => exact absurd hsettled (h destination)
  | error e =>
      obtain ⟨reason, rfl⟩ := onlyLogging_settle rules settings env e hsettled
      rw [begin, hsettled]
      exact ⟨⟨reason, rfl⟩, rfl⟩

/-- **A directory that has changed has the file of a log.** -/
theorem settle_of_state_ne {rules : FilterRules} {settings : Settings} {env : Environment}
    {taken : Bool} {d : Directory} (h : (begin rules settings env taken d).state ≠ d) :
    settle rules settings env = .ok .file
      ∧ (begin rules settings env taken d).state = (openFile settings.file d).state := by
  rw [begin_state] at h ⊢
  split at h
  · next hfile => exact ⟨hfile, rfl⟩
  · exact absurd rfl h

/-- A form that the environment names wrongly makes no difference to a setup. -/
theorem begin_of_misnamed {env : Environment} {name : String} (hsaid : env.format = some name)
    (hname : name ∉ Form.names) (rules : FilterRules) (settings : Settings) (taken : Bool)
    (d : Directory) :
    begin rules settings env taken d = begin rules settings { env with format := none } taken d := by
  have hsilent : chooseForm settings { env with format := none } = Form.ofName settings.format :=
    chooseForm_of_silent rfl settings
  have hsettle : settle rules settings env = settle rules settings { env with format := none } := by
    rw [settle, settle, hsilent, chooseForm_of_misnamed hsaid hname]
    rfl
  rw [begin, begin, hsettle]

/-- **What a setup does with the settings in force**, under any rules for filters and directives. A
    destination in force that is none is refused, and nothing is written; so is a form in force
    that is none, if the configuration's own form is none either. But if that is a form, the one
    in force is the environment's, and the setup goes on as if it had not been named. The
    directory changes only by the file of the log, when the levels have passed, one of the two
    forms is a form, and the destination in force is a file. -/
theorem begin_checks_settings (rules : FilterRules) (config : Option Settings) (env : Environment)
    (taken : Bool) (d : Directory) :
    let settings := config.getD .standard
    let format := inForce env.format config Settings.format
    let output := inForce env.output config Settings.output
    let run := begin rules settings env taken d
    (output ∉ Destination.names → RefusedUntouched d run)
    ∧ (format ∉ Form.names → settings.format ∉ Form.names → RefusedUntouched d run)
    ∧ (format ∉ Form.names → settings.format ∈ Form.names → env.format = some format
      ∧ run = begin rules settings { env with format := none } taken d)
    ∧ (run.state ≠ d → checkLevels rules settings env = .ok ()
      ∧ (format ∈ Form.names ∨ settings.format ∈ Form.names) ∧ output = "file"
      ∧ run.state = (openFile settings.file d).state) := by
  intro settings format output run
  have hformat : format = env.format.getD settings.format := inForce_eq env.format config _
  have houtput : output = env.output.getD settings.output := inForce_eq env.output config _
  refine ⟨?destination, ?form, ?passed, ?written⟩
  case destination =>
    intro hnone
    refine refusedUntouched_of_unsettled (fun destination hsettled => hnone ?_) taken d
    obtain ⟨-, -, hchosen⟩ := settle_eq_ok_iff.mp hsettled
    rw [houtput]
    exact Destination.ofName_succeeds_iff.mp ⟨destination, hchosen⟩
  case form =>
    intro hnone hown
    refine refusedUntouched_of_unsettled (fun destination hsettled => ?_) taken d
    obtain ⟨-, hchosen, -⟩ := settle_eq_ok_iff.mp hsettled
    rcases chooseForm_succeeds_iff.mp hchosen with hsaid | hsaid
    · exact hnone (hformat ▸ hsaid)
    · exact hown hsaid
  case passed =>
    intro hnone hown
    cases hsaid : env.format with
    | none =>
        rw [hformat, hsaid] at hnone
        exact absurd hown hnone
    | some name =>
        obtain rfl : format = name := by rw [hformat, hsaid, Option.getD_some]
        exact ⟨rfl, begin_of_misnamed hsaid hnone rules settings taken d⟩
  case written =>
    intro hchanged
    obtain ⟨hsettled, hstate⟩ := settle_of_state_ne hchanged
    obtain ⟨hlevels, hchosen, hdestination⟩ := settle_eq_ok_iff.mp hsettled
    refine ⟨hlevels, ?_, ?_, hstate⟩
    · rw [hformat]
      exact chooseForm_succeeds_iff.mp hchosen
    · rw [houtput]
      exact Destination.ofName_eq_file_iff.mp hdestination

/-- A destination of the environment that is none, two forms that are none, a form of the environment
    that is passed over, and a log in the file that a configuration names. -/
theorem begin_checks_settings_runs :
    let rules := Directive.rules
    let config : Option Settings := some { Settings.standard with file := "z.log" }
    let misformed : Option Settings := some { Settings.standard with format := "yaml" }
    let said (format output : Option String) : Environment := ⟨none, none, format, output⟩
    let passedOver := said (some "xml") (some "file")
    let d := Directory.empty
    RefusedUntouched d (begin rules (config.getD .standard) (said none (some "tty")) false d)
      ∧ RefusedUntouched d (begin rules (misformed.getD .standard) (said (some "xml") none) false d)
      ∧ begin rules (config.getD .standard) passedOver false d
        = begin rules (config.getD .standard) (said none (some "file")) false d
      ∧ (begin rules (config.getD .standard) (said none (some "file")) true d).state.list = ["z.log"]
      ∧ checkLevels rules (config.getD .standard) (said none (some "file")) = .ok () := by
  intro rules config misformed said passedOver d
  obtain ⟨hdestination, -⟩ := begin_checks_settings rules config (said none (some "tty")) false d
  obtain ⟨-, hform, -⟩ := begin_checks_settings rules misformed (said (some "xml") none) false d
  obtain ⟨-, -, hpassed, -⟩ := begin_checks_settings rules config passedOver false d
  obtain ⟨-, -, -, hwritten⟩ := begin_checks_settings rules config (said none (some "file")) true d
  have hlist : (begin rules (config.getD .standard) (said none (some "file")) true d).state.list
      = ["z.log"] := by decide +kernel
  refine ⟨hdestination (by decide), hform (by decide) (by decide),
    (hpassed (by decide) (by decide)).2, hlist, (hwritten fun hsame => ?_).1⟩
  rw [hsame] at hlist
  exact absurd hlist (by decide +kernel)

/-- **A form in force that is none does not stop a setup**: the environment names one that is no form,
    and the log is made in its file, whether or not the process takes it. -/
theorem misnamed_form_passed_over :
    let rules := Directive.rules
    let config : Option Settings := some { Settings.standard with output := "file" }
    let env := { Environment.silent with format := some "xml" }
    inForce env.format config Settings.format ∉ Form.names
      ∧ (begin rules (config.getD .standard) env false .empty).result = .ok ()
      ∧ (begin rules (config.getD .standard) env false .empty).state.list
        = ["data/log/paramtree-trace.log"]
      ∧ (begin rules (config.getD .standard) env true .empty).state.list
        = ["data/log/paramtree-trace.log"] := by
  intro rules config env
  exact ⟨by decide, Attempt.succeeds_iff.mp (by decide +kernel), by decide +kernel,
    by decide +kernel⟩

end Setup

end ParamStore.Logging
