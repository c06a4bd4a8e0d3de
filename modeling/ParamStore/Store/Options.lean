import ParamStore.Json.Record

/-!
# Options — what a store does with defaults and on leaving

A store may write a used default back into its tree, may give a warning whenever it uses one, and
    may write its report to a log file when it goes away. Nothing of this is on unless
    asked for; the process-wide store warns and writes its log.

* **`Options`** — the flags and the log file.
* **`Options.ofJson?`** — read from a record whose fields may all be missing.
-/

namespace ParamStore

/-- What a store does with defaults and on leaving. -/
structure Options where
  recordDefaults : Bool
  warnOnDefault : Bool
  logOnExit : Bool
  logfile : String
deriving DecidableEq, Repr

namespace Options

/-- Where the log goes unless told otherwise. -/
def defaultLogfile : String := "data/log/paramtree.log"

/-- Nothing is on. -/
def quiet : Options := ⟨false, false, false, defaultLogfile⟩

instance : Inhabited Options := ⟨quiet⟩

/-- The options of the process-wide store. -/
def processWide : Options := ⟨false, true, true, defaultLogfile⟩

/-- The same options without the log on leaving. -/
def withoutLog (o : Options) : Options := { o with logOnExit := false }

/-- The names of the options, in order. -/
def fields : List String :=
  ["record_defaults", "warn_on_default_access", "log_on_exit", "logfile"]

/-- Options from a record; a missing one is as in `quiet`. -/
def ofJson? (j : Json) : Option Options :=
  match j.slots fields with
  | some [record, warn, log, file] => do
    let record ← record.withDefault Json.asBool false
    let warn ← warn.withDefault Json.asBool false
    let log ← log.withDefault Json.asBool false
    let file ← file.withDefault Json.asText defaultLogfile
    some ⟨record, warn, log, file⟩
  | _ => none

/-- The options by name. -/
def toJson (o : Options) : Json :=
  .object [("record_defaults", .bool o.recordDefaults),
    ("warn_on_default_access", .bool o.warnOnDefault), ("log_on_exit", .bool o.logOnExit),
    ("logfile", .string o.logfile)]

/-- Options from a text. -/
def parse? (text : String) : Option Options := (Json.parse text).bind ofJson?

end Options

end ParamStore
