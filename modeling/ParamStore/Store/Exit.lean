import ParamStore.Directory
import ParamStore.Store.Basic

/-!
# Leaving a store — the log file

The log of a store is its report, followed by the requests of the keys in conflict if there are
    any. It is written on demand, and once more when a store that asks for it goes away; a failure
    then is only remarked on.

* **`Store.logText`** — the log.
* **`Store.writeLog`** — writes it, making the folders of the log file.
* **`Store.close`** — what happens when the store goes away.
-/

namespace ParamStore.Store

/-- The report, and the keys in conflict with their requests. -/
def logText (s : Store) : String := s.tree.report "" ++ s.ledger.conflictPart

/-- Writes the log to the log file. -/
def writeLog (s : Store) (d : Directory) : Attempt Directory Unit :=
  d.write s.options.logfile s.logText

/-- The store goes away: the log is written if the options ask for it. -/
def close (s : Store) (d : Directory) : Directory × List Warning :=
  if s.options.logOnExit then
    let written := s.writeLog d
    (written.state,
      match written.result with
      | .ok _ => []
      | .error _ => [.logNotWritten s.options.logfile])
  else (d, [])

end ParamStore.Store
