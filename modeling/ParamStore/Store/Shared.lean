import ParamStore.Store.Exit
import ParamStore.Store.Lookup

/-!
# The process-wide store

One store serves the whole process. Another store can be installed in its place, which hands the
    previous one back; it can be thrown away for a fresh one without its log being written; and
    its log is written only when that is asked for.

* **`Shared`** — the store that serves the process.
* **`Shared.param`** — a look-up in it, written down at a call site.
-/

namespace ParamStore

/-- The store that serves the process. -/
structure Shared where
  store : Store

namespace Shared

/-- A store that has not been used. -/
def fresh : Shared := ⟨.new .processWide⟩

instance : Inhabited Shared := ⟨fresh⟩

/-- Puts a store in place and hands the previous one back. -/
def install (g : Shared) (s : Store) : Shared × Store := (⟨s⟩, g.store)

/-- Starts over with a fresh store; the old one goes away quietly. -/
def reset (_ : Shared) : Shared := fresh

/-- Writes the log of the store. -/
def flush (g : Shared) (d : Directory) : Attempt Directory Unit := g.store.writeLog d

/-- A look-up written down at a call site. -/
def param {α : Type} [Codec α] (g : Shared) (key : String) (default : α)
    (validator : Validator α) (site : CallSite) : Outcome α :=
  g.store.getRequested key default validator .any (some site)

end Shared

end ParamStore
