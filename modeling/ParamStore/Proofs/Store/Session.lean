import ParamStore.Proofs.Ledger.Conflict
import ParamStore.Proofs.Store.Consult

/-!
# Sessions — look-ups one after the other

A session is a run of look-ups on one store, each with its own type, and what a session leaves in the
    ledger is the sum of what its look-ups record. So the audit can be settled for sessions:
    two look-ups of one session that bring different defaults are shown together exactly if
    their keys are the same text.

The tree is less strict. It drops the blanks around a key and around each of its names, so two
    spellings can name one place, and then the disagreement of two look-ups about one stored
    value is not shown: `respelled_key_escapes`.

* **`Ask`**, **`Store.run`** — look-ups as data, and sessions.
* **`lists_after`**, **`lists_run`** — what one look-up and what a session leave in the ledger.
* **`disagreement_shown_iff`** — which disagreements of a session the audit shows.
-/

namespace ParamStore

/-- A look-up with all that it is given. -/
inductive Ask : Type 1 where
  | plain {α : Type} [Codec α] (key : String) (validator : Validator α) (shape : Shape)
  | requested {α : Type} [Codec α] (key : String) (default : α) (validator : Validator α)
      (shape : Shape) (site : Option CallSite)
  | list {α : Type} [Codec α] (key : String) (default : α) (separators : String)
      (validator : Validator α)

namespace Ask

/-- The request that a look-up makes; a plain one makes none. -/
def request? : Ask → Option Request
  | plain .. => none
  | requested key default validator _ site =>
    some (Store.requestOf key (Codec.encode default) validator site)
  | list key default _ validator =>
    some (.unplaced key (Codec.encode default) validator.name)

/-- The store that a look-up leaves. -/
def after (s : Store) : Ask → Store
  | plain .. => s
  | requested key default validator shape site =>
    (s.getRequested key default validator shape site).store
  | list key default separators validator => (s.getList key default separators validator).store

/-- A look-up leaves what the consultation for its request leaves. -/
theorem after_of_request {ask : Ask} {r : Request} (h : ask.request? = some r) (s : Store) :
    ask.after s = (s.consult r).2.1 := by
  cases ask with
  | plain => exact nomatch h
  | requested key default validator shape site =>
      obtain rfl := Option.some.inj h
      exact Store.getRequested_store ..
  | list key default separators validator =>
      obtain rfl := Option.some.inj h
      exact Store.getList_store ..

theorem after_of_plain {ask : Ask} (h : ask.request? = none) (s : Store) : ask.after s = s := by
  cases ask with
  | plain => rfl
  | requested => exact nomatch h
  | list => exact nomatch h

theorem after_reachable {s : Store} (h : s.Reachable) (ask : Ask) : (ask.after s).Reachable := by
  cases ask with
  | plain => exact h
  | requested key default validator shape site =>
      exact .getRequested h key default validator shape site
  | list key default separators validator => exact .getList h key default separators validator

/-- **A look-up lists its request**, and leaves all else in the ledger as it was. -/
theorem lists_after {ask : Ask} {s : Store} {key : String} {r : Request} :
    (ask.after s).ledger.Lists key r
      ↔ s.ledger.Lists key r ∨ (ask.request? = some r ∧ key = r.key) := by
  cases hask : ask.request? with
  | none => simp [after_of_plain hask]
  | some made =>
      rw [after_of_request hask, Store.consult_ledger, Ledger.lists_record, Option.some.injEq]
      constructor
      · rintro (hold | ⟨hkey, rfl⟩)
        · exact .inl hold
        · exact .inr ⟨rfl, hkey⟩
      · rintro (hold | ⟨rfl, hkey⟩)
        · exact .inl hold
        · exact .inr ⟨hkey, rfl⟩

end Ask

namespace Store

/-- Look-ups one after the other. -/
def run (s : Store) (asks : List Ask) : Store := asks.foldl (fun s ask => ask.after s) s

@[simp] theorem run_nil (s : Store) : s.run [] = s := rfl
@[simp] theorem run_cons (s : Store) (ask : Ask) (asks : List Ask) :
    s.run (ask :: asks) = (ask.after s).run asks := rfl

theorem run_reachable {s : Store} (h : s.Reachable) (asks : List Ask) :
    (s.run asks).Reachable := by
  induction asks generalizing s with
  | nil => exact h
  | cons ask asks ih => exact ih (ask.after_reachable h)

/-- **A session lists the requests of its look-ups**, and leaves all else in the ledger as it was. -/
theorem lists_run {s : Store} {asks : List Ask} {key : String} {r : Request} :
    (s.run asks).ledger.Lists key r
      ↔ s.ledger.Lists key r ∨ ((∃ ask ∈ asks, ask.request? = some r) ∧ key = r.key) := by
  induction asks generalizing s with
  | nil => simp
  | cons ask asks ih =>
      rw [run_cons, ih, Ask.lists_after]
      simp only [List.mem_cons, exists_eq_or_imp]
      rw [or_and_right, or_assoc]

-- ── Disagreements ─────────────────────────────────────────────────────────────────

/-- **Two look-ups of a session with different defaults are shown together exactly if their keys are
    the same text.** -/
theorem disagreement_shown_iff {s : Store} (h : s.Reachable) {asks : List Ask} {a b : Request}
    (ha : ∃ ask ∈ asks, ask.request? = some a) (hb : ∃ ask ∈ asks, ask.request? = some b)
    (hdiffers : a.default ≠ b.default) :
    (∃ entry ∈ (s.run asks).ledger.mismatches, a ∈ entry.2 ∧ b ∈ entry.2) ↔ a.key = b.key := by
  rw [Ledger.shown_together_iff (run_reachable h asks).ledger hdiffers]
  have hlistsA : (s.run asks).ledger.Lists a.key a := lists_run.mpr (.inr ⟨ha, rfl⟩)
  have hlistsB : (s.run asks).ledger.Lists b.key b := lists_run.mpr (.inr ⟨hb, rfl⟩)
  exact ⟨fun hshown => hshown.2.2, fun hkey => ⟨hlistsA, hlistsB, hkey⟩⟩

/-- One key asked for three times, once as a list: the two defaults are shown together. -/
theorem disagreement_shown_thrice :
    let asks : List Ask :=
      [.requested "a" "1" .any .any none, .requested "b" "1" .any .any none,
        .list "a" "2" ";" .any]
    let a := Request.unplaced "a" "1" "ValidateAny"
    let b := Request.unplaced "a" "2" "ValidateAny"
    empty.Reachable ∧ a.default ≠ b.default
      ∧ ∃ entry ∈ (empty.run asks).ledger.mismatches, a ∈ entry.2 ∧ b ∈ entry.2 := by
  intro asks a b
  have hempty : empty.Reachable := .ofTree .empty .quiet
  have hdiffers : a.default ≠ b.default := by decide
  have ha : ∃ ask ∈ asks, ask.request? = some a := ⟨_, .head _, rfl⟩
  have hb : ∃ ask ∈ asks, ask.request? = some b := ⟨_, .tail _ (.tail _ (.head _)), rfl⟩
  exact ⟨hempty, hdiffers, (disagreement_shown_iff hempty ha hb hdiffers).mpr rfl⟩

/-- **A key spelled in two ways escapes the audit.** Both look-ups address one place of the tree, and the
    second reads there what the first has written; their defaults differ, and no entry of the
    audit holds both. -/
theorem respelled_key_escapes :
    let s := new { Options.quiet with recordDefaults := true }
    let asks : List Ask :=
      [.requested "a" "1" .any .any none, .requested " a" "2" .any .any none]
    let a := Request.unplaced "a" "1" "ValidateAny"
    let b := Request.unplaced " a" "2" "ValidateAny"
    s.Reachable ∧ asks.map Ask.request? = [some a, some b]
      ∧ Path.segments? a.key = some ["a"] ∧ Path.segments? b.key = some ["a"]
      ∧ (∀ t : Tree, t.get? a.key = t.get? b.key)
      ∧ ((s.getOr "a" "1").store.getOr " a" "2").result = .ok "1"
      ∧ a.default ≠ b.default
      ∧ ¬∃ entry ∈ (s.run asks).ledger.mismatches, a ∈ entry.2 ∧ b ∈ entry.2 := by
  intro s asks a b
  have hplaceA : Path.segments? a.key = some ([] ++ ["a"]) := by decide +kernel
  have hplaceB : Path.segments? b.key = some ([] ++ ["a"]) := by decide +kernel
  have hnone : (s.run asks).ledger.mismatches = [] := by decide +kernel
  refine ⟨.ofTree .empty _, rfl, hplaceA, hplaceB, fun t => ?_, by decide +kernel, by decide, ?_⟩
  · rw [Tree.get?_eq hplaceA, Tree.get?_eq hplaceB]
  · rw [hnone]
    rintro ⟨entry, hentry, -⟩
    exact absurd hentry List.not_mem_nil

end Store

end ParamStore
