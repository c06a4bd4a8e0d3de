import ParamStore.Proofs.Codec.Causes
import ParamStore.Proofs.Store.Answers
import ParamStore.Proofs.Store.Consult

/-!
# The audit — all that one look-up leaves behind

Whether a look-up with a default answers or refuses, and for whatever reason, it leaves the same four
    things: its request in the ledger and no other; the default's text in the tree, if and only
    if it is written back; the options as they were; and at most two remarks, each under its own
    condition. What it never does is to refuse because the key is missing, since a reader
    blames the text it was given.

* **`Audited`** — the four things for a request.
* **`audited_of_consult`** — they follow from going through the consultation.
* **`getRequested_ne_missing`**, **`getList_ne_missing`** — no refusal for a missing key.
* **`get_of_tree`** — a plain look-up is answered from the tree alone.
* **`lookups_audited`** — all look-ups with a default, and the plain ones beside them.
-/

namespace ParamStore.Store

/-- What a look-up for a request leaves in a store, and its remarks. -/
structure Audited {α : Type} (s : Store) (r : Request) (o : Outcome α) : Prop where
  /-- The request is recorded. -/
  ledger : o.store.ledger = s.ledger.record r
  /-- It is listed under its key, and everything else is listed as before. -/
  lists : ∀ key q, o.store.ledger.Lists key q ↔ s.ledger.Lists key q ∨ (key = r.key ∧ q = r)
  /-- A request that was not there before adds one to their number. -/
  size : o.store.ledger.size
    = if s.ledger.Lists r.key r then s.ledger.size else s.ledger.size + 1
  /-- The tree changes if the default's text is written back, and to this. -/
  tree : o.store.tree
    = if s.writesBack r.key r.default then (s.tree.set r.key r.default false).state else s.tree
  options : o.store.options = s.options
  /-- The use of a default is remarked on if the key is absent and the options ask for it. -/
  used : ∀ key default, .defaultUsed key default ∈ o.warnings
    ↔ (key = r.key ∧ default = r.default)
      ∧ s.tree.get? r.key = none ∧ s.options.warnOnDefault = true
  /-- A default that should be stored and cannot be is remarked on, with the cause. -/
  unstored : ∀ key cause, .defaultNotRecorded key cause ∈ o.warnings
    ↔ key = r.key ∧ s.tree.get? r.key = none ∧ s.options.recordDefaults = true
      ∧ (s.tree.set r.key r.default false).result = .error cause
  /-- Nothing else is remarked on, and nothing twice. -/
  others : ∀ logfile, .logNotWritten logfile ∉ o.warnings
  once : o.warnings.Nodup

/-- **Whatever goes through the consultation for a request is audited under it.** -/
theorem audited_of_consult {α : Type} {s : Store} (h : s.Reachable) {r : Request} {o : Outcome α}
    (hstore : o.store = (s.consult r).2.1) (hwarnings : o.warnings = (s.consult r).2.2) :
    s.Audited r o where
  ledger := by rw [hstore, consult_ledger]
  lists key q := by rw [hstore, consult_ledger, Ledger.lists_record]
  size := by rw [hstore, consult_ledger, Ledger.size_record h.ledger]
  tree := by rw [hstore, consult_tree_eq h.tree.wellFormed]
  options := by rw [hstore, consult_options]
  used key default := by
    rw [hwarnings, mem_consult_remarks]
    constructor
    · rintro ⟨habsent, ⟨hwarn, hsame⟩ | ⟨-, _, -, hkind⟩⟩
      · obtain ⟨rfl, rfl⟩ := Warning.defaultUsed.inj hsame
        exact ⟨⟨rfl, rfl⟩, habsent, hwarn⟩
      · exact nomatch hkind
    · rintro ⟨⟨rfl, rfl⟩, habsent, hwarn⟩
      exact ⟨habsent, .inl ⟨hwarn, rfl⟩⟩
  unstored key cause := by
    rw [hwarnings, mem_consult_remarks]
    constructor
    · rintro ⟨habsent, ⟨-, hkind⟩ | ⟨hkeeps, _, hcause, hsame⟩⟩
      · exact nomatch hkind
      · obtain ⟨rfl, rfl⟩ := Warning.defaultNotRecorded.inj hsame
        exact ⟨rfl, habsent, hkeeps, hcause⟩
    · rintro ⟨rfl, habsent, hkeeps, hcause⟩
      exact ⟨habsent, .inr ⟨hkeeps, cause, hcause, rfl⟩⟩
  others logfile := by
    rw [hwarnings, mem_consult_remarks]
    rintro ⟨-, ⟨-, hkind⟩ | ⟨-, _, -, hkind⟩⟩
    · exact nomatch hkind
    · exact nomatch hkind
  once := by
    rw [hwarnings]
    exact consult_remarks_nodup s r

section Getters

variable {α : Type} [Codec α]

-- ── What is left ──────────────────────────────────────────────────────────────────

theorem getRequested_audited {s : Store} (h : s.Reachable) (key : String) (default : α)
    (validator : Validator α) (shape : Shape) (site : Option CallSite) :
    s.Audited (requestOf key (Codec.encode default) validator site)
      (s.getRequested key default validator shape site) :=
  audited_of_consult h (getRequested_store s key default validator shape site)
    (by rw [getRequested])

theorem getList_audited {s : Store} (h : s.Reachable) (key : String) (default : α)
    (separators : String) (validator : Validator α) :
    s.Audited (.unplaced key (Codec.encode default) validator.name)
      (s.getList key default separators validator) :=
  audited_of_consult h (getList_store s key default separators validator) (by rw [getList])

-- ── What is not answered ──────────────────────────────────────────────────────────

omit [Codec α] in
/-- Judging what was read never finds that the key is missing. -/
theorem judge_ne_missing {key : String} {validator : Validator α} {r : Except Error α}
    (h : OfText r) (missing : String) : judge key validator r ≠ .error (.missingKey missing) := by
  cases r with
  | error e =>
      intro hmissing
      obtain rfl := Except.error.inj hmissing
      exact h
  | ok value =>
      rw [judge, validate]
      split
      · intro hmissing
        cases hmissing
      · intro hmissing
        cases hmissing

variable [Codec.BlamesText α]

theorem readValid_ne_missing (key : String) (validator : Validator α) (texts : List String)
    (missing : String) :
    readValid key validator texts ≠ .error (.missingKey missing) := by
  induction texts with
  | nil => exact nofun
  | cons text texts ih =>
      rw [readValid_cons]
      cases hfirst : judge key validator (Codec.read text) with
      | error e =>
          intro hmissing
          obtain rfl := Except.error.inj hmissing
          exact judge_ne_missing (Codec.BlamesText.ofText text .any) missing hfirst
      | ok first =>
          dsimp only
          cases hrest : readValid key validator texts with
          | ok rest => exact nofun
          | error e =>
              rw [hrest] at ih
              exact fun hmissing => ih hmissing

/-- **A look-up with a default never refuses because the key is missing.** -/
theorem getRequested_ne_missing (s : Store) (key : String) (default : α) (validator : Validator α)
    (shape : Shape) (site : Option CallSite) (missing : String) :
    (s.getRequested key default validator shape site).result ≠ .error (.missingKey missing) := by
  rw [getRequested_result]
  cases s.tree.get? key with
  | none => exact judge_ne_missing (show OfText (.ok default) from trivial) missing
  | some raw => exact judge_ne_missing (Codec.BlamesText.ofText raw shape) missing

theorem getList_ne_missing (s : Store) (key : String) (default : α) (separators : String)
    (validator : Validator α) (missing : String) :
    (s.getList key default separators validator).result ≠ .error (.missingKey missing) := by
  rw [getList_result]
  exact readValid_ne_missing key validator _ missing

-- ── Plain look-ups ────────────────────────────────────────────────────────────────

omit [Codec.BlamesText α] in
/-- **A plain look-up is answered from the tree alone**, and the answer is all that it gives. -/
theorem get_of_tree {s other : Store} (h : other.tree = s.tree) (key : String)
    (validator : Validator α) (shape : Shape) :
    other.get key validator shape = s.get key validator shape := by
  rw [get, get, h]

end Getters

/-- **All that a look-up leaves behind.** Each look-up with a default, whatever it answers, records one
    request, with its key as it was given, the default's text, its call site or none, and the
    name of its validator; writes the default back under the three conditions or leaves the
    tree as it was; keeps the options; and makes its remarks. None of them refuses because the
    key is missing, for any codec that blames the text. Plain look-ups leave nothing behind: they
    only answer, and any store with the same tree, whatever its ledger and options, answers them
    alike. -/
theorem lookups_audited {s : Store} (h : s.Reachable) {α : Type} [Codec α] (key : String)
    (default : α) (validator : Validator α) (shape : Shape) (separators : String) :
    (∀ site : CallSite,
      s.Audited ⟨key, Codec.encode default, site.file, some site.line, site.validator⟩
        (s.getRequested key default validator shape (some site)))
    ∧ s.Audited ⟨key, Codec.encode default, "", none, validator.name⟩
      (s.getRequested key default validator shape none)
    ∧ s.Audited ⟨key, Codec.encode default, "", none, "ValidateAny"⟩ (s.getOr key default)
    ∧ s.Audited ⟨key, Codec.encode default, "", none, "ValidateAny"⟩
      (s.getOrShaped key default shape)
    ∧ s.Audited ⟨key, Codec.encode default, "", none, validator.name⟩
      (s.getOrValid key default validator)
    ∧ s.Audited ⟨key, Codec.encode default, "", none, validator.name⟩
      (s.getList key default separators validator)
    ∧ (∀ [Codec.BlamesText α] (missing : String),
      (∀ site, (s.getRequested key default validator shape site).result
        ≠ .error (.missingKey missing))
      ∧ (s.getOr key default).result ≠ .error (.missingKey missing)
      ∧ (s.getOrShaped key default shape).result ≠ .error (.missingKey missing)
      ∧ (s.getOrValid key default validator).result ≠ .error (.missingKey missing)
      ∧ (s.getList key default separators validator).result ≠ .error (.missingKey missing))
    ∧ ∀ other : Store, other.tree = s.tree →
      other.get key validator shape = s.get key validator shape :=
  ⟨fun site => getRequested_audited h key default validator shape (some site),
    getRequested_audited h key default validator shape none,
    getRequested_audited h key default .any .any none,
    getRequested_audited h key default .any shape none,
    getRequested_audited h key default validator .any none,
    getList_audited h key default separators validator,
    fun missing =>
      ⟨fun site => getRequested_ne_missing s key default validator shape site missing,
        getRequested_ne_missing s key default .any .any none missing,
        getRequested_ne_missing s key default .any shape none missing,
        getRequested_ne_missing s key default validator .any none missing,
        getList_ne_missing s key default separators validator missing⟩,
    fun _ htree => get_of_tree htree key validator shape⟩

/-- A store that keeps its defaults and remarks on their use: a default for a key that is free, from a
    call site; one for a key that holds a sub-tree; and a list that is refused. -/
theorem lookups_audited_blocked :
    let plain := (empty.set "a.b" "1" false).state
    let s := { plain with
      options := { plain.options with recordDefaults := true, warnOnDefault := true } }
    let site : CallSite := ⟨"src/main.rs", ⟨3, by decide⟩, "none"⟩
    let placed : Request := ⟨"x", "5", "src/main.rs", some site.line, "none"⟩
    let blocked : Request := ⟨"a", "5", "", none, "ValidateAny"⟩
    s.Reachable
      ∧ s.Audited placed (s.getRequested "x" "5" .none .any (some site))
      ∧ (s.getRequested "x" "5" .none .any (some site)).store.tree
        = (s.tree.set "x" "5" false).state
      ∧ s.Audited blocked (s.getOr "a" "5")
      ∧ (s.getOr "a" "5").store.tree = s.tree
      ∧ .defaultUsed "a" "5" ∈ (s.getOr "a" "5").warnings
      ∧ .defaultNotRecorded "a" (.pathConflict "a") ∈ (s.getOr "a" "5").warnings
      ∧ s.Audited ⟨"x", "r", "", none, "ValidateNone"⟩ (s.getList "x" "r" "," .none)
      ∧ (s.getList "x" "r" "," .none).result ≠ .error (.missingKey "x")
      ∧ (s.getOr "a" "5").store.get "a.b" (.any : Validator String) .any
        = s.get "a.b" (.any : Validator String) .any := by
  intro plain s site placed blocked
  have hs : s.Reachable := .withOptions (.set (.ofTree .empty .quiet) "a.b" "1" false) _
  have hfree : s.writesBack "x" "5" = true := by decide +kernel
  have hheld : s.writesBack "a" "5" = false := by decide +kernel
  have habsent : s.tree.get? "a" = none := by decide +kernel
  have hcause : (s.tree.set "a" "5" false).result = .error (.pathConflict "a") := by
    decide +kernel
  obtain ⟨hsite, -⟩ := lookups_audited hs "x" "5" .none .any ""
  obtain ⟨-, -, hor, -⟩ := lookups_audited hs "a" "5" .any .any ""
  obtain ⟨-, -, -, -, -, hlist, hfound, -⟩ := lookups_audited hs "x" "r" .none .any ","
  obtain ⟨-, -, -, -, -, -, -, hplain⟩ := lookups_audited hs "a.b" "" .any .any ""
  have hwritten := (hsite site).tree.trans (if_pos hfree)
  have hkept := hor.tree.trans (if_neg (Bool.eq_false_iff.mp hheld))
  exact ⟨hs, hsite site, hwritten, hor, hkept, (hor.used "a" "5").mpr ⟨⟨rfl, rfl⟩, habsent, rfl⟩,
    (hor.unstored "a" _).mpr ⟨rfl, habsent, rfl, hcause⟩, hlist, (hfound "x").2.2.2.2, hplain _ hkept⟩

end ParamStore.Store
