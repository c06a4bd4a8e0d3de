import ParamStore.Proofs.Ledger.Members
import ParamStore.Proofs.Store.WriteBack

/-!
# Consultations — what a look-up with a default leaves in the store

All look-ups with a default go through one consultation, so what they leave behind is said once, of
    the consultation: its request is recorded, the options stay, and the remarks are one on
    the use of the default and one on a default that the tree cannot hold, each with its own
    condition. Since nothing but recording and merging touches a ledger, the ledger of every
    reachable store is well-formed.

* **`consult_of_stored`**, **`consult_of_absent`** — all that a consultation can do.
* **`consult_found`**, **`consult_ledger`**, **`consult_options`** — text, ledger and options.
* **`mem_consult_remarks`**, **`consult_remarks_nodup`** — the remarks.
* **`Reachable.ledger`** — ledgers of reachable stores are well-formed.
-/

namespace ParamStore.Store

-- ── The two cases ─────────────────────────────────────────────────────────────────

/-- On a stored key the request is recorded and nothing else happens. -/
theorem consult_of_stored {s : Store} {r : Request} {raw : String}
    (h : s.tree.get? r.key = some raw) :
    s.consult r = (some raw, { s with ledger := s.ledger.record r }, []) := by
  rw [consult]
  dsimp only
  rw [h]

/-- On an absent key the default's text is dealt with after that. -/
theorem consult_of_absent {s : Store} {r : Request} (h : s.tree.get? r.key = none) :
    s.consult r
      = let dealt := { s with ledger := s.ledger.record r }.recordDefault r.key r.default
        (none, dealt.1, defaultRemarks s.options r.key r.default ++ dealt.2) := by
  rw [consult]
  dsimp only
  rw [h]

/-- Dealing with a default touches nothing but the tree. -/
theorem recordDefault_frame (s : Store) (key default : String) :
    (s.recordDefault key default).1.ledger = s.ledger
      ∧ (s.recordDefault key default).1.options = s.options := by
  rw [recordDefault]
  split
  · exact ⟨rfl, rfl⟩
  · exact ⟨rfl, rfl⟩

/-- A consultation finds what is stored under the key. -/
theorem consult_found (s : Store) (r : Request) : (s.consult r).1 = s.tree.get? r.key := by
  cases h : s.tree.get? r.key with
  | some raw => rw [consult_of_stored h]
  | none => rw [consult_of_absent h]

/-- **A consultation records its request**, and no other. -/
theorem consult_ledger (s : Store) (r : Request) :
    (s.consult r).2.1.ledger = s.ledger.record r := by
  cases h : s.tree.get? r.key with
  | some raw => rw [consult_of_stored h]
  | none =>
      rw [consult_of_absent h]
      dsimp only
      rw [(recordDefault_frame ..).1]

theorem consult_options (s : Store) (r : Request) : (s.consult r).2.1.options = s.options := by
  cases h : s.tree.get? r.key with
  | some raw => rw [consult_of_stored h]
  | none =>
      rw [consult_of_absent h]
      dsimp only
      rw [(recordDefault_frame ..).2]

-- ── Remarks ───────────────────────────────────────────────────────────────────────

/-- The remark on a default that the tree cannot hold. -/
theorem mem_recordDefault_remarks {s : Store} {key default : String} {w : Warning} :
    w ∈ (s.recordDefault key default).2
      ↔ s.options.recordDefaults = true
        ∧ ∃ cause, (s.tree.set key default false).result = .error cause
          ∧ w = .defaultNotRecorded key cause := by
  rw [recordDefault]
  cases s.options.recordDefaults with
  | false => simp
  | true =>
      simp only [if_true, true_and]
      cases (s.tree.set key default false).result with
      | ok _ => simp
      | error cause => simp

theorem mem_defaultRemarks {o : Options} {key default : String} {w : Warning} :
    w ∈ defaultRemarks o key default
      ↔ o.warnOnDefault = true ∧ w = .defaultUsed key default := by
  rw [defaultRemarks]
  cases o.warnOnDefault with
  | false => simp
  | true => simp

/-- **What a consultation remarks on**: nothing if the key is stored; else that the default is used,
    if the options ask for it, and why the default was not stored, if it should have been. -/
theorem mem_consult_remarks {s : Store} {r : Request} {w : Warning} :
    w ∈ (s.consult r).2.2
      ↔ s.tree.get? r.key = none
        ∧ ((s.options.warnOnDefault = true ∧ w = .defaultUsed r.key r.default)
          ∨ (s.options.recordDefaults = true
            ∧ ∃ cause, (s.tree.set r.key r.default false).result = .error cause
              ∧ w = .defaultNotRecorded r.key cause)) := by
  cases h : s.tree.get? r.key with
  | some raw => simp [consult_of_stored h]
  | none =>
      rw [consult_of_absent h, List.mem_append, mem_defaultRemarks, mem_recordDefault_remarks]
      simp

/-- No remark is made twice. -/
theorem consult_remarks_nodup (s : Store) (r : Request) : (s.consult r).2.2.Nodup := by
  cases h : s.tree.get? r.key with
  | some raw =>
      rw [consult_of_stored h]
      exact List.Pairwise.nil
  | none =>
      rw [consult_of_absent h]
      refine List.nodup_append.mpr ⟨?_, ?_, ?_⟩
      · rw [defaultRemarks]
        split
        · exact List.pairwise_singleton _ _
        · exact List.Pairwise.nil
      · rw [recordDefault]
        split
        · dsimp only
          split
          · exact List.Pairwise.nil
          · exact List.pairwise_singleton _ _
        · exact List.Pairwise.nil
      · rintro w hw w' hw' rfl
        obtain ⟨-, rfl⟩ := mem_defaultRemarks.mp hw
        obtain ⟨-, _, -, hkind⟩ := mem_recordDefault_remarks.mp hw'
        cases hkind

-- ── Ledgers of reachable stores ───────────────────────────────────────────────────

/-- What is done to the tree leaves the ledger alone. -/
theorem onTree_state_ledger {α : Type} (s : Store) (a : Attempt Tree α) :
    (s.onTree a).state.ledger = s.ledger := by
  rw [onTree]

/-- A merge of stores leaves the ledger alone, or merges the ledgers. -/
theorem add_state_ledger (s other : Store) (under : String) (overwrite : Bool) :
    (s.add other under overwrite).state.ledger = s.ledger
      ∨ (s.add other under overwrite).state.ledger = s.ledger.merge other.ledger := by
  rw [add]
  cases hresult : (s.addTree other.tree under overwrite).result with
  | error e =>
      rw [Attempt.andThen_of_error hresult]
      exact .inl (onTree_state_ledger s _)
  | ok _ =>
      rw [Attempt.andThen_of_ok hresult, Attempt.pure, addTree, onTree_state_ledger]
      exact .inr rfl

/-- Reading arguments is about the tree alone. -/
theorem readOptions_ledger (s : Store) (files : FileReader) (args : List String) :
    (s.readOptions files args).state.ledger = s.ledger := by
  unfold readOptions
  split
  · rfl
  · next pairs _ =>
      cases hresult : (s.onTree (Tree.setAll true pairs s.tree)).result with
      | error e =>
          rw [Attempt.andThen_of_error hresult]
          exact onTree_state_ledger s _
      | ok _ =>
          rw [Attempt.andThen_of_ok hresult]
          split
          · exact onTree_state_ledger s _
          · split
            · exact onTree_state_ledger s _
            · exact onTree_state_ledger s (Tree.setAll true pairs s.tree)

theorem ledger_of_ofFile {files : FileReader} {path : String} {o : Options} {s : Store}
    (h : ofFile files path o = .ok s) : s.ledger = .empty := by
  obtain ⟨t, -, rfl⟩ := exists_of_map_eq_ok h
  rfl

theorem ledger_of_ofArgs {files : FileReader} {d : Directory} {args : List String} {o : Options}
    {s : Store} (h : (ofArgs files d args o).result = .ok s) : s.ledger = .empty := by
  rw [ofArgs] at h
  dsimp only at h
  split at h
  · obtain rfl := Except.ok.inj h
    rw [readOptions_ledger]
    rfl
  · cases h

theorem ledger_of_ofArgsOrFile {files : FileReader} {d : Directory} {args : List String}
    {fallback : String} {o : Options} {s : Store}
    (h : (ofArgsOrFile files d args fallback o).result = .ok s) : s.ledger = .empty := by
  unfold ofArgsOrFile at h
  split at h
  · exact ledger_of_ofFile h
  · split at h
    · exact ledger_of_ofArgs h
    · exact ledger_of_ofFile h
  · exact ledger_of_ofArgs h

theorem add_wellFormed {s other : Store} (h : s.ledger.WellFormed) (h' : other.ledger.WellFormed)
    (under : String) (overwrite : Bool) :
    (s.add other under overwrite).state.ledger.WellFormed := by
  rcases add_state_ledger s other under overwrite with hledger | hledger
  · rw [hledger]
    exact h
  · rw [hledger]
    exact Ledger.merge_wellFormed h h'

/-- **The ledger of a reachable store is well-formed**: every request is listed under its own key. -/
theorem Reachable.ledger {s : Store} (h : s.Reachable) : s.ledger.WellFormed := by
  induction h with
  | ofTree => exact Ledger.wellFormed_empty
  | ofValue h =>
      rw [Store.ofValue] at h
      obtain ⟨_, _, rfl⟩ := exists_of_map_eq_ok h
      rw [Store.set, onTree_state_ledger]
      exact Ledger.wellFormed_empty
  | ofValues h =>
      rw [Store.ofValues] at h
      split at h
      · cases h
      · obtain ⟨t, -, rfl⟩ := exists_of_map_eq_ok h
        exact Ledger.wellFormed_empty
  | ofFile h =>
      rw [ledger_of_ofFile h]
      exact Ledger.wellFormed_empty
  | ofArgs h =>
      rw [ledger_of_ofArgs h]
      exact Ledger.wellFormed_empty
  | ofArgsOrFile h =>
      rw [ledger_of_ofArgsOrFile h]
      exact Ledger.wellFormed_empty
  | withOptions _ _ ih => exact ih
  | set _ _ _ _ ih =>
      rw [Store.set, onTree_state_ledger]
      exact ih
  | add _ _ under overwrite ih ih' => exact add_wellFormed ih ih' under overwrite
  | addTree _ _ _ _ ih =>
      rw [Store.addTree, onTree_state_ledger]
      exact ih
  | sub _ hfound =>
      obtain ⟨t, -, rfl⟩ := exists_of_map_eq_ok hfound
      exact Ledger.wellFormed_empty
  | merged _ _ hboth ih ih' =>
      obtain ⟨_, _, rfl⟩ := exists_of_map_eq_ok hboth
      refine add_wellFormed ?_ ih' "" false
      exact ih
  | readOptions _ _ _ ih =>
      rw [readOptions_ledger]
      exact ih
  | getRequested _ key default validator shape site ih =>
      rw [getRequested_store, consult_ledger]
      exact Ledger.record_wellFormed ih _
  | getList _ key default separators validator ih =>
      rw [getList_store, consult_ledger]
      exact Ledger.record_wellFormed ih _

end ParamStore.Store
