import ParamStore.Proofs.Store.Reachable
import ParamStore.Proofs.Tree.Storing

/-!
# Writing back — when a look-up changes the tree

A look-up deals with a default before it judges it: the default's text goes into the tree when the
    key is found to be absent, and only then is a value read and put before the validator. So
    whether the tree changes does not depend on how the look-up ends. It is decided
    by three things alone: the store keeps its defaults, the key is absent, and the tree can
    hold a value there. A look-up that fails with all three leaves the default behind.

* **`writesBack`** — the three things.
* **`consult_tree_eq`** — the tree after a consultation.
* **`failed_lookup_tree`** — the tree after a look-up that fails.
* **`rejected_default_stays`** — a default that was turned down and is in the tree.
-/

namespace ParamStore

namespace Store

/-- A default's text is written back: the store keeps its defaults, the key is absent, and the tree
    can hold a value there. -/
def writesBack (s : Store) (key text : String) : Bool :=
  s.options.recordDefaults && !s.tree.hasKey key && (s.tree.set key text false).succeeds

/-- **A consultation writes the default's text back, or leaves the tree as it was.** -/
theorem consult_tree_eq {s : Store} (h : s.tree.WellFormed) (r : Request) :
    (s.consult r).2.1.tree
      = if s.writesBack r.key r.default then (s.tree.set r.key r.default false).state
        else s.tree := by
  rw [consult, writesBack, Tree.hasKey]
  dsimp only
  cases s.tree.get? r.key with
  | some raw => simp
  | none =>
      dsimp only
      rw [recordDefault_tree]
      dsimp only
      cases s.options.recordDefaults with
      | false => rfl
      | true =>
          cases hstored : (s.tree.set r.key r.default false).succeeds with
          | true => rfl
          | false =>
              -- what the tree refuses to hold leaves no trace in it
              cases hresult : (s.tree.set r.key r.default false).result with
              | ok _ => rw [Attempt.succeeds, hresult] at hstored; cases hstored
              | error e => exact Tree.set_state_of_error h hresult

/-- What a failed look-up leaves: the tree as it was, unless the default's text was written back. Then
    it is the tree with this text stored under the key, which was absent. -/
def LeavesOnFailure {α : Type} (s : Store) (key text : String) (o : Outcome α) : Prop :=
  ∀ e, o.result = .error e →
    (s.writesBack key text = false → o.store.tree = s.tree)
    ∧ (s.writesBack key text = true →
      o.store.tree = (s.tree.set key text false).state
        ∧ s.tree.get? key = none ∧ o.store.tree.get? key = some text)

/-- Whatever a look-up answers, its tree is the one that its consultation leaves. -/
theorem leavesOnFailure_of_consult {α : Type} {s : Store} (h : s.tree.WellFormed) (r : Request)
    {o : Outcome α} (ho : o.store = (s.consult r).2.1) : s.LeavesOnFailure r.key r.default o := by
  intro e _
  rw [ho, consult_tree_eq h]
  refine ⟨fun hkeeps => by rw [hkeeps]; rfl, fun hwrites => ?_⟩
  rw [hwrites, if_pos rfl]
  obtain ⟨habsent, hstored⟩ := Bool.and_eq_true_iff.mp hwrites
  refine ⟨rfl, ?_, Tree.get?_set_self hstored⟩
  simpa [Tree.hasKey] using (Bool.and_eq_true_iff.mp habsent).2

section Getters

variable {α : Type} [Codec α]

theorem getRequested_leavesOnFailure {s : Store} (h : s.tree.WellFormed) (key : String)
    (default : α) (validator : Validator α) (shape : Shape) (site : Option CallSite) :
    s.LeavesOnFailure key (Codec.encode default)
      (s.getRequested key default validator shape site) := by
  have hrun := leavesOnFailure_of_consult h _
    (getRequested_store s key default validator shape site)
  cases site <;> exact hrun

theorem getList_leavesOnFailure {s : Store} (h : s.tree.WellFormed) (key : String) (default : α)
    (separators : String) (validator : Validator α) :
    s.LeavesOnFailure key (Codec.encode default)
      (s.getList key default separators validator) := by
  have hrun := leavesOnFailure_of_consult h _ (getList_store s key default separators validator)
  exact hrun

end Getters

/-- **A failed look-up leaves the tree as it was, or with its default written back.** The second is
    the case exactly if the store keeps its defaults, the key is absent and the tree can hold
    a value there: the default is stored before it is judged. -/
theorem failed_lookup_tree {s : Store} (h : s.Reachable) {α : Type} [Codec α] (key : String)
    (default : α) (validator : Validator α) (shape : Shape) (site : Option CallSite)
    (separators : String) :
    s.LeavesOnFailure key (Codec.encode default)
        (s.getRequested key default validator shape site)
      ∧ s.LeavesOnFailure key (Codec.encode default) (s.getOr key default)
      ∧ s.LeavesOnFailure key (Codec.encode default) (s.getOrShaped key default shape)
      ∧ s.LeavesOnFailure key (Codec.encode default) (s.getOrValid key default validator)
      ∧ s.LeavesOnFailure key (Codec.encode default)
        (s.getList key default separators validator) := by
  have ht := h.tree.wellFormed
  rw [getOr, getOrShaped, getOrValid]
  exact ⟨getRequested_leavesOnFailure ht key default validator shape site,
    getRequested_leavesOnFailure ht key default .any .any none,
    getRequested_leavesOnFailure ht key default .any shape none,
    getRequested_leavesOnFailure ht key default validator .any none,
    getList_leavesOnFailure ht key default separators validator⟩

/-- A rejected default at a store that keeps its defaults, at one that does not, and at a key that
    holds a sub-tree; and a list whose default is no text of its entries. -/
theorem failed_lookup_tree_rejected :
    let plain := (empty.set "a.b" "1" false).state
    let keeping := { plain with options := { plain.options with recordDefaults := true } }
    plain.Reachable ∧ keeping.Reachable
      ∧ (plain.getOrValid "x" "1" .none).result
        = .error (.rejected "x" "ValidateNone: no value is valid")
      ∧ (plain.getOrValid "x" "1" .none).store.tree = plain.tree
      ∧ (keeping.getOrValid "a" "1" .none).result
        = .error (.rejected "a" "ValidateNone: no value is valid")
      ∧ (keeping.getOrValid "a" "1" .none).store.tree = keeping.tree
      ∧ (keeping.getOrValid "x" "1" .none).store.tree.get? "x" = some "1"
      ∧ (keeping.getList "x" true "r" .any).result
        = .error (.unreadable "t" "bool" "expected true/false, 1/0, yes/no or on/off")
      ∧ (keeping.getList "x" true "r" .any).store.tree.get? "x" = some "true" := by
  intro plain keeping
  have hplain : plain.Reachable := .set (.ofTree .empty .quiet) "a.b" "1" false
  have hkeeping : keeping.Reachable := .withOptions hplain _
  have hx : (plain.getOrValid "x" "1" .none).result
      = .error (.rejected "x" "ValidateNone: no value is valid") := by rfl
  have ha : (keeping.getOrValid "a" "1" .none).result
      = .error (.rejected "a" "ValidateNone: no value is valid") := by rfl
  have hx' : (keeping.getOrValid "x" "1" .none).result
      = .error (.rejected "x" "ValidateNone: no value is valid") := by rfl
  have hlist : (keeping.getList "x" true "r" .any).result
      = .error (.unreadable "t" "bool" "expected true/false, 1/0, yes/no or on/off") := by
    decide +kernel
  obtain ⟨-, -, -, hvalid, -⟩ := failed_lookup_tree hplain "x" "1" .none .any none ""
  obtain ⟨-, -, -, hvalid', -⟩ := failed_lookup_tree hkeeping "a" "1" .none .any none ""
  obtain ⟨-, -, -, hvalid'', -⟩ := failed_lookup_tree hkeeping "x" "1" .none .any none ""
  obtain ⟨-, -, -, -, htokens⟩ := failed_lookup_tree hkeeping "x" true .any .any none "r"
  exact ⟨hplain, hkeeping, hx, (hvalid _ hx).1 (by decide +kernel), ha,
    (hvalid' _ ha).1 (by decide +kernel), ((hvalid'' _ hx').2 (by decide +kernel)).2.2, hlist,
    ((htokens _ hlist).2 (by decide +kernel)).2.2⟩

/-- **A default that the validator turns down stays in the tree** of a store that keeps its defaults:
    the look-up fails and the tree is not what it was. -/
theorem rejected_default_stays :
    let s := new { Options.quiet with recordDefaults := true }
    s.Reachable
      ∧ (s.getOrValid "x" "1" .none).result
        = .error (.rejected "x" "ValidateNone: no value is valid")
      ∧ s.tree.get? "x" = none
      ∧ (s.getOrValid "x" "1" .none).store.tree.get? "x" = some "1"
      ∧ (s.getOrValid "x" "1" .none).store.tree ≠ s.tree := by
  intro s
  have hafter : (s.getOrValid "x" "1" .none).store.tree.get? "x" = some "1" := by decide +kernel
  have hbefore : s.tree.get? "x" = none := by decide +kernel
  refine ⟨.ofTree .empty _, by rfl, hbefore, hafter, fun h => ?_⟩
  rw [h, hbefore] at hafter
  exact nomatch hafter

end Store

end ParamStore
