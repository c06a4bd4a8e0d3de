import ParamStore.Proofs.Ledger.Conflict
import ParamStore.Proofs.Ledger.History

/-!
# Disagreements — what a ledger shows of the requests recorded in it

A set of requests is decided upon by comparing each of them with the first one, in key and default
    only, although more than that decides which one is first. As agreement is an equivalence, this comes
    to comparing any two. So a ledger shows a key exactly if two requests for it were recorded with
    different defaults, from wherever and under whatever validators, and then it shows all that were
    recorded for the key. Recording and merging only ever list more, so what is shown once stays.

* **`Ledger.Exposes`** — what is shown for some recorded requests, key by key and as a map.
* **`Ledger.keepsShowing_record`**, **`Ledger.keepsShowing_merge`** — what is shown stays, whatever
  is recorded or merged in.
* **`History.disagreements_exposed`** — both for the ledger of every history.
-/

namespace ParamStore

namespace Ledger

/-- The ledger shows the disagreements among some requests: the keys for which two of them have
    different defaults, each with all the requests for it, in ascending order; and its map has
    these keys only, ascending, with what is shown for each. -/
structure Exposes (l : Ledger) (recorded : List Request) : Prop where
  shown : ∀ key, l.mismatched key ≠ [] ↔
    ∃ a ∈ recorded, ∃ b ∈ recorded, a.key = key ∧ b.key = key ∧ a.default ≠ b.default
  complete : ∀ key, l.mismatched key ≠ [] → Request.Ascending (l.mismatched key)
    ∧ ∀ r, r ∈ l.mismatched key ↔ r ∈ recorded ∧ r.key = key
  ascending : l.mismatches.Ascending
  entries : ∀ key set, (key, set) ∈ l.mismatches ↔ set ≠ [] ∧ l.mismatched key = set

/-- A well-formed ledger shows the disagreements among what it lists. -/
theorem exposes_of_lists_iff {l : Ledger} {recorded : List Request} (h : l.WellFormed)
    (hlists : ∀ key r, l.Lists key r ↔ r ∈ recorded ∧ r.key = key) : l.Exposes recorded where
  shown key := by
    rw [mismatched_ne_nil_iff, inConflict_iff]
    constructor
    · rintro ⟨a, ha, b, hb, hdiffers⟩
      obtain ⟨ha, hkeyA⟩ := (hlists key a).mp ha
      obtain ⟨hb, hkeyB⟩ := (hlists key b).mp hb
      -- both have the key, so what they differ in is the default
      refine ⟨a, ha, b, hb, hkeyA, hkeyB, fun hdefault => hdiffers ⟨?_, hdefault⟩⟩
      exact hkeyA.trans hkeyB.symm
    · rintro ⟨a, ha, b, hb, hkeyA, hkeyB, hdefault⟩
      refine ⟨a, (hlists key a).mpr ⟨ha, hkeyA⟩, b, (hlists key b).mpr ⟨hb, hkeyB⟩, ?_⟩
      intro hagree
      exact hdefault hagree.2
  complete key hne := by
    rw [mismatched_of_inConflict (mismatched_ne_nil_iff.mp hne)]
    exact ⟨h.sets key, hlists key⟩
  ascending := mismatches_ascending h.keys
  entries _ _ := mem_mismatches_iff h.keys

-- ── What stays ────────────────────────────────────────────────────────────────────

/-- **What is shown stays shown after one more request.** -/
theorem keepsShowing_record {l : Ledger} (h : l.requests.Ascending) (r : Request) :
    l.KeepsShowing (l.record r) := by
  refine keepsShowing h (add_ascending h r.key [r]) ?_
  intro key q hq
  exact lists_record.mpr (Or.inl hq)

/-- **What is shown stays shown after merging in another ledger**, whatever this one is like. -/
theorem keepsShowing_merge {l : Ledger} (h : l.requests.Ascending) (other : Ledger) :
    l.KeepsShowing (l.merge other) := by
  refine keepsShowing h (merge_ascending h other) ?_
  intro key q hq
  show (l.merge other).Lists key q
  rw [merge, lists_foldl_add]
  exact Or.inl hq

end Ledger

/-- **The ledger of a history shows the disagreements among the requests recorded in it**, neither
    more nor fewer keys and requests; and it shows all of that still after one more request, or after
    merging in any other ledger. -/
theorem History.disagreements_exposed (h : History) :
    h.ledger.Exposes h.requests
      ∧ (∀ r, h.ledger.KeepsShowing (h.ledger.record r))
      ∧ ∀ other : Ledger, h.ledger.KeepsShowing (h.ledger.merge other) := by
  have hformed := h.ledger_wellFormed
  refine ⟨Ledger.exposes_of_lists_iff hformed fun _ _ => lists_ledger, ?_, ?_⟩
  · exact Ledger.keepsShowing_record hformed.keys
  · exact Ledger.keepsShowing_merge hformed.keys

end ParamStore
