import ParamStore.Proofs.Ledger.Members

/-!
# Conflicts — which disagreements a ledger shows

A set of requests is in conflict if one of them differs from the first in key or default. Agreement is
    an equivalence, so this finds every disagreement in the set, not only those with its first
    member. A ledger compares within its entries and never across them: two
    requests with different defaults are shown together exactly if they are listed under one key.

* **`inConflict_iff`** — a set is in conflict if any two of its members differ.
* **`mismatched_eq_listed`** — a key in conflict shows all its requests.
* **`mem_mismatches_iff`** — the entries of the map are what the keys show.
* **`mismatched_subset`**, **`keepsShowing`** — where more is listed, nothing that is shown goes away.
* **`shown_together_iff`** — which pairs of a well-formed ledger are in one entry of its conflicts.
-/

namespace ParamStore.Ledger

/-- **A set is in conflict if any two of its members differ** in key or default. -/
theorem inConflict_iff {set : List Request} :
    inConflict set = true
      ↔ ∃ a ∈ set, ∃ b ∈ set, ¬(a.key = b.key ∧ a.default = b.default) := by
  cases set with
  | nil => simp [inConflict]
  | cons first rest =>
      rw [inConflict, List.any_eq_true]
      constructor
      · rintro ⟨r, hr, hdiffers⟩
        refine ⟨r, List.mem_cons_of_mem _ hr, first, List.mem_cons_self, ?_⟩
        rw [← Request.claimOrder_eq_iff]
        exact bne_iff_ne.mp hdiffers
      · rintro ⟨a, ha, b, hb, hdiffers⟩
        -- if all agreed with the first one, `a` and `b` would agree with each other
        refine Decidable.byContradiction fun hagree => hdiffers ?_
        have hfirst : ∀ r ∈ first :: rest, r.key = first.key ∧ r.default = first.default := by
          intro r hr
          rcases List.mem_cons.mp hr with rfl | hr
          · exact ⟨rfl, rfl⟩
          · refine Request.claimOrder_eq_iff.mp (Decidable.byContradiction fun hne => hagree ?_)
            exact ⟨r, hr, bne_iff_ne.mpr hne⟩
        exact ⟨(hfirst a ha).1.trans (hfirst b hb).1.symm,
          (hfirst a ha).2.trans (hfirst b hb).2.symm⟩

theorem mem_mismatches {l : Ledger} {entry : String × List Request} :
    entry ∈ l.mismatches ↔ entry ∈ l.requests ∧ inConflict entry.2 = true := by
  rw [mismatches, List.mem_filter]

/-- A key in conflict shows all its requests, another one shows none. -/
theorem mismatched_eq_listed (l : Ledger) (key : String) :
    l.mismatched key = if inConflict (l.listed key) then l.listed key else [] := by
  rw [mismatched, listed]
  cases l.requestsFor? key with
  | none => rfl
  | some set => rfl

theorem ne_nil_of_inConflict {set : List Request} (h : inConflict set = true) : set ≠ [] := by
  rintro rfl
  cases h

/-- A key shows something exactly if its requests are in conflict. -/
theorem mismatched_ne_nil_iff {l : Ledger} {key : String} :
    l.mismatched key ≠ [] ↔ inConflict (l.listed key) = true := by
  rw [mismatched_eq_listed]
  by_cases h : inConflict (l.listed key) = true
  · rw [if_pos h]
    exact iff_of_true (ne_nil_of_inConflict h) h
  · rw [if_neg h]
    exact iff_of_false (fun hne => hne rfl) h

theorem mismatched_of_inConflict {l : Ledger} {key : String}
    (h : inConflict (l.listed key) = true) : l.mismatched key = l.listed key := by
  rw [mismatched_eq_listed, if_pos h]

/-- **The entries of the map are what the keys show**, where this is not nothing. -/
theorem mem_mismatches_iff {l : Ledger} (hkeys : l.requests.Ascending) {key : String}
    {set : List Request} : (key, set) ∈ l.mismatches ↔ set ≠ [] ∧ l.mismatched key = set := by
  rw [mem_mismatches]
  constructor
  · rintro ⟨hentry, hconflict⟩
    have hlisted : l.listed key = set := listed_of_mem hkeys hentry
    refine ⟨ne_nil_of_inConflict hconflict, ?_⟩
    rw [← hlisted] at hconflict ⊢
    exact mismatched_of_inConflict hconflict
  · rintro ⟨hne, rfl⟩
    have hconflict := mismatched_ne_nil_iff.mp hne
    rw [mismatched_of_inConflict hconflict]
    exact ⟨mem_of_listed (ne_nil_of_inConflict hconflict), hconflict⟩

theorem mismatches_ascending {l : Ledger} (hkeys : l.requests.Ascending) :
    l.mismatches.Ascending :=
  hkeys.sublist (List.filter_sublist.map _)

-- ── Listing more ──────────────────────────────────────────────────────────────────

/-- A set is in conflict if a part of it is. -/
theorem inConflict_of_subset {set set' : List Request} (hsub : set ⊆ set')
    (h : inConflict set = true) : inConflict set' = true := by
  obtain ⟨a, ha, b, hb, hdiffers⟩ := inConflict_iff.mp h
  exact inConflict_iff.mpr ⟨a, hsub ha, b, hsub hb, hdiffers⟩

/-- **Where more is listed, nothing that is shown goes away.** The first request of the set may
    be another one then, which does not matter. -/
theorem mismatched_subset {l l' : Ledger} {key : String} (hsub : l.listed key ⊆ l'.listed key) :
    l.mismatched key ⊆ l'.mismatched key := by
  intro r hr
  have hconflict := mismatched_ne_nil_iff.mp (List.ne_nil_of_mem hr)
  rw [mismatched_of_inConflict (inConflict_of_subset hsub hconflict)]
  rw [mismatched_of_inConflict hconflict] at hr
  exact hsub hr

/-- Every key that one ledger shows to be in conflict is shown by another one, with all the requests
    that the first one shows for it. -/
def KeepsShowing (l l' : Ledger) : Prop :=
  ∀ key set, (key, set) ∈ l.mismatches → ∃ set', (key, set') ∈ l'.mismatches ∧ set ⊆ set'

theorem keepsShowing {l l' : Ledger} (hkeys : l.requests.Ascending)
    (hkeys' : l'.requests.Ascending) (hsub : ∀ key, l.listed key ⊆ l'.listed key) :
    l.KeepsShowing l' := by
  intro key set hentry
  obtain ⟨hne, rfl⟩ := (mem_mismatches_iff hkeys).mp hentry
  have hshown := mismatched_subset (hsub key)
  refine ⟨l'.mismatched key, (mem_mismatches_iff hkeys').mpr ⟨?_, rfl⟩, hshown⟩
  intro hnil
  exact hne (List.subset_nil.mp (hnil ▸ hshown))

-- ── Requests that are shown together ──────────────────────────────────────────────

/-- Two requests of a key with different defaults are shown together. -/
theorem exists_mismatch {l : Ledger} {key : String} {a b : Request} (ha : l.Lists key a)
    (hb : l.Lists key b) (hdiffers : a.default ≠ b.default) :
    ∃ entry ∈ l.mismatches, entry.1 = key ∧ a ∈ entry.2 ∧ b ∈ entry.2 := by
  have hconflict : inConflict (l.listed key) = true :=
    inConflict_iff.mpr ⟨a, ha, b, hb, fun hagree => hdiffers hagree.2⟩
  have hentry := mem_of_listed (ne_nil_of_inConflict hconflict)
  exact ⟨_, mem_mismatches.mpr ⟨hentry, hconflict⟩, rfl, ha, hb⟩

/-- **Two requests with different defaults are shown together exactly if they are listed under one
    key**, and this is the key that both were made with. -/
theorem shown_together_iff {l : Ledger} (h : l.WellFormed) {a b : Request}
    (hdiffers : a.default ≠ b.default) :
    (∃ entry ∈ l.mismatches, a ∈ entry.2 ∧ b ∈ entry.2)
      ↔ l.Lists a.key a ∧ l.Lists b.key b ∧ a.key = b.key := by
  constructor
  · rintro ⟨entry, hentry, ha, hb⟩
    have hmem := (mem_mismatches.mp hentry).1
    have hkeyA := h.key_of_mem hmem ha
    have hkeyB := h.key_of_mem hmem hb
    have hlisted := h.listed_of_mem hmem
    refine ⟨?_, ?_, hkeyA.trans hkeyB.symm⟩
    · rw [Lists, hkeyA, hlisted]
      exact ha
    · rw [Lists, hkeyB, hlisted]
      exact hb
  · rintro ⟨ha, hb, hkey⟩
    rw [hkey] at ha
    obtain ⟨entry, hentry, -, hmemA, hmemB⟩ := exists_mismatch ha hb hdiffers
    exact ⟨entry, hentry, hmemA, hmemB⟩

end ParamStore.Ledger
