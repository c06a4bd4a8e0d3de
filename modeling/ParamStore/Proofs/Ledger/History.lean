import Mathlib.Data.List.Dedup
import ParamStore.Proofs.Ledger.Members

/-!
# Histories of ledgers — the content does not say how it came about

A ledger comes about by recording requests and by merging ledgers that came about the same way. A
    history is such a way, as a tree: its leaves are empty ledgers, and a ledger that is merged
    in twice is a branch that occurs twice. All that is left of a history is which requests were
    recorded in it. The reason is that its ledger is well-formed and has no key without
    requests, and such a ledger is determined by its members.

* **`Ledger.lists_merge`** — a merge lists what one of the two sides lists.
* **`Ledger.eq_of_lists_iff`** — well-formed ledgers without empty sets are equal if they list the
  same.
* **`Ledger.Catalogues`** — a ledger holds exactly some recorded requests: what it answers on a
  key, which keys it has, and how many requests.
* **`History.ledger_determined`** — the ledger of a history catalogues the recorded requests, and
  depends on nothing else.
-/

namespace ParamStore

namespace Request

/-- An ascending list repeats nothing. -/
theorem Ascending.nodup {set : List Request} (h : Ascending set) : set.Nodup := by
  refine h.imp fun hlt heq => ?_
  rw [order_eq_iff.mpr heq] at hlt
  cases hlt

/-- **Ascending lists with the same members are equal.** -/
theorem Ascending.eq_of_mem_iff {set set' : List Request} (h : Ascending set)
    (h' : Ascending set') (hmem : ∀ r, r ∈ set ↔ r ∈ set') : set = set' := by
  have hperm : set.Perm set' := (List.perm_ext_iff_of_nodup h.nodup h'.nodup).mpr hmem
  refine hperm.eq_of_pairwise ?_ h h'
  intro a b _ _ hlt hgt
  exact absurd (hgt.symm.trans (Std.OrientedCmp.gt_iff_lt.mpr hlt)) (by decide)

end Request

namespace Ledger

-- ── Members of a merge ────────────────────────────────────────────────────────────

/-- Entries added one after the other list what they hold, each under its own key. -/
theorem lists_foldl_add {entries : List (String × List Request)} {l : Ledger} {key : String}
    {r : Request} :
    (entries.foldl (fun into entry => into.add entry.1 entry.2) l).Lists key r
      ↔ l.Lists key r ∨ ∃ entry ∈ entries, entry.1 = key ∧ r ∈ entry.2 := by
  induction entries generalizing l with
  | nil => simp
  | cons entry entries ih =>
      rw [List.foldl_cons, ih, lists_add, List.exists_mem_cons_iff, or_assoc, eq_comm]

/-- What is listed under a key stands in the entry with this key. -/
theorem lists_iff_exists_mem {l : Ledger} (h : l.requests.Ascending) {key : String} {r : Request} :
    l.Lists key r ↔ ∃ entry ∈ l.requests, entry.1 = key ∧ r ∈ entry.2 := by
  constructor
  · intro hlists
    exact ⟨(key, l.listed key), mem_of_listed (List.ne_nil_of_mem hlists), rfl, hlists⟩
  · rintro ⟨entry, hentry, rfl, hr⟩
    rw [Lists, listed_of_mem h hentry]
    exact hr

/-- **A merge lists what one of the two sides lists**, under the same key. -/
theorem lists_merge {l other : Ledger} (hkeys : other.requests.Ascending) {key : String}
    {r : Request} : (l.merge other).Lists key r ↔ l.Lists key r ∨ other.Lists key r := by
  rw [merge, lists_foldl_add, lists_iff_exists_mem hkeys]

-- ── No key without requests ───────────────────────────────────────────────────────

/-- Every key of the ledger has a request. -/
def Filled (l : Ledger) : Prop := ∀ key, l.requestsFor? key ≠ some []

theorem filled_empty : empty.Filled := fun _ h => Option.some_ne_none _ h.symm

theorem add_filled {l : Ledger} (h : l.Filled) (key : String) {more : List Request}
    (hmore : more ≠ []) : (l.add key more).Filled := by
  obtain ⟨r, rest, rfl⟩ := List.exists_cons_of_ne_nil hmore
  intro other hnone
  rw [requestsFor?, add, KeyMap.find?_insert] at hnone
  by_cases heq : other = key
  · rw [if_pos heq] at hnone
    have hr : r ∈ Request.union ((l.requests.find? key).getD []) (r :: rest) :=
      Request.mem_union.mpr (Or.inr List.mem_cons_self)
    rw [Option.some.inj hnone] at hr
    exact List.not_mem_nil hr
  · rw [if_neg heq] at hnone
    exact h other hnone

theorem record_filled {l : Ledger} (h : l.Filled) (r : Request) : (l.record r).Filled :=
  add_filled h r.key (List.cons_ne_nil r [])

/-- The sets of a ledger without empty ones are not empty. -/
theorem Filled.ne_nil_of_mem {l : Ledger} (h : l.Filled) (hkeys : l.requests.Ascending)
    {entry : String × List Request} (hentry : entry ∈ l.requests) : entry.2 ≠ [] := by
  intro hnil
  have hfound : l.requestsFor? entry.1 = some entry.2 := KeyMap.find?_of_mem hkeys hentry
  rw [hnil] at hfound
  exact h entry.1 hfound

theorem merge_filled {l other : Ledger} (h : l.Filled) (hkeys : other.requests.Ascending)
    (h' : other.Filled) : (l.merge other).Filled := by
  have hsets : ∀ entry ∈ other.requests, entry.2 ≠ [] := fun _ => h'.ne_nil_of_mem hkeys
  rw [merge]
  generalize other.requests = entries at hsets
  induction entries generalizing l with
  | nil => exact h
  | cons entry entries ih =>
      obtain ⟨hfirst, hrest⟩ := List.forall_mem_cons.mp hsets
      exact ih (add_filled h entry.1 hfirst) hrest

/-- Without empty sets, the answer on a key is the list of its requests, unless this is empty. -/
theorem Filled.requestsFor?_eq {l : Ledger} (h : l.Filled) (key : String) :
    l.requestsFor? key = if l.listed key = [] then none else some (l.listed key) := by
  rw [listed]
  cases hfound : l.requestsFor? key with
  | none => rfl
  | some set =>
      have hset : set ≠ [] := by
        rintro rfl
        exact h key hfound
      rw [Option.getD_some, if_neg hset]

/-- **Well-formed ledgers without empty sets are equal if they list the same.** -/
theorem eq_of_lists_iff {l l' : Ledger} (h : l.WellFormed) (hfilled : l.Filled)
    (h' : l'.WellFormed) (hfilled' : l'.Filled)
    (hlists : ∀ key r, l.Lists key r ↔ l'.Lists key r) : l = l' := by
  have hlisted : ∀ key, l.listed key = l'.listed key :=
    fun key => (h.sets key).eq_of_mem_iff (h'.sets key) (hlists key)
  have hrequests : l.requests = l'.requests := by
    refine KeyMap.eq_of_find?_eq h.keys h'.keys fun key => ?_
    show l.requestsFor? key = l'.requestsFor? key
    rw [hfilled.requestsFor?_eq, hfilled'.requestsFor?_eq, hlisted]
  obtain ⟨requests⟩ := l
  obtain ⟨requests'⟩ := l'
  exact congrArg Ledger.mk hrequests

-- ── A ledger of given requests ────────────────────────────────────────────────────

/-- The ledger holds exactly the recorded requests: it answers on a key with those that have the
    key, in ascending order, and only on the keys that occur; its keys ascend; and its size counts
    every request once. -/
structure Catalogues (l : Ledger) (recorded : List Request) : Prop where
  absent : ∀ key, l.requestsFor? key = none ↔ ∀ r ∈ recorded, r.key ≠ key
  found : ∀ key set, l.requestsFor? key = some set →
    Request.Ascending set ∧ ∀ r, r ∈ set ↔ r ∈ recorded ∧ r.key = key
  ascending : l.keys.Pairwise (· < ·)
  keys : ∀ key, key ∈ l.keys ↔ ∃ r ∈ recorded, r.key = key
  size : l.size = recorded.dedup.length

/-- The requests of a well-formed ledger, entry after entry, are all different. -/
theorem WellFormed.nodup_requests {l : Ledger} (h : l.WellFormed) :
    (l.requests.flatMap Prod.snd).Nodup := by
  refine List.nodup_flatMap.mpr ⟨?_, ?_⟩
  · intro entry hentry
    show entry.2.Nodup
    rw [← h.listed_of_mem hentry]
    exact (h.sets entry.1).nodup
  · refine List.Pairwise.imp_of_mem ?_ (KeyMap.pairwise_ne_of_ascending h.keys)
    intro a b ha hb hne r hra hrb
    exact hne ((h.key_of_mem ha hra).symm.trans (h.key_of_mem hb hrb))

/-- A well-formed ledger without empty sets catalogues what it lists. -/
theorem catalogues_of_lists_iff {l : Ledger} {recorded : List Request} (h : l.WellFormed)
    (hfilled : l.Filled) (hlists : ∀ key r, l.Lists key r ↔ r ∈ recorded ∧ r.key = key) :
    l.Catalogues recorded := by
  have habsent : ∀ key, l.requestsFor? key = none ↔ ∀ r ∈ recorded, r.key ≠ key := by
    intro key
    rw [hfilled.requestsFor?_eq, ite_eq_left_iff, List.eq_nil_iff_forall_not_mem]
    constructor
    · intro hnone r hr hkey
      exact Option.some_ne_none _ (hnone fun hnil => hnil r ((hlists key r).mpr ⟨hr, hkey⟩))
    · intro hnone hlisted
      refine absurd ?_ hlisted
      intro r hr
      obtain ⟨hrecorded, hkey⟩ := (hlists key r).mp hr
      exact hnone r hrecorded hkey
  refine ⟨habsent, ?_, h.keys, ?_, ?_⟩
  · intro key set hfound
    have hset : l.listed key = set := by rw [listed, hfound]; rfl
    rw [← hset]
    exact ⟨h.sets key, hlists key⟩
  · intro key
    rw [Ledger.keys, ← KeyMap.find?_isSome_iff, Option.isSome_iff_ne_none]
    show l.requestsFor? key ≠ none ↔ _
    simp only [ne_eq, habsent, not_forall, not_not, exists_prop]
  · have hmem : ∀ r, r ∈ l.requests.flatMap Prod.snd ↔ r ∈ recorded.dedup := by
      intro r
      rw [List.mem_flatMap, List.mem_dedup]
      constructor
      · rintro ⟨entry, hentry, hr⟩
        rw [← h.listed_of_mem hentry] at hr
        exact ((hlists entry.1 r).mp hr).1
      · intro hr
        obtain ⟨entry, hentry, -, hset⟩ :=
          (lists_iff_exists_mem h.keys).mp ((hlists r.key r).mpr ⟨hr, rfl⟩)
        exact ⟨entry, hentry, hset⟩
    exact ((List.perm_ext_iff_of_nodup h.nodup_requests (List.nodup_dedup _)).mpr hmem).length_eq

end Ledger

-- ── Histories ─────────────────────────────────────────────────────────────────────

/-- A way in which a ledger comes about. -/
inductive History where
  | nothing
  | record (h : History) (r : Request)
  | merge (h other : History)

namespace History

/-- The ledger of a history. -/
def ledger : History → Ledger
  | nothing => Ledger.empty
  | record h r => h.ledger.record r
  | merge h other => h.ledger.merge other.ledger

/-- The requests recorded in a history, as often as they were. -/
def requests : History → List Request
  | nothing => []
  | record h r => r :: h.requests
  | merge h other => h.requests ++ other.requests

theorem ledger_wellFormed (h : History) : h.ledger.WellFormed := by
  induction h with
  | nothing => exact Ledger.wellFormed_empty
  | record h r ih => exact Ledger.record_wellFormed ih r
  | merge h other ih ih' => exact Ledger.merge_wellFormed ih ih'

theorem ledger_filled (h : History) : h.ledger.Filled := by
  induction h with
  | nothing => exact Ledger.filled_empty
  | record h r ih => exact Ledger.record_filled ih r
  | merge h other ih ih' => exact Ledger.merge_filled ih other.ledger_wellFormed.keys ih'

/-- **What is listed is what was recorded**, each request under its own key. -/
theorem lists_ledger {h : History} {key : String} {r : Request} :
    h.ledger.Lists key r ↔ r ∈ h.requests ∧ r.key = key := by
  induction h with
  | nothing =>
      constructor
      · intro hlists
        exact absurd hlists List.not_mem_nil
      · rintro ⟨hr, -⟩
        exact absurd hr List.not_mem_nil
  | record h q ih =>
      rw [ledger, Ledger.lists_record, ih, requests, List.mem_cons]
      constructor
      · rintro (⟨hr, hkey⟩ | ⟨rfl, rfl⟩)
        · exact ⟨Or.inr hr, hkey⟩
        · exact ⟨Or.inl rfl, rfl⟩
      · rintro ⟨rfl | hr, hkey⟩
        · exact Or.inr ⟨hkey.symm, rfl⟩
        · exact Or.inl ⟨hr, hkey⟩
  | merge h other ih ih' =>
      rw [ledger, Ledger.lists_merge other.ledger_wellFormed.keys, ih, ih', requests, List.mem_append,
        or_and_right]

/-- The ledger of a history catalogues the recorded requests. -/
theorem catalogues_ledger (h : History) : h.ledger.Catalogues h.requests :=
  Ledger.catalogues_of_lists_iff h.ledger_wellFormed h.ledger_filled fun _ _ => lists_ledger

/-- **Histories have the same ledger exactly if the same requests were recorded in them.** -/
theorem ledger_eq_iff {h h' : History} :
    h.ledger = h'.ledger ↔ ∀ r, r ∈ h.requests ↔ r ∈ h'.requests := by
  constructor
  · intro heq r
    have hlists : h.ledger.Lists r.key r ↔ h'.ledger.Lists r.key r := by rw [heq]
    rw [lists_ledger, lists_ledger] at hlists
    simpa using hlists
  · intro hrequests
    refine Ledger.eq_of_lists_iff h.ledger_wellFormed h.ledger_filled h'.ledger_wellFormed
      h'.ledger_filled fun key r => ?_
    rw [lists_ledger, lists_ledger, hrequests]

/-- **The content of a ledger is the set of the requests recorded in it**, in whatever order and
    by whatever merges they came together: it catalogues them, two histories have the same ledger
    exactly if they record the same requests, and so merging is a union. -/
theorem ledger_determined :
    (∀ h : History, h.ledger.Catalogues h.requests)
    ∧ (∀ h h' : History, h.ledger = h'.ledger ↔ ∀ r, r ∈ h.requests ↔ r ∈ h'.requests)
    ∧ (∀ a b : History, a.ledger.merge b.ledger = b.ledger.merge a.ledger)
    ∧ (∀ a b c : History,
        (a.ledger.merge b.ledger).merge c.ledger = a.ledger.merge (b.ledger.merge c.ledger))
    ∧ (∀ a : History, a.ledger.merge a.ledger = a.ledger)
    ∧ (∀ a : History,
        a.ledger.merge Ledger.empty = a.ledger ∧ Ledger.empty.merge a.ledger = a.ledger) := by
  refine ⟨catalogues_ledger, fun _ _ => ledger_eq_iff, ?_, ?_, ?_, ?_⟩
  · intro a b
    show (a.merge b).ledger = (b.merge a).ledger
    refine ledger_eq_iff.mpr fun r => ?_
    simp only [requests, List.mem_append]
    exact or_comm
  · intro a b c
    show ((a.merge b).merge c).ledger = (a.merge (b.merge c)).ledger
    refine ledger_eq_iff.mpr fun r => ?_
    simp only [requests, List.mem_append]
    exact or_assoc
  · intro a
    show (a.merge a).ledger = a.ledger
    refine ledger_eq_iff.mpr fun r => ?_
    simp only [requests, List.mem_append, or_self]
  · intro a
    constructor
    · rfl
    · show (nothing.merge a).ledger = a.ledger
      refine ledger_eq_iff.mpr fun r => ?_
      simp only [requests, List.nil_append]

end History

end ParamStore
