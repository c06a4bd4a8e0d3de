import ParamStore.Ledger.Json
import ParamStore.Proofs.Ledger.History

/-!
# Origins — ledgers that were read from texts, and what they bring along

A ledger also comes about by reading a text, and whatever was read can be recorded into and merged
    like any other. Recording files every request under its own key and makes no key without a request,
    and merging keeps both. Reading does neither: a text can have a key with an empty array, and
    under a key the requests of another one, and both are kept as they are given.

So two things that hold of every ledger that only recording and merging have made are as true as
    the texts are: that a ledger without requests has no keys, and that what is listed under a key was
    asked for under this key. Nothing else breaks them, and nothing mends them but a request that
    is listed somewhere, for the first.

* **`Origin`** — the ways in which a ledger comes about, with what was read on the way.
* **`Origin.lists_ledger`**, **`Origin.mem_keys_ledger`** — what is listed, and which keys there are.
* **`Origin.consistent_iff`** — when the two hold, in terms of what was recorded and read.
* **`Origin.read_texts_inconsistent`** — texts after which they do not.
-/

namespace ParamStore

namespace Ledger

-- ── Keys and requests ─────────────────────────────────────────────────────────────

theorem mem_keys_foldl_add {entries : List (String × List Request)} {l : Ledger} {key : String} :
    key ∈ (entries.foldl (fun into entry => into.add entry.1 entry.2) l).keys
      ↔ key ∈ l.keys ∨ key ∈ entries.map Prod.fst := by
  induction entries generalizing l with
  | nil => simp
  | cons entry entries ih =>
      have hadd : key ∈ (l.add entry.1 entry.2).keys ↔ key = entry.1 ∨ key ∈ l.keys :=
        KeyMap.mem_names_insert
      rw [List.foldl_cons, ih, hadd, List.map_cons, List.mem_cons, or_right_comm, or_comm]

/-- **A merge has the keys of both sides**, also those without requests. -/
theorem mem_keys_merge {l other : Ledger} {key : String} :
    key ∈ (l.merge other).keys ↔ key ∈ l.keys ∨ key ∈ other.keys := mem_keys_foldl_add

/-- A ledger is empty if it has no key. -/
theorem isEmpty_iff {l : Ledger} : l.isEmpty = true ↔ ∀ key, key ∉ l.keys := by
  rw [isEmpty, List.isEmpty_iff, ← List.eq_nil_iff_forall_not_mem, keys, KeyMap.names,
    List.map_eq_nil_iff]

theorem size_of_isEmpty {l : Ledger} (h : l.isEmpty = true) : l.size = 0 := by
  rw [size, List.isEmpty_iff.mp h]
  rfl

/-- The size of a ledger is zero if it lists nothing. -/
theorem size_eq_zero_iff {l : Ledger} (hkeys : l.requests.Ascending) :
    l.size = 0 ↔ ∀ key r, ¬ l.Lists key r := by
  rw [size, List.length_eq_zero_iff, List.flatMap_eq_nil_iff]
  constructor
  · intro hsets key r hlists
    obtain ⟨entry, hentry, -, hr⟩ := (lists_iff_exists_mem hkeys).mp hlists
    exact List.ne_nil_of_mem hr (hsets entry hentry)
  · intro hnone entry hentry
    refine List.eq_nil_iff_forall_not_mem.mpr fun r hr => hnone entry.1 r ?_
    exact (lists_iff_exists_mem hkeys).mpr ⟨entry, hentry, rfl, hr⟩

/-- What is listed under a key was asked for under this key. -/
def Filed (l : Ledger) : Prop := ∀ key r, l.Lists key r → r.key = key

/-- The keys of a ledger that is read ascend, whatever the order in the text. -/
theorem parse?_ascending {text : String} {l : Ledger} (h : parse? text = some l) :
    l.requests.Ascending := by
  obtain ⟨j, -, hj⟩ := Option.bind_eq_some_iff.mp h
  cases j with
  | object members =>
      obtain ⟨entries, -, rfl⟩ := Option.map_eq_some_iff.mp hj
      exact KeyMap.ofList_ascending entries
  | _ => cases hj

end Ledger

-- ── Origins ───────────────────────────────────────────────────────────────────────

/-- A way in which a ledger comes about, reading included. -/
inductive Origin where
  | nothing
  | record (o : Origin) (r : Request)
  | merge (o other : Origin)
  | read {text : String} {l : Ledger} (h : Ledger.parse? text = some l)

namespace Origin

/-- The ledger of an origin. -/
def ledger : Origin → Ledger
  | nothing => Ledger.empty
  | record o r => o.ledger.record r
  | merge o other => o.ledger.merge other.ledger
  | @read _ l _ => l

/-- The requests recorded on the way. -/
def recorded : Origin → List Request
  | nothing => []
  | record o r => r :: o.recorded
  | merge o other => o.recorded ++ other.recorded
  | read _ => []

/-- The ledgers read on the way, as they were read. -/
def reads : Origin → List Ledger
  | nothing => []
  | record o _ => o.reads
  | merge o other => o.reads ++ other.reads
  | @read _ l _ => [l]

theorem ascending_ledger (o : Origin) : o.ledger.requests.Ascending := by
  induction o with
  | nothing => exact List.Pairwise.nil
  | record o r ih => exact Ledger.add_ascending ih r.key [r]
  | merge o other ih _ => exact Ledger.merge_ascending ih other.ledger
  | read h => exact Ledger.parse?_ascending h

theorem ascending_of_mem_reads {o : Origin} {l : Ledger} (h : l ∈ o.reads) :
    l.requests.Ascending := by
  induction o with
  | nothing => exact absurd h List.not_mem_nil
  | record o r ih => exact ih h
  | merge o other ih ih' => exact (List.mem_append.mp h).elim ih ih'
  | read hread =>
      obtain rfl := List.mem_singleton.mp h
      exact Ledger.parse?_ascending hread

/-- **What is listed was recorded under its own key, or was read**, under whichever key. -/
theorem lists_ledger {o : Origin} {key : String} {r : Request} :
    o.ledger.Lists key r ↔ (r ∈ o.recorded ∧ r.key = key) ∨ ∃ l ∈ o.reads, l.Lists key r := by
  induction o with
  | nothing => simp [ledger, recorded, reads, Ledger.Lists, Ledger.listed, Ledger.empty,
      Ledger.requestsFor?, KeyMap.find?]
  | record o q ih =>
      rw [ledger, Ledger.lists_record, ih, recorded, reads, List.mem_cons]
      constructor
      · rintro ((⟨hr, hkey⟩ | hread) | ⟨rfl, rfl⟩)
        · exact Or.inl ⟨Or.inr hr, hkey⟩
        · exact Or.inr hread
        · exact Or.inl ⟨Or.inl rfl, rfl⟩
      · rintro (⟨rfl | hr, hkey⟩ | hread)
        · exact Or.inr ⟨hkey.symm, rfl⟩
        · exact Or.inl (Or.inl ⟨hr, hkey⟩)
        · exact Or.inl (Or.inr hread)
  | merge o other ih ih' =>
      rw [ledger, Ledger.lists_merge other.ascending_ledger, ih, ih', recorded, reads, or_or_or_comm]
      simp only [List.mem_append, or_and_right, exists_or]
  | read h => simp [ledger, recorded, reads]

/-- **The keys are those of recorded requests and those that were read**, with requests or without. -/
theorem mem_keys_ledger {o : Origin} {key : String} :
    key ∈ o.ledger.keys ↔ (∃ r ∈ o.recorded, r.key = key) ∨ ∃ l ∈ o.reads, key ∈ l.keys := by
  induction o with
  | nothing => simp [ledger, recorded, reads, Ledger.keys, Ledger.empty, KeyMap.names]
  | record o q ih =>
      have hrecord : key ∈ (o.ledger.record q).keys ↔ key = q.key ∨ key ∈ o.ledger.keys :=
        KeyMap.mem_names_insert
      rw [ledger, hrecord, ih, recorded, reads, List.exists_mem_cons_iff, eq_comm, or_assoc]
  | merge o other ih ih' =>
      rw [ledger, Ledger.mem_keys_merge, ih, ih', recorded, reads, or_or_or_comm]
      simp only [List.mem_append, or_and_right, exists_or]
  | read h => simp [ledger, recorded, reads]

theorem isEmpty_ledger_iff {o : Origin} :
    o.ledger.isEmpty = true ↔ o.recorded = [] ∧ ∀ l ∈ o.reads, l.isEmpty = true := by
  simp only [Ledger.isEmpty_iff, mem_keys_ledger, List.eq_nil_iff_forall_not_mem]
  constructor
  · intro hnone
    refine ⟨fun r hr => hnone r.key (Or.inl ⟨r, hr, rfl⟩), fun l hl key hkey => ?_⟩
    exact hnone key (Or.inr ⟨l, hl, hkey⟩)
  · rintro ⟨hrecorded, hreads⟩ key (⟨r, hr, -⟩ | ⟨l, hl, hkey⟩)
    · exact hrecorded r hr
    · exact hreads l hl key hkey

theorem size_ledger_eq_zero_iff {o : Origin} :
    o.ledger.size = 0 ↔ o.recorded = [] ∧ ∀ l ∈ o.reads, l.size = 0 := by
  rw [Ledger.size_eq_zero_iff o.ascending_ledger, List.eq_nil_iff_forall_not_mem]
  simp only [lists_ledger]
  constructor
  · intro hnone
    refine ⟨fun r hr => hnone r.key r (Or.inl ⟨hr, rfl⟩), fun l hl => ?_⟩
    refine (Ledger.size_eq_zero_iff (ascending_of_mem_reads hl)).mpr fun key r hlists => ?_
    exact hnone key r (Or.inr ⟨l, hl, hlists⟩)
  · rintro ⟨hrecorded, hreads⟩ key r (⟨hr, -⟩ | ⟨l, hl, hlists⟩)
    · exact hrecorded r hr
    · have hkeys := ascending_of_mem_reads hl
      exact (Ledger.size_eq_zero_iff hkeys).mp (hreads l hl) key r hlists

theorem filed_ledger_iff {o : Origin} : o.ledger.Filed ↔ ∀ l ∈ o.reads, l.Filed := by
  constructor
  · intro hfiled l hl key r hlists
    exact hfiled key r (lists_ledger.mpr (Or.inr ⟨l, hl, hlists⟩))
  · intro hreads key r hlists
    rcases lists_ledger.mp hlists with ⟨-, hkey⟩ | ⟨l, hl, hread⟩
    · exact hkey
    · exact hreads l hl key r hread

/-- **When a ledger is consistent.** An empty one lists nothing. One that lists nothing is empty
    unless all it has are keys without requests from a text: nothing was recorded, no request was
    read, but a key was. And what is listed under a key was asked for under this key exactly if this
    holds of every ledger that was read. -/
theorem consistent_iff (o : Origin) :
    (o.ledger.isEmpty = true → o.ledger.size = 0)
      ∧ ((o.ledger.isEmpty = true ↔ o.ledger.size = 0) ↔
        o.recorded ≠ [] ∨ (∃ l ∈ o.reads, l.size ≠ 0) ∨ ∀ l ∈ o.reads, l.isEmpty = true)
      ∧ (o.ledger.Filed ↔ ∀ l ∈ o.reads, l.Filed) := by
  refine ⟨Ledger.size_of_isEmpty, ?_, filed_ledger_iff⟩
  rw [isEmpty_ledger_iff, size_ledger_eq_zero_iff]
  constructor
  · intro hiff
    by_cases hrecorded : o.recorded = []
    · by_cases hsizes : ∀ l ∈ o.reads, l.size = 0
      · exact Or.inr (Or.inr (hiff.mpr ⟨hrecorded, hsizes⟩).2)
      · exact Or.inr (Or.inl (by simpa using hsizes))
    · exact Or.inl hrecorded
  · rintro (hrecorded | ⟨l, hl, hsize⟩ | hnone)
    · exact iff_of_false (fun h => hrecorded h.1) fun h => hrecorded h.1
    · exact iff_of_false (fun h => hsize (Ledger.size_of_isEmpty (h.2 l hl))) fun h =>
        hsize (h.2 l hl)
    · constructor
      · rintro ⟨hrecorded, hempty⟩
        exact ⟨hrecorded, fun l hl => Ledger.size_of_isEmpty (hempty l hl)⟩
      · rintro ⟨hrecorded, -⟩
        exact ⟨hrecorded, hnone⟩

/-- A key without requests from a text, before a request is recorded for another key and after it. -/
theorem consistent_iff_mended :
    ∃ l, ∃ h : Ledger.parse? "\x7b\"k\": []\x7d" = some l,
      let o := read h
      let after := o.record (.unplaced "a" "1" "none")
      ¬ (o.ledger.isEmpty = true ↔ o.ledger.size = 0)
        ∧ (after.ledger.isEmpty = true ↔ after.ledger.size = 0)
        ∧ after.ledger.keys = ["a", "k"] ∧ after.ledger.Filed := by
  have hread : Ledger.parse? "\x7b\"k\": []\x7d" = some ⟨[("k", [])]⟩ := by decide +kernel
  have hfiled : Ledger.Filed ⟨[("k", [])]⟩ := by
    intro key r hlists
    obtain ⟨entry, hentry, -, hr⟩ :=
      (Ledger.lists_iff_exists_mem (Ledger.parse?_ascending hread)).mp hlists
    obtain rfl := List.mem_singleton.mp hentry
    cases hr
  refine ⟨_, hread, ?_, ?_, rfl, ?_⟩
  · rw [(consistent_iff _).2.1]
    rintro (hrecorded | ⟨l, hl, hsize⟩ | hempty)
    · exact hrecorded rfl
    · obtain rfl := List.mem_singleton.mp hl
      exact hsize rfl
    · cases hempty _ (List.mem_singleton.mpr rfl)
  · exact (consistent_iff _).2.1.mpr (Or.inl (List.cons_ne_nil _ _))
  · refine (consistent_iff _).2.2.mpr fun l hl => ?_
    obtain rfl := List.mem_singleton.mp hl
    exact hfiled

/-- **A text can bring along a key without requests, and requests under the key of another one.** The
    first of these ledgers is not empty and has no request; the second lists under one key what was
    asked for under another. -/
theorem read_texts_inconsistent :
    let hollow := "\x7b\"k\": []\x7d"
    let misfiled := "\x7b\"a\": [\x7b\"key\": \"b\", \"default\": \"1\", \"file\": \"\", \"line\": null, \"validator\": \"none\"\x7d]\x7d"
    (∃ l, ∃ h : Ledger.parse? hollow = some l,
        (read h).ledger.isEmpty = false ∧ (read h).ledger.size = 0)
      ∧ ∃ l, ∃ h : Ledger.parse? misfiled = some l,
        (read h).ledger.Lists "a" (.unplaced "b" "1" "none") ∧ ¬ (read h).ledger.Filed := by
  intro hollow misfiled
  have hhollow : Ledger.parse? hollow = some ⟨[("k", [])]⟩ := by decide +kernel
  have hmisfiled : Ledger.parse? misfiled = some ⟨[("a", [.unplaced "b" "1" "none"])]⟩ := by
    decide +kernel
  have hlists : Ledger.Lists ⟨[("a", [.unplaced "b" "1" "none"])]⟩ "a"
      (.unplaced "b" "1" "none") := by decide +kernel
  refine ⟨⟨_, hhollow, rfl, rfl⟩, _, hmisfiled, hlists, ?_⟩
  intro hfiled
  exact absurd (hfiled _ _ hlists) (by decide +kernel)

end Origin

end ParamStore
