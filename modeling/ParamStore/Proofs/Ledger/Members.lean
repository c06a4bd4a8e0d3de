import Mathlib.Data.Ordering.Basic
import ParamStore.Ledger.Basic
import ParamStore.Proofs.KeyMap.View

/-!
# Members of a ledger — which requests are listed under which key

The full order of requests compares all fields, so two requests that it does not tell apart are the
    same, and an ascending list of requests is a set. A ledger is seen through its members: the
    pairs of a key and a request listed under it. Recording a request adds one
    pair, and adds it under the request's own key.

* **`order_eq_iff`** — the full order tells different requests apart.
* **`mem_insert`**, **`insert_ascending`**, **`insert_of_mem`** — insertion as insertion into a set.
* **`Ledger.Lists`** — the members; `lists_record` and `size_record` say what recording adds.
* **`Ledger.WellFormed`** — keys and sets ascend and every request is listed under its own key;
  recording and merging keep it.
-/

namespace ParamStore

open Number

namespace Request

-- ── The order ─────────────────────────────────────────────────────────────────────

/-- Lines are ordered as numbers that may be missing. -/
theorem lineOrder_eq_compare (a b : Option Line) :
    lineOrder a b = compare (a.map Ranged.val) (b.map Ranged.val) := by
  cases a with
  | none => cases b <;> rfl
  | some a => cases b <;> rfl

/-- The full order goes through the fields one after the other. -/
theorem order_eq_compareLex : order
    = compareLex (compareLex (compareOn key) (compareOn default))
        (compareLex (compareOn file)
          (compareLex (compareOn fun r => r.line.map Ranged.val) (compareOn validator))) := by
  funext a b
  rw [order, claimOrder, lineOrder_eq_compare]
  rfl

instance : Std.TransCmp order := by
  rw [order_eq_compareLex]
  infer_instance

/-- Key and default decide whether two requests make the same claim. -/
theorem claimOrder_eq_iff {a b : Request} :
    claimOrder a b = .eq ↔ a.key = b.key ∧ a.default = b.default := by
  rw [claimOrder, Ordering.then_eq_eq, Std.compare_eq_iff_eq, Std.compare_eq_iff_eq]

theorem lineOrder_eq_iff {a b : Option Line} : lineOrder a b = .eq ↔ a = b := by
  rw [lineOrder_eq_compare, Std.compare_eq_iff_eq]
  constructor
  · intro h
    exact Option.map_injective (fun _ _ => Ranged.ext_val) h
  · rintro rfl
    rfl

/-- **The full order tells different requests apart.** -/
theorem order_eq_iff {a b : Request} : order a b = .eq ↔ a = b := by
  rw [order]
  simp only [Ordering.then_eq_eq, claimOrder_eq_iff, lineOrder_eq_iff, Std.compare_eq_iff_eq]
  constructor
  · rintro ⟨⟨hkey, hdefault⟩, hfile, hline, hvalidator⟩
    obtain ⟨key, default, file, line, validator⟩ := a
    obtain ⟨key', default', file', line', validator'⟩ := b
    simp_all
  · rintro rfl
    simp

-- ── Sets of requests ──────────────────────────────────────────────────────────────

/-- The requests ascend strictly. -/
def Ascending (set : List Request) : Prop := set.Pairwise fun a b => order a b = .lt

/-- **An insertion adds its request and nothing else.** -/
theorem mem_insert {q r : Request} {set : List Request} :
    q ∈ insert r set ↔ q = r ∨ q ∈ set := by
  induction set with
  | nil => simp [insert]
  | cons s rest ih =>
      rw [insert]
      cases h : order r s with
      | lt => simp
      | eq =>
          obtain rfl := order_eq_iff.mp h
          simp
      | gt => simp only [List.mem_cons, ih, or_left_comm]

theorem insert_ascending {set : List Request} (h : Ascending set) (r : Request) :
    Ascending (insert r set) := by
  induction set with
  | nil => exact List.pairwise_singleton _ r
  | cons s rest ih =>
      obtain ⟨hbelow, hrest⟩ := List.pairwise_cons.mp h
      rw [insert]
      cases hr : order r s with
      | lt =>
          refine List.pairwise_cons.mpr ⟨?_, h⟩
          intro q hq
          rcases List.mem_cons.mp hq with rfl | hq
          · exact hr
          · exact Std.TransCmp.lt_trans hr (hbelow q hq)
      | eq => exact h
      | gt =>
          refine List.pairwise_cons.mpr ⟨?_, ih hrest⟩
          intro q hq
          rcases mem_insert.mp hq with rfl | hq
          · exact Std.OrientedCmp.gt_iff_lt.mp hr
          · exact hbelow q hq

/-- A request that is there already is not repeated. -/
theorem insert_of_mem {r : Request} {set : List Request} (h : Ascending set) (hr : r ∈ set) :
    insert r set = set := by
  induction set with
  | nil => exact absurd hr List.not_mem_nil
  | cons s rest ih =>
      obtain ⟨hbelow, hrest⟩ := List.pairwise_cons.mp h
      rw [insert]
      rcases List.mem_cons.mp hr with rfl | hr
      · rw [order_eq_iff.mpr rfl]
      · rw [Std.OrientedCmp.gt_iff_lt.mpr (hbelow r hr), ih hrest hr]

theorem length_insert_of_not_mem {r : Request} {set : List Request} (h : r ∉ set) :
    (insert r set).length = set.length + 1 := by
  induction set with
  | nil => rfl
  | cons s rest ih =>
      obtain ⟨hne, hrest⟩ := not_or.mp (mt List.mem_cons.mpr h)
      rw [insert]
      cases hr : order r s with
      | lt => rfl
      | eq => exact absurd (order_eq_iff.mp hr) hne
      | gt => rw [List.length_cons, ih hrest, List.length_cons]

theorem mem_union {q : Request} {into more : List Request} :
    q ∈ union into more ↔ q ∈ into ∨ q ∈ more := by
  induction more generalizing into with
  | nil => simp [union]
  | cons r more ih =>
      have hstep : union into (r :: more) = union (insert r into) more := rfl
      rw [hstep, ih, mem_insert, List.mem_cons, or_comm (a := q = r), or_assoc]

theorem union_ascending {into : List Request} (h : Ascending into) (more : List Request) :
    Ascending (union into more) := by
  induction more generalizing into with
  | nil => exact h
  | cons r more ih => exact ih (insert_ascending h r)

end Request

namespace Ledger

-- ── What is listed ────────────────────────────────────────────────────────────────

/-- The requests listed under a key. -/
def listed (l : Ledger) (key : String) : List Request := (l.requestsFor? key).getD []

/-- The request is listed under the key. -/
def Lists (l : Ledger) (key : String) (r : Request) : Prop := r ∈ l.listed key

instance (l : Ledger) (key : String) (r : Request) : Decidable (l.Lists key r) :=
  inferInstanceAs (Decidable (_ ∈ _))

/-- What is listed under a key is the entry of the key. -/
theorem mem_of_listed {l : Ledger} {key : String} (h : l.listed key ≠ []) :
    (key, l.listed key) ∈ l.requests := by
  unfold listed at h ⊢
  cases hfound : l.requestsFor? key with
  | none =>
      rw [hfound] at h
      exact absurd rfl h
  | some set => exact KeyMap.mem_of_find? hfound

theorem listed_of_mem {l : Ledger} (hkeys : l.requests.Ascending)
    {entry : String × List Request} (hentry : entry ∈ l.requests) : l.listed entry.1 = entry.2 := by
  rw [listed, requestsFor?, KeyMap.find?_of_mem hkeys hentry]
  rfl

/-- Requests added to a key join those of the key. -/
theorem listed_add (l : Ledger) (key other : String) (more : List Request) :
    (l.add key more).listed other
      = if other = key then Request.union (l.listed key) more else l.listed other := by
  rw [listed, requestsFor?, add, KeyMap.find?_insert]
  split
  · rfl
  · rfl

theorem lists_add {l : Ledger} {key other : String} {more : List Request} {r : Request} :
    (l.add key more).Lists other r ↔ l.Lists other r ∨ (other = key ∧ r ∈ more) := by
  rw [Lists, listed_add]
  by_cases h : other = key
  · subst h
    rw [if_pos rfl, Request.mem_union]
    simp [Lists]
  · rw [if_neg h]
    simp [Lists, h]

/-- **Recording a request lists it under its own key**, and nothing else. -/
theorem lists_record {l : Ledger} {r q : Request} {key : String} :
    (l.record r).Lists key q ↔ l.Lists key q ∨ (key = r.key ∧ q = r) := by
  rw [record, lists_add, List.mem_singleton]

-- ── The order of the keys ─────────────────────────────────────────────────────────

/-- Adding requests keeps the keys ascending, whichever they are. -/
theorem add_ascending {l : Ledger} (h : l.requests.Ascending) (key : String)
    (more : List Request) : (l.add key more).requests.Ascending :=
  KeyMap.insert_ascending h key _

theorem merge_ascending {l : Ledger} (h : l.requests.Ascending) (other : Ledger) :
    (l.merge other).requests.Ascending := by
  rw [merge]
  induction other.requests generalizing l with
  | nil => exact h
  | cons entry entries ih => exact ih (add_ascending h entry.1 entry.2)

-- ── The number of requests ────────────────────────────────────────────────────────

/-- A set in the place of another one changes the number of requests by the difference. -/
theorem length_insert {m : KeyMap (List Request)} (hm : m.Ascending) (key : String)
    (set : List Request) :
    ((m.insert key set).flatMap Prod.snd).length + ((m.find? key).getD []).length
      = (m.flatMap Prod.snd).length + set.length := by
  induction m with
  | nil => simp [KeyMap.insert, KeyMap.find?]
  | cons entry rest ih =>
      obtain ⟨other, old⟩ := entry
      obtain ⟨hbelow, hrest⟩ := KeyMap.ascending_cons_iff.mp hm
      rw [KeyMap.insert, KeyMap.find?]
      by_cases hlt : key < other
      · have hne : key ≠ other := fun he => String.lt_irrefl other (he ▸ hlt)
        have hnone : KeyMap.find? key rest = none :=
          KeyMap.find?_eq_none_of_below fun name hname => String.lt_trans hlt (hbelow name hname)
        rw [if_pos hlt, if_neg hne, hnone]
        simp only [List.flatMap_cons, List.length_append, Option.getD_none, List.length_nil]
        omega
      · rw [if_neg hlt]
        by_cases heq : key = other
        · rw [if_pos heq, if_pos heq]
          simp only [List.flatMap_cons, List.length_append, Option.getD_some]
          omega
        · rw [if_neg heq, if_neg heq]
          have hlength := ih hrest
          simp only [List.flatMap_cons, List.length_append]
          omega

-- ── Well-formed ledgers ───────────────────────────────────────────────────────────

/-- Keys and sets ascend, and every request is listed under its own key. -/
structure WellFormed (l : Ledger) : Prop where
  keys : l.requests.Ascending
  sets : ∀ key, Request.Ascending (l.listed key)
  filed : ∀ key r, l.Lists key r → r.key = key

theorem wellFormed_empty : empty.WellFormed where
  keys := List.Pairwise.nil
  sets _ := List.Pairwise.nil
  filed _ _ h := absurd h List.not_mem_nil

theorem add_wellFormed {l : Ledger} (h : l.WellFormed) {key : String} {more : List Request}
    (hmore : ∀ r ∈ more, r.key = key) : (l.add key more).WellFormed where
  keys := add_ascending h.keys key more
  sets other := by
    rw [listed_add]
    split
    · exact Request.union_ascending (h.sets key) more
    · exact h.sets other
  filed other r hr := by
    rcases lists_add.mp hr with hold | ⟨rfl, hnew⟩
    · exact h.filed other r hold
    · exact hmore r hnew

theorem record_wellFormed {l : Ledger} (h : l.WellFormed) (r : Request) :
    (l.record r).WellFormed :=
  add_wellFormed h (List.forall_mem_singleton.mpr rfl)

/-- In a well-formed ledger every entry is what is listed under its key. -/
theorem WellFormed.listed_of_mem {l : Ledger} (h : l.WellFormed) {entry : String × List Request}
    (hentry : entry ∈ l.requests) : l.listed entry.1 = entry.2 := Ledger.listed_of_mem h.keys hentry

/-- The requests of an entry have its key. -/
theorem WellFormed.key_of_mem {l : Ledger} (h : l.WellFormed) {entry : String × List Request}
    (hentry : entry ∈ l.requests) {r : Request} (hr : r ∈ entry.2) : r.key = entry.1 := by
  rw [← h.listed_of_mem hentry] at hr
  exact h.filed entry.1 r hr

theorem merge_wellFormed {l other : Ledger} (h : l.WellFormed) (h' : other.WellFormed) :
    (l.merge other).WellFormed := by
  have hown : ∀ entry ∈ other.requests, ∀ r ∈ entry.2, r.key = entry.1 :=
    fun _ hentry _ hr => h'.key_of_mem hentry hr
  rw [merge]
  generalize other.requests = entries at hown
  induction entries generalizing l with
  | nil => exact h
  | cons entry entries ih =>
      obtain ⟨hfirst, hrest⟩ := List.forall_mem_cons.mp hown
      exact ih (add_wellFormed h hfirst) hrest

/-- **Recording a request adds one to their number**, and nothing if it is listed already. -/
theorem size_record {l : Ledger} (h : l.WellFormed) (r : Request) :
    (l.record r).size = if l.Lists r.key r then l.size else l.size + 1 := by
  have hlength := length_insert h.keys r.key (Request.insert r (l.listed r.key))
  have hrecord : (l.record r).requests
      = l.requests.insert r.key (Request.insert r (l.listed r.key)) := rfl
  have hold : (l.requests.find? r.key).getD [] = l.listed r.key := rfl
  rw [size, hrecord, size]
  rw [hold] at hlength
  split
  · next hlists =>
      rw [Request.insert_of_mem (h.sets r.key) hlists] at hlength ⊢
      omega
  · next hnew =>
      rw [Request.length_insert_of_not_mem hnew] at hlength
      omega

end Ledger

end ParamStore
