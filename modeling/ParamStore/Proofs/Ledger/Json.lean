import ParamStore.Ledger.Json
import ParamStore.Proofs.Json.Value
import ParamStore.Proofs.Ledger.History

/-!
# Ledgers as JSON — the text of a ledger is read as the ledger

A request has texts and at most one number, so the value of a ledger is legible whatever its keys
    and fields hold, and its text is read as that value. Each request is then found by
    the names of its fields, each set is gathered again from its requests, and the map from its
    entries; as sets and keys ascend already, gathering them again changes nothing.

* **`Request.ofJson?_toJson`** — a request is read from its fields.
* **`Request.union_nil`**, **`KeyMap.ofList_eq`** — what ascends is gathered as it is.
* **`Ledger.parse?_pretty`** — the law, for all ledgers whose keys and sets ascend.
* **`History.parse?_pretty_ledger`** — the law for the ledgers that come about.
-/

namespace ParamStore

open Number (isDigit decimal isDigit_of_mem_digits)

/-- In an ascending map, storing its entries one after the other gives the map. -/
theorem KeyMap.ofList_eq {α : Type} {m : KeyMap α} (h : m.Ascending) : ofList m = m := by
  refine eq_of_find?_eq (ofList_ascending m) h fun key => ?_
  show (insertAll [] m).find? key = m.find? key
  rw [find?_insertAll h]
  exact Option.or_none

-- ── Requests ──────────────────────────────────────────────────────────────────────

/-- The number of a line is natural. -/
theorem Line.exists_eq_natCast (line : Line) : ∃ n : Nat, line.val = n := by
  have hleast : (0 : Int) ≤ line.val := line.inRange.1
  exact ⟨line.val.toNat, (Int.toNat_of_nonneg hleast).symm⟩

/-- A line is read from its digits. -/
theorem Line.ofJson?_decimal (line : Line) :
    Line.ofJson? (.number (decimal line.val)) = some line := by
  have hdigits : (decimal line.val).toList.all isDigit = true := by
    obtain ⟨n, hn⟩ := line.exists_eq_natCast
    rw [hn, Json.toList_decimal]
    exact List.all_eq_true.mpr fun _ => isDigit_of_mem_digits
  rw [Line.ofJson?, if_pos hdigits, Number.IntKind.parse_decimal]

namespace Request

theorem legible_toJson (r : Request) : r.toJson.Legible := by
  refine Json.legibleMembers_iff.mpr ?_
  simp only [List.forall_mem_cons]
  refine ⟨trivial, trivial, trivial, ?_, trivial, fun _ h => absurd h List.not_mem_nil⟩
  cases hline : r.line with
  | none => trivial
  | some line =>
      obtain ⟨n, hn⟩ := line.exists_eq_natCast
      exact ⟨n, congrArg decimal hn⟩

/-- What an object of the five fields holds for each of them. -/
theorem slots_fields (key default file line validator : Json) :
    (Json.object [("key", key), ("default", default), ("file", file), ("line", line),
        ("validator", validator)]).slots fields
      = some [.given key, .given default, .given file, .given line, .given validator] := by
  simp [Json.slots, fields, Json.occurrences, Json.namedSlot]

/-- **A request is read from its fields.** -/
theorem ofJson?_toJson (r : Request) : ofJson? r.toJson = some r := by
  obtain ⟨key, default, file, line, validator⟩ := r
  rw [ofJson?, toJson, slots_fields]
  cases line with
  | none => rfl
  | some line =>
      have hline : (Json.Slot.given (.number (decimal line.val))).optional Line.ofJson?
          = some (some line) := by
        show (Line.ofJson? _).map some = _
        rw [Line.ofJson?_decimal, Option.map_some]
      simp only [hline]
      rfl

/-- A set gathered from nothing on is the set. -/
theorem union_nil {set : List Request} (h : Ascending set) : union [] set = set := by
  refine (union_ascending List.Pairwise.nil set).eq_of_mem_iff h fun r => ?_
  rw [mem_union]
  simp

end Request

-- ── Ledgers ───────────────────────────────────────────────────────────────────────

namespace Ledger

theorem legible_toJson (l : Ledger) : l.toJson.Legible := by
  refine Json.legibleMembers_iff.mpr fun member hmember => ?_
  obtain ⟨entry, -, rfl⟩ := List.mem_map.mp hmember
  refine Json.legibleItems_iff.mpr fun item hitem => ?_
  obtain ⟨r, -, rfl⟩ := List.mem_map.mp hitem
  exact r.legible_toJson

/-- A set is read from the array of its requests. -/
theorem setOfJson?_toJson {set : List Request} (h : Request.Ascending set) :
    setOfJson? (.array (set.map Request.toJson)) = some set := by
  have hitems : (set.map Request.toJson).mapM Request.ofJson? = some set :=
    Json.mapM_map_eq_some fun r _ => r.ofJson?_toJson
  rw [setOfJson?, hitems, Option.map_some, Request.union_nil h]

/-- A ledger is read from the object of its sets. -/
theorem ofJson?_toJson {l : Ledger} (hkeys : l.requests.Ascending)
    (hsets : ∀ entry ∈ l.requests, Request.Ascending entry.2) : ofJson? l.toJson = some l := by
  have hentries : (l.requests.map fun entry =>
        (entry.1, Json.array (entry.2.map Request.toJson))).mapM
      (fun member => (setOfJson? member.2).map fun rs => (member.1, rs)) = some l.requests := by
    refine Json.mapM_map_eq_some fun entry hentry => ?_
    rw [setOfJson?_toJson (hsets entry hentry)]
    rfl
  rw [toJson, ofJson?, hentries, Option.map_some, KeyMap.ofList_eq hkeys]

/-- **Reading undoes writing**: the indented text of a ledger whose keys and sets ascend is read as
    the ledger. -/
theorem parse?_pretty {l : Ledger} (hkeys : l.requests.Ascending)
    (hsets : ∀ entry ∈ l.requests, Request.Ascending entry.2) : parse? l.pretty = some l := by
  rw [parse?, pretty, Json.parse_pretty l.legible_toJson, Option.bind_some,
    ofJson?_toJson hkeys hsets]

end Ledger

/-- **The text of every ledger that comes about by recording and merging is read as the ledger**,
    whatever texts its requests hold. -/
theorem History.parse?_pretty_ledger (h : History) :
    Ledger.parse? h.ledger.pretty = some h.ledger := by
  have hformed := h.ledger_wellFormed
  refine Ledger.parse?_pretty hformed.keys fun entry hentry => ?_
  rw [← hformed.listed_of_mem hentry]
  exact hformed.sets entry.1

end ParamStore
