/-!
# Key maps — finite maps from names, in ascending order

A key map is a list of named entries. Its operations keep the names strictly ascending (by
    code points, letter by letter) and so without repetition, which `insert_ascending` and
    `erase_ascending` state. Because order and contents then determine the list, two ascending
    maps with the same look-ups are the same map.

* **`find?`** — the view: what is stored under a name.
* **`insert`**, **`erase`** — `find?_insert` says what an insertion does to the view.
* **`Ascending`** — the order.
-/

namespace ParamStore

/-- Named entries. -/
abbrev KeyMap (α : Type) := List (String × α)

namespace KeyMap

variable {α : Type}

/-- What is stored under a name. -/
def find? (name : String) : KeyMap α → Option α
  | [] => none
  | (other, a) :: rest => if name = other then some a else find? name rest

/-- Something is stored under the name. -/
def contains (name : String) (m : KeyMap α) : Bool := (m.find? name).isSome

/-- Stores an entry at its place in the order, replacing what had the name. -/
def insert (name : String) (a : α) : KeyMap α → KeyMap α
  | [] => [(name, a)]
  | (other, b) :: rest =>
    if name < other then (name, a) :: (other, b) :: rest
    else if name = other then (name, a) :: rest
    else (other, b) :: insert name a rest

/-- Drops what has the name. -/
def erase (name : String) (m : KeyMap α) : KeyMap α := m.filter fun entry => entry.1 != name

/-- The names. -/
def names (m : KeyMap α) : List String := m.map Prod.fst

/-- A map of the entries; the last of several with one name counts. -/
def ofList (entries : List (String × α)) : KeyMap α :=
  entries.foldl (fun m entry => m.insert entry.1 entry.2) []

/-- The names ascend strictly. -/
def Ascending (m : KeyMap α) : Prop := m.names.Pairwise (· < ·)

instance (m : KeyMap α) : Decidable m.Ascending :=
  inferInstanceAs (Decidable (List.Pairwise _ _))

-- ── What insertion does ───────────────────────────────────────────────────────────

/-- The inserted entry is found under its name. -/
theorem find?_insert_self (name : String) (a : α) (m : KeyMap α) :
    (m.insert name a).find? name = some a := by
  induction m with
  | nil => simp [insert, find?]
  | cons entry rest ih =>
      obtain ⟨other, b⟩ := entry
      unfold insert
      split
      · simp [find?]
      · split
        · simp [find?]
        · next hne => simp [find?, hne, ih]

/-- Every other name keeps what it had. -/
theorem find?_insert_other {name key : String} (h : key ≠ name) (a : α) (m : KeyMap α) :
    (m.insert name a).find? key = m.find? key := by
  induction m with
  | nil => simp [insert, find?, h]
  | cons entry rest ih =>
      obtain ⟨other, b⟩ := entry
      unfold insert
      split
      · simp [find?, h]
      · split
        · next heq => subst heq; simp [find?, h]
        · simp [find?, ih]

/-- **An insertion changes the view at its name and nowhere else.** -/
theorem find?_insert (name key : String) (a : α) (m : KeyMap α) :
    (m.insert name a).find? key = if key = name then some a else m.find? key := by
  by_cases h : key = name
  · subst h; simp [find?_insert_self]
  · simp [h, find?_insert_other h]

/-- The names after an insertion are the inserted one and the old ones. -/
theorem mem_names_insert {name key : String} {a : α} {m : KeyMap α} :
    key ∈ (m.insert name a).names ↔ key = name ∨ key ∈ m.names := by
  induction m with
  | nil => simp [insert, names]
  | cons entry rest ih =>
      obtain ⟨other, b⟩ := entry
      unfold insert
      split
      · simp [names]
      · split
        · next heq => subst heq; simp [names]
        · simp only [names, List.map_cons, List.mem_cons] at ih ⊢
          rw [ih]
          exact or_left_comm

/-- **An insertion keeps the order.** -/
theorem insert_ascending {m : KeyMap α} (h : m.Ascending) (name : String) (a : α) :
    (m.insert name a).Ascending := by
  induction m with
  | nil => simp [insert, Ascending, names]
  | cons entry rest ih =>
      obtain ⟨other, b⟩ := entry
      have parts : (∀ x ∈ names rest, other < x) ∧ (names rest).Pairwise (· < ·) := by
        simpa [Ascending, names] using h
      unfold insert
      split
      · next hlt =>
          have below : ∀ x ∈ names rest, name < x :=
            fun x hx => String.lt_trans hlt (parts.1 x hx)
          simp only [Ascending, names, List.map_cons, List.pairwise_cons, List.mem_cons]
          refine ⟨?_, parts.1, parts.2⟩
          rintro x (rfl | hx)
          · exact hlt
          · exact below x hx
      · next hge =>
          split
          · next heq => subst heq; exact h
          · next hne =>
              have hlt : other < name := by
                refine Decidable.byContradiction fun hnot => hne ?_
                exact String.le_antisymm (String.not_lt.mp hnot) (String.not_lt.mp hge)
              simp only [Ascending, names, List.map_cons, List.pairwise_cons]
              refine ⟨?_, ih parts.2⟩
              intro x hx
              rcases mem_names_insert.mp hx with rfl | hold
              · exact hlt
              · exact parts.1 x hold

/-- **An erasure keeps the order.** -/
theorem erase_ascending {m : KeyMap α} (h : m.Ascending) (name : String) :
    (m.erase name).Ascending := by
  unfold Ascending names erase at *
  exact h.sublist (List.filter_sublist.map _)

/-- A map built from entries ascends. -/
theorem ofList_ascending (entries : List (String × α)) : (ofList entries).Ascending := by
  have run : ∀ (es : List (String × α)) (m : KeyMap α), m.Ascending →
      (es.foldl (fun m entry => m.insert entry.1 entry.2) m).Ascending := by
    intro es
    induction es with
    | nil => intro m h; exact h
    | cons e es ih => intro m h; exact ih _ (insert_ascending h e.1 e.2)
  exact run entries [] (by simp [Ascending, names])

end KeyMap

end ParamStore
