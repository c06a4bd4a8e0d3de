import ParamStore.KeyMap

/-!
# Key maps by their view — an ascending map is its look-ups

Everything that a tree does with its levels is said in terms of look-ups, and two ascending maps
    with the same look-ups are the same list. So an operation on key maps is settled by
    two facts: that it keeps the order, and what it does to the view.

* **`eq_of_find?_eq`** — ascending maps with the same view are equal.
* **`find?_erase`**, **`find?_insertAll`** — the view after an erasure, and after the insertion of
  one map's entries into another.
* **`insert_of_find?`** — storing what is there changes nothing.
* **`ofList_perm`**, **`ofList_eq_of_perm`** — the map of entries with different names has these
  entries, whatever their order.
-/

namespace ParamStore.KeyMap

variable {α : Type}

-- ── Names and look-ups ────────────────────────────────────────────────────────────

theorem find?_isSome_iff {m : KeyMap α} {name : String} :
    (m.find? name).isSome = true ↔ name ∈ m.names := by
  induction m with
  | nil => simp [find?, names]
  | cons entry rest ih =>
      obtain ⟨other, a⟩ := entry
      by_cases h : name = other
      · simp [find?, names, h]
      · simp only [find?, h, if_false, names, List.map_cons, List.mem_cons, false_or]
        exact ih

theorem find?_eq_none_iff {m : KeyMap α} {name : String} :
    m.find? name = none ↔ name ∉ m.names := by
  rw [← find?_isSome_iff, Option.not_isSome_iff_eq_none]

theorem contains_iff {m : KeyMap α} {name : String} :
    m.contains name = true ↔ name ∈ m.names := find?_isSome_iff

theorem mem_names_of_find? {m : KeyMap α} {name : String} {a : α} (h : m.find? name = some a) :
    name ∈ m.names := find?_isSome_iff.mp (by rw [h]; rfl)

/-- Every name has something to be found. -/
theorem exists_find?_of_mem_names {m : KeyMap α} {name : String} (h : name ∈ m.names) :
    ∃ a, m.find? name = some a := Option.isSome_iff_exists.mp (find?_isSome_iff.mpr h)

/-- What is not empty has something to be found. -/
theorem exists_find?_of_ne_nil {m : KeyMap α} (h : m ≠ []) : ∃ name a, m.find? name = some a := by
  obtain ⟨⟨name, a⟩, rest, rfl⟩ := List.exists_cons_of_ne_nil h
  exact ⟨name, a, by rw [find?, if_pos rfl]⟩

theorem mem_of_find? {m : KeyMap α} {name : String} {a : α} (h : m.find? name = some a) :
    (name, a) ∈ m := by
  induction m with
  | nil => exact nomatch h
  | cons entry rest ih =>
      obtain ⟨other, b⟩ := entry
      rw [find?] at h
      split at h
      · next heq =>
          obtain rfl := Option.some.inj h
          rw [heq]
          exact List.mem_cons_self
      · exact List.mem_cons_of_mem _ (ih h)

-- ── The order determines the list ─────────────────────────────────────────────────

/-- The first name of an ascending map is below the others, which ascend. -/
theorem ascending_cons_iff {name : String} {a : α} {m : KeyMap α} :
    Ascending ((name, a) :: m) ↔ (∀ other ∈ m.names, name < other) ∧ m.Ascending := by
  simp [Ascending, names]

theorem find?_eq_none_of_below {m : KeyMap α} {name : String} (h : ∀ other ∈ m.names, name < other) :
    m.find? name = none :=
  find?_eq_none_iff.mpr fun hmem => String.lt_irrefl name (h name hmem)

/-- The names of an ascending map differ. -/
theorem pairwise_ne_of_ascending {m : KeyMap α} (hm : m.Ascending) :
    m.Pairwise fun x y => x.1 ≠ y.1 := by
  refine (List.pairwise_map.mp hm).imp fun hlt heq => ?_
  exact String.lt_irrefl _ (heq ▸ hlt)

/-- In an ascending map every entry is the one that is found under its name. -/
theorem find?_of_mem {m : KeyMap α} (hm : m.Ascending) {name : String} {a : α}
    (h : (name, a) ∈ m) : m.find? name = some a := by
  induction m with
  | nil => exact absurd h List.not_mem_nil
  | cons entry rest ih =>
      obtain ⟨other, b⟩ := entry
      obtain ⟨hbelow, hrest⟩ := ascending_cons_iff.mp hm
      rcases List.mem_cons.mp h with heq | hmem
      · obtain ⟨rfl, rfl⟩ := Prod.mk.inj heq
        simp [find?]
      · have hlt : other < name := hbelow name (List.mem_map_of_mem hmem)
        have hne : name ≠ other := fun he => String.lt_irrefl other (he ▸ hlt)
        simp only [find?, hne, if_false]
        exact ih hrest hmem

/-- Pairs that ascend strictly by what they are ordered by are determined by what is among them. -/
theorem eq_of_mem_iff {κ : Type} [LT κ] (hasymm : ∀ x y : κ, x < y → ¬ y < x)
    {l l' : List (κ × α)} (hl : l.Pairwise fun p q => p.1 < q.1)
    (hl' : l'.Pairwise fun p q => p.1 < q.1) (h : ∀ entry, entry ∈ l ↔ entry ∈ l') : l = l' := by
  have hne : ∀ {p q : κ × α}, p.1 < q.1 → p ≠ q := by
    rintro p q hlt rfl
    exact hasymm _ _ hlt hlt
  have hperm : l.Perm l' := (List.perm_ext_iff_of_nodup (hl.imp hne) (hl'.imp hne)).mpr h
  exact hperm.eq_of_pairwise (fun p q _ _ hlt hgt => absurd hgt (hasymm _ _ hlt)) hl hl'

/-- **Ascending maps with the same look-ups are equal.** -/
theorem eq_of_find?_eq {m m' : KeyMap α} (hm : m.Ascending) (hm' : m'.Ascending)
    (h : ∀ name, m.find? name = m'.find? name) : m = m' := by
  refine eq_of_mem_iff (fun _ _ => String.lt_asymm) (List.pairwise_map.mp hm)
    (List.pairwise_map.mp hm') ?_
  rintro ⟨name, a⟩
  constructor
  · intro hmem
    exact mem_of_find? ((h name).symm.trans (find?_of_mem hm hmem))
  · intro hmem
    exact mem_of_find? ((h name).trans (find?_of_mem hm' hmem))

/-- Storing what is there already changes nothing. -/
theorem insert_of_find? {m : KeyMap α} (hm : m.Ascending) {name : String} {a : α}
    (h : m.find? name = some a) : m.insert name a = m := by
  refine eq_of_find?_eq (insert_ascending hm name a) hm fun key => ?_
  rw [find?_insert]
  split
  · next heq => rw [heq, h]
  · rfl

-- ── Erasing ───────────────────────────────────────────────────────────────────────

/-- **An erasure changes the view at its name and nowhere else.** -/
theorem find?_erase (name key : String) (m : KeyMap α) :
    (m.erase name).find? key = if key = name then none else m.find? key := by
  induction m with
  | nil => simp [erase, find?]
  | cons entry rest ih =>
      obtain ⟨other, b⟩ := entry
      unfold erase at ih ⊢
      by_cases hother : other = name
      · subst hother
        rw [List.filter_cons_of_neg (by simp), ih]
        by_cases hkey : key = other <;> simp [find?, hkey]
      · rw [List.filter_cons_of_pos (by simpa using hother)]
        by_cases hkey : key = other
        · subst hkey
          simp [find?, hother]
        · simp only [find?, hkey, if_false]
          exact ih

/-- The names after an erasure are the others. -/
theorem mem_names_erase {name key : String} {m : KeyMap α} :
    key ∈ (m.erase name).names ↔ key ≠ name ∧ key ∈ m.names := by
  rw [← find?_isSome_iff, find?_erase, ← find?_isSome_iff]
  by_cases h : key = name <;> simp [h]

/-- Erasing a name that is not there changes nothing. -/
theorem erase_of_not_mem {name : String} {m : KeyMap α} (h : name ∉ m.names) :
    m.erase name = m := by
  refine List.filter_eq_self.mpr fun entry hentry => ?_
  have hne : entry.1 ≠ name := fun heq => h (heq ▸ List.mem_map_of_mem hentry)
  simpa using hne

-- ── Inserting one map's entries into another ──────────────────────────────────────

/-- Stores the entries one after the other. -/
def insertAll (m : KeyMap α) (entries : List (String × α)) : KeyMap α :=
  entries.foldl (fun m entry => m.insert entry.1 entry.2) m

theorem insertAll_ascending {m : KeyMap α} (hm : m.Ascending) (entries : List (String × α)) :
    (m.insertAll entries).Ascending := by
  induction entries generalizing m with
  | nil => exact hm
  | cons e es ih => exact ih (insert_ascending hm e.1 e.2)

/-- **Ascending entries win over what they are stored into**, and nothing else changes. -/
theorem find?_insertAll {entries : KeyMap α} (he : entries.Ascending) (m : KeyMap α)
    (key : String) : (m.insertAll entries).find? key = (entries.find? key).or (m.find? key) := by
  induction entries generalizing m with
  | nil => rfl
  | cons e es ih =>
      obtain ⟨name, a⟩ := e
      obtain ⟨hbelow, hrest⟩ := ascending_cons_iff.mp he
      have hstep : (m.insertAll ((name, a) :: es)) = (m.insert name a).insertAll es := rfl
      rw [hstep, ih hrest, find?_insert]
      by_cases hkey : key = name
      · subst hkey
        simp [find?, find?_eq_none_of_below hbelow]
      · simp [find?, hkey]

-- ── A map of entries in any order ─────────────────────────────────────────────────

/-- A new name is put among the others. -/
theorem insert_perm {m : KeyMap α} {name : String} (h : name ∉ m.names) (a : α) :
    (m.insert name a).Perm ((name, a) :: m) := by
  induction m with
  | nil => exact .refl _
  | cons entry rest ih =>
      obtain ⟨other, b⟩ := entry
      obtain ⟨hne, hrest⟩ := not_or.mp (mt List.mem_cons.mpr h)
      rw [insert]
      by_cases hlt : name < other
      · rw [if_pos hlt]
      · rw [if_neg hlt, if_neg hne]
        exact ((ih hrest).cons _).trans (.swap _ _ _)

theorem insertAll_perm {entries : List (String × α)} {m : KeyMap α}
    (h : (names entries ++ m.names).Nodup) : (m.insertAll entries).Perm (entries ++ m) := by
  induction entries generalizing m with
  | nil => exact .refl _
  | cons e es ih =>
      obtain ⟨name, a⟩ := e
      have hnew : name ∉ names es ++ m.names := (List.nodup_cons.mp h).1
      have hinsert := insert_perm (fun hmem => hnew (List.mem_append_right _ hmem)) a
      have hnames : (names es ++ (m.insert name a).names).Perm (name :: (names es ++ m.names)) :=
        ((hinsert.map Prod.fst).append_left _).trans List.perm_middle
      have hrest := ih (hnames.nodup_iff.mpr h)
      exact hrest.trans ((hinsert.append_left es).trans List.perm_middle)

/-- **Entries with different names are the entries of their map.** -/
theorem ofList_perm {entries : List (String × α)} (h : (names entries).Nodup) :
    (ofList entries).Perm entries := by
  have hnames : names entries ++ names ([] : KeyMap α) = names entries := List.append_nil _
  have hall : (insertAll [] entries).Perm (entries ++ []) := insertAll_perm (hnames.symm ▸ h)
  rwa [List.append_nil] at hall

/-- **The order of entries with different names makes no difference to their map.** -/
theorem ofList_eq_of_perm {entries entries' : List (String × α)} (hperm : entries.Perm entries')
    (h : (names entries).Nodup) : ofList entries = ofList entries' := by
  have h' : (names entries').Nodup := (hperm.map Prod.fst).nodup_iff.mp h
  have hmaps : (ofList entries).Perm (ofList entries') :=
    ((ofList_perm h).trans hperm).trans (ofList_perm h').symm
  exact eq_of_mem_iff (fun _ _ => String.lt_asymm) (List.pairwise_map.mp (ofList_ascending entries))
    (List.pairwise_map.mp (ofList_ascending entries')) fun _ => hmaps.mem_iff

end ParamStore.KeyMap
