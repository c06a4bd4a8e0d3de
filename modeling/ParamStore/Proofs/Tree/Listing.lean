import Mathlib.Data.List.Nodup
import ParamStore.Proofs.Tree.WellFormed

/-!
# Listing a tree — every value once, under its place

The listing of a tree visits level after level and writes every value under a dotted key. Under their
    places instead of texts, the values come in the same order, and a well-formed tree lists
    each of its places exactly once, because the names of a level are all different. Texts
    of names determine the names, so nothing is lost or doubled by writing keys.

* **`entries`** — all values below a way, under their places.
* **`mem_entries`**, **`nodup_entries`** — each value of the tree is listed, and once.
* **`mem_flatten`**, **`nodup_flatten`** — the same for the listing under dotted keys.
-/

namespace ParamStore.Tree

mutual

/-- All values below a way under their places, those of a level before those of its sub-trees. -/
def entries (way : List String) : Tree → List (List String × String)
  | node vs ss => vs.map (fun entry => (way ++ [entry.1], entry.2)) ++ entriesSubs way ss

/-- `entries` for each of some sub-trees. -/
def entriesSubs (way : List String) : List (String × Tree) → List (List String × String)
  | [] => []
  | (name, t) :: rest => entries (way ++ [name]) t ++ entriesSubs way rest

end

theorem entriesSubs_eq_flatMap (way : List String) (ss : List (String × Tree)) :
    entriesSubs way ss = ss.flatMap fun entry => entries (way ++ [entry.1]) entry.2 := by
  induction ss with
  | nil => rw [entriesSubs]; rfl
  | cons entry rest ih => rw [entriesSubs, ih, List.flatMap_cons]

theorem entries_eq (way : List String) (t : Tree) :
    entries way t = (t.values.map fun entry => (way ++ [entry.1], entry.2))
      ++ t.subs.flatMap fun entry => entries (way ++ [entry.1]) entry.2 := by
  obtain ⟨vs, ss⟩ := t
  rw [entries, entriesSubs_eq_flatMap]
  rfl

mutual

/-- **The listing writes every entry under the text of its place.** -/
theorem collect_eq (way : List String) : (t : Tree) → collect (Path.text way) t
    = (entries way t).map fun entry => (Path.text entry.1, entry.2)
  | node vs ss => by
      rw [collect, entries, List.map_append, collectSubs_eq way ss, List.map_map]
      simp only [Function.comp_def, Path.text_concat]

theorem collectSubs_eq (way : List String) : (ss : List (String × Tree)) →
    collectSubs (Path.text way) ss
      = (entriesSubs way ss).map fun entry => (Path.text entry.1, entry.2)
  | [] => by rw [collectSubs, entriesSubs]; rfl
  | (name, t) :: rest => by
      rw [collectSubs, entriesSubs, List.map_append, ← Path.text_concat, collect_eq _ t,
        collectSubs_eq way rest]

end

namespace WellFormed

variable {t : Tree}

/-- **What is listed below a way is what is there.** -/
theorem mem_entries (h : t.WellFormed) {way place : List String} {value : String} :
    (place, value) ∈ entries way t ↔
      ∃ parents name, place = way ++ (parents ++ [name]) ∧ t.valueAt? parents name = some value := by
  induction h generalizing way with
  | @intro t level _ ih =>
      rw [entries_eq, List.mem_append, List.mem_map, List.mem_flatMap]
      constructor
      · rintro (⟨⟨name, v⟩, hmem, heq⟩ | ⟨⟨p, sub⟩, hmem, hbelow⟩)
        · obtain ⟨rfl, rfl⟩ := Prod.mk.inj heq
          exact ⟨[], name, rfl, KeyMap.find?_of_mem level.values_ascending hmem⟩
        · have hfind := KeyMap.find?_of_mem level.subs_ascending hmem
          obtain ⟨parents, name, rfl, hvalue⟩ := (ih p sub hfind).mp hbelow
          refine ⟨p :: parents, name, by simp, ?_⟩
          rw [valueAt?_cons, hfind]
          exact hvalue
      · rintro ⟨parents, name, rfl, hvalue⟩
        cases parents with
        | nil => exact Or.inl ⟨(name, value), KeyMap.mem_of_find? hvalue, rfl⟩
        | cons p parents =>
            rw [valueAt?_cons] at hvalue
            obtain ⟨sub, hfind, hbelow⟩ := Option.bind_eq_some_iff.mp hvalue
            refine Or.inr ⟨(p, sub), KeyMap.mem_of_find? hfind, ?_⟩
            exact (ih p sub hfind).mpr ⟨parents, name, by simp, hbelow⟩

/-- What is listed below a sub-tree is at a place that goes on after its name. -/
theorem place_of_mem_entries (h : t.WellFormed) {way place : List String} {p value : String}
    (hmem : (place, value) ∈ entries (way ++ [p]) t) :
    ∃ name rest, place = way ++ p :: name :: rest := by
  obtain ⟨parents, name, rfl, -⟩ := h.mem_entries.mp hmem
  cases parents with
  | nil => exact ⟨name, [], by simp⟩
  | cons q parents => exact ⟨q, parents ++ [name], by simp⟩

/-- **No entry is listed twice**: names of values differ, so do names of sub-trees, and what is
    below a sub-tree is no value of the level. -/
theorem nodup_entries (h : t.WellFormed) (way : List String) : (entries way t).Nodup := by
  induction h generalizing way with
  | @intro t level below ih =>
      have hplace : ∀ {p sub place value}, (p, sub) ∈ t.subs →
          (place, value) ∈ entries (way ++ [p]) sub → ∃ name rest, place = way ++ p :: name :: rest :=
        fun hsub hmem => (below _ _ (KeyMap.find?_of_mem level.subs_ascending hsub)).place_of_mem_entries
          hmem
      rw [entries_eq, List.nodup_append, List.nodup_flatMap]
      refine ⟨?_, ⟨fun entry hentry => ?_, ?_⟩, ?_⟩
      -- the values, one sub-tree, two sub-trees, a value and a sub-tree
      · refine List.pairwise_map.mpr ?_
        refine (KeyMap.pairwise_ne_of_ascending level.values_ascending).imp fun hne heq => hne ?_
        simpa using (Prod.mk.inj heq).1
      · exact ih entry.1 entry.2 (KeyMap.find?_of_mem level.subs_ascending hentry) _
      · refine (KeyMap.pairwise_ne_of_ascending level.subs_ascending).imp_of_mem ?_
        rintro x y hx hy hne ⟨place, value⟩ hmem hmem'
        obtain ⟨_, _, rfl⟩ := hplace hx hmem
        obtain ⟨_, _, heq⟩ := hplace hy hmem'
        exact hne (List.cons.inj (List.append_cancel_left heq)).1
      · rintro ⟨place, value⟩ hmem ⟨place', value'⟩ hmem' heq
        obtain ⟨rfl, rfl⟩ := Prod.mk.inj heq
        obtain ⟨⟨name, v⟩, -, heq⟩ := List.mem_map.mp hmem
        obtain ⟨rfl, rfl⟩ := Prod.mk.inj heq
        obtain ⟨⟨p, sub⟩, hsub, hbelow⟩ := List.mem_flatMap.mp hmem'
        obtain ⟨_, _, heq'⟩ := hplace hsub hbelow
        exact List.cons_ne_nil _ _ (List.cons.inj (List.append_cancel_left heq')).2.symm

/-- **The listing has exactly the values of the tree**, each under the text of its place. -/
theorem mem_flatten (h : t.WellFormed) {key value : String} :
    (key, value) ∈ t.flatten ↔
      ∃ parents name, key = Path.text (parents ++ [name]) ∧ t.valueAt? parents name = some value := by
  rw [flatten, List.mem_mergeSort, show collect "" t = collect (Path.text []) t from rfl,
    collect_eq, List.mem_map]
  constructor
  · rintro ⟨⟨place, v⟩, hmem, heq⟩
    obtain ⟨rfl, rfl⟩ := Prod.mk.inj heq
    obtain ⟨parents, name, rfl, hvalue⟩ := h.mem_entries.mp hmem
    exact ⟨parents, name, rfl, hvalue⟩
  · rintro ⟨parents, name, rfl, hvalue⟩
    exact ⟨(parents ++ [name], value), h.mem_entries.mpr ⟨parents, name, rfl, hvalue⟩, rfl⟩

/-- **The listing repeats nothing.** -/
theorem nodup_flatten (h : t.WellFormed) : t.flatten.Nodup := by
  have hnames : ∀ {place : List String} {value : String}, (place, value) ∈ entries [] t →
      place ≠ [] ∧ ∀ p ∈ place, Path.IsName p := by
    intro place value hmem
    obtain ⟨parents, name, rfl, hvalue⟩ := h.mem_entries.mp hmem
    exact ⟨by simp, h.isName_of_valueAt? hvalue⟩
  rw [flatten, (List.mergeSort_perm _ _).nodup_iff,
    show collect "" t = collect (Path.text []) t from rfl, collect_eq]
  refine (h.nodup_entries []).map_on ?_
  rintro ⟨place, value⟩ hmem ⟨place', value'⟩ hmem' heq
  obtain ⟨htext, rfl⟩ := Prod.mk.inj heq
  obtain ⟨hne, hall⟩ := hnames hmem
  obtain ⟨hne', hall'⟩ := hnames hmem'
  rw [Path.eq_of_text_eq hne hne' hall hall' htext]

end WellFormed

end ParamStore.Tree
