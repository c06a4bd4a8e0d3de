import ParamStore.Tree.Report
import ParamStore.Proofs.Tree.Listing
import ParamStore.Proofs.Tree.Reachable

/-!
# Outline of a tree — what a report says, chains of sub-trees left aside

A report follows chains of sub-trees without values to their ends before it writes anything, and
    carries along the path that it has come down. An outline knows nothing of chains: it visits
    every level, depth first, and writes those that hold values, each under a header with the place of
    the level. Both are the same lines, since a level that is skipped on a chain has nothing to
    write.

The lines of an outline keep places and names apart, so it can be said what they tell: each value
    belongs to the last header before it, and taken so, the lines give every value of the tree
    once, at its own place.

* **`levels`** — every level with its place; **`mem_levels`** and **`levels_ascending`** say that
  these are all of them, in the order of their places, each once.
* **`held`** — the lower levels that hold values; **`outline`** — the values of the root, then those
  levels, each under its header.
* **`report_eq_outline`** — the report is the text of the outline.
* **`placed`**, **`placed_outline`** — what the lines tell, and that it is what the tree lists.
-/

namespace ParamStore.Tree

-- ── Levels ────────────────────────────────────────────────────────────────────────

mutual

/-- Every level with the place that it has below a way and the values that it holds itself, a level
    before those of its sub-trees. -/
def levels (way : List String) : Tree → List (List String × KeyMap String)
  | node vs ss => (way, vs) :: levelsBelow way ss

/-- `levels` for each of some sub-trees. -/
def levelsBelow (way : List String) : List (String × Tree) → List (List String × KeyMap String)
  | [] => []
  | (name, t) :: rest => levels (way ++ [name]) t ++ levelsBelow way rest

end

theorem levelsBelow_eq_flatMap (way : List String) (ss : List (String × Tree)) :
    levelsBelow way ss = ss.flatMap fun entry => levels (way ++ [entry.1]) entry.2 := by
  induction ss with
  | nil => rw [levelsBelow]; rfl
  | cons entry rest ih => rw [levelsBelow, ih, List.flatMap_cons]

theorem levels_eq (way : List String) (t : Tree) :
    levels way t = (way, t.values) :: levelsBelow way t.subs := by
  obtain ⟨vs, ss⟩ := t
  rw [levels]
  rfl

namespace WellFormed

variable {t : Tree}

/-- **The levels of a tree are the ends of its ways.** -/
theorem mem_levels (h : t.WellFormed) {way place : List String} {vs : KeyMap String} :
    (place, vs) ∈ levels way t ↔
      ∃ path, place = way ++ path ∧ (t.nodeAt? path).map values = some vs := by
  induction h generalizing way with
  | @intro t level _ ih =>
      rw [levels_eq, List.mem_cons, levelsBelow_eq_flatMap, List.mem_flatMap]
      constructor
      · rintro (heq | ⟨⟨name, sub⟩, hmem, hbelow⟩)
        · obtain ⟨rfl, rfl⟩ := Prod.mk.inj heq
          exact ⟨[], by simp, rfl⟩
        · have hfind := KeyMap.find?_of_mem level.subs_ascending hmem
          obtain ⟨path, rfl, hnode⟩ := (ih name sub hfind).mp hbelow
          refine ⟨name :: path, by simp, ?_⟩
          rw [nodeAt?_cons, hfind]
          exact hnode
      · rintro ⟨path, rfl, hnode⟩
        cases path with
        | nil =>
            obtain rfl := Option.some.inj hnode
            exact Or.inl (by rw [List.append_nil])
        | cons name path =>
            rw [nodeAt?_cons] at hnode
            cases hfind : t.subs.find? name with
            | none => rw [hfind] at hnode; exact nomatch hnode
            | some sub =>
                rw [hfind] at hnode
                refine Or.inr ⟨(name, sub), KeyMap.mem_of_find? hfind, ?_⟩
                exact (ih name sub hfind).mpr ⟨path, by simp, hnode⟩

/-- The levels below a sub-tree have places that go on with its name. -/
theorem place_of_mem_levels (h : t.WellFormed) {way place : List String} {name : String}
    {vs : KeyMap String} (hmem : (place, vs) ∈ levels (way ++ [name]) t) :
    ∃ path, place = way ++ name :: path := by
  obtain ⟨path, rfl, -⟩ := h.mem_levels.mp hmem
  exact ⟨path, by simp⟩

/-- **The levels come in the order of their places**, letter by letter as a dictionary has it: a
    level before those below it, and sub-trees by name. So none comes twice. -/
theorem levels_ascending (h : t.WellFormed) (way : List String) :
    (levels way t).Pairwise fun p q => p.1 < q.1 := by
  induction h generalizing way with
  | @intro t level below ih =>
      have hplace : ∀ {entry place vs}, entry ∈ t.subs →
          (place, vs) ∈ levels (way ++ [entry.1]) entry.2 → ∃ path, place = way ++ entry.1 :: path :=
        fun hentry hmem =>
          (below _ _ (KeyMap.find?_of_mem level.subs_ascending hentry)).place_of_mem_levels hmem
      rw [levels_eq, levelsBelow_eq_flatMap, List.pairwise_cons, List.pairwise_flatMap]
      refine ⟨?_, fun entry hentry => ?_, ?_⟩
      -- the level itself, one sub-tree, two sub-trees
      · rintro ⟨place, vs⟩ hmem
        obtain ⟨entry, hentry, hbelow⟩ := List.mem_flatMap.mp hmem
        obtain ⟨path, rfl⟩ := hplace hentry hbelow
        have hlt : way ++ [] < way ++ entry.1 :: path :=
          List.append_left_lt (List.nil_lt_cons entry.1 path)
        rwa [List.append_nil] at hlt
      · exact ih _ _ (KeyMap.find?_of_mem level.subs_ascending hentry) _
      · refine (List.pairwise_map.mp level.subs_ascending).imp_of_mem ?_
        rintro x y hx hy hlt ⟨place, vs⟩ hmem ⟨place', vs'⟩ hmem'
        obtain ⟨path, rfl⟩ := hplace hx hmem
        obtain ⟨path', rfl⟩ := hplace hy hmem'
        exact List.append_left_lt (List.cons_lt_cons_iff.mpr (Or.inl hlt))

/-- The levels below the root are those at the end of a way that leads somewhere. -/
theorem mem_levelsBelow (h : t.WellFormed) {place : List String} {vs : KeyMap String} :
    (place, vs) ∈ levelsBelow [] t.subs ↔
      place ≠ [] ∧ (t.nodeAt? place).map values = some vs := by
  have hascending := h.levels_ascending []
  have hmem := @mem_levels t h [] place vs
  rw [levels_eq] at hascending hmem
  rw [List.mem_cons] at hmem
  simp only [List.nil_append, exists_eq_left'] at hmem
  constructor
  · intro hbelow
    refine ⟨fun hnil => ?_, hmem.mp (Or.inr hbelow)⟩
    have hlt := (List.pairwise_cons.mp hascending).1 _ hbelow
    rw [hnil] at hlt
    exact absurd hlt (List.lt_irrefl _)
  · rintro ⟨hne, hnode⟩
    rcases hmem.mpr hnode with heq | hbelow
    · exact absurd (Prod.mk.inj heq).1 hne
    · exact hbelow

end WellFormed

/-- The levels below the root that hold values themselves. -/
def held (t : Tree) : List (List String × KeyMap String) :=
  (levelsBelow [] t.subs).filter fun level => !level.2.isEmpty

namespace WellFormed

variable {t : Tree}

/-- **The levels with values below the root** are those of the sub-trees that hold a value. -/
theorem mem_held (h : t.WellFormed) {place : List String} {vs : KeyMap String} :
    (place, vs) ∈ t.held ↔ place ≠ [] ∧ vs ≠ [] ∧ (t.nodeAt? place).map values = some vs := by
  rw [held, List.mem_filter, h.mem_levelsBelow]
  simp only [Bool.not_eq_true', List.isEmpty_eq_false_iff]
  exact ⟨fun ⟨⟨hne, hnode⟩, hvs⟩ => ⟨hne, hvs, hnode⟩, fun ⟨hne, hvs, hnode⟩ => ⟨⟨hne, hnode⟩, hvs⟩⟩

/-- They come in the order of their places. -/
theorem held_ascending (h : t.WellFormed) : t.held.Pairwise fun p q => p.1 < q.1 := by
  have hascending := h.levels_ascending []
  rw [levels_eq] at hascending
  exact hascending.of_cons.filter _

end WellFormed

-- ── The lines of a tree ───────────────────────────────────────────────────────────

/-- A line of an outline: the header of a sub-tree, or one of its values. -/
inductive Line where
  | header (place : List String)
  | entry (name value : String)
deriving DecidableEq

/-- What is written in a line. -/
def Line.body : Line → String
  | header place => "[ " ++ Path.text place ++ " ]"
  | entry name value => name ++ " = " ++ value

/-- Values as lines. -/
def leaves (vs : KeyMap String) : List Line := vs.map fun entry => .entry entry.1 entry.2

/-- A level as lines: its header, then its values. -/
def titled (level : List String × KeyMap String) : List Line :=
  .header level.1 :: leaves level.2

/-- The values of the root, then every lower level that holds values itself, depth first. -/
def outline (t : Tree) : List Line := leaves t.values ++ t.held.flatMap titled

/-- Levels without values may be left out where they have nothing to add. -/
theorem flatMap_held {α : Type} (f : List String × KeyMap String → List α)
    (hf : ∀ level, level.2 = [] → f level = []) (t : Tree) :
    t.held.flatMap f = (levelsBelow [] t.subs).flatMap f := by
  rw [held]
  induction levelsBelow [] t.subs with
  | nil => rfl
  | cons level rest ih =>
      rw [List.filter_cons, List.flatMap_cons]
      cases hvs : level.2 with
      | nil =>
          rw [hf level hvs, ← ih]
          rfl
      | cons entry vs =>
          rw [← ih]
          rfl

-- ── The report is the outline ─────────────────────────────────────────────────────

theorem text_leaves (lead : String) (vs : KeyMap String) :
    (leaves vs).map (fun line => lead ++ line.body) = valueLines lead vs := by
  rw [leaves, valueLines, List.map_map]
  refine List.map_congr_left fun entry _ => ?_
  simp [Line.body, String.append_assoc]

/-- The report writes a level that holds values as the outline has it. -/
theorem text_titled (lead : String) {level : List String × KeyMap String} (h : level.2 ≠ []) :
    (titled level).map (fun line => lead ++ line.body)
      = header lead (Path.text level.1) level.2 ++ valueLines lead level.2 := by
  rw [titled, List.map_cons, text_leaves, header, if_neg (by simpa using h)]
  simp [Line.body, String.append_assoc]

mutual

/-- **Following chains changes no line**: what the report writes of a sub-tree is what its levels
    have, one after the other. -/
theorem chainLines_eq (lead : String) (way : List String) : (t : Tree) →
    chainLines lead (Path.text way) t = (levels way t).flatMap fun level =>
      header lead (Path.text level.1) level.2 ++ valueLines lead level.2
  | node [] [(name, only)] => by
      rw [chainLines, ← Path.text_concat, chainLines_eq lead (way ++ [name]) only, levels,
        levelsBelow, levelsBelow, List.append_nil, List.flatMap_cons]
      rfl
  | node [] [] => by
      rw [chainLines, levels, sections_eq lead way [], List.flatMap_cons]
      simp
  | node [] (entry :: next :: rest) => by
      rw [chainLines, levels, sections_eq lead way (entry :: next :: rest), List.flatMap_cons]
      simp
  | node (value :: vs) ss => by
      rw [chainLines, levels, sections_eq lead way ss, List.flatMap_cons]
      simp

theorem sections_eq (lead : String) (way : List String) : (ss : List (String × Tree)) →
    sections lead (Path.text way) ss = (levelsBelow way ss).flatMap fun level =>
      header lead (Path.text level.1) level.2 ++ valueLines lead level.2
  | [] => by rw [sections, levelsBelow]; rfl
  | (name, t) :: rest => by
      rw [sections, levelsBelow, List.flatMap_append, ← Path.text_concat,
        chainLines_eq lead (way ++ [name]) t, sections_eq lead way rest]

end

/-- **The lines of a report are those of the outline.** -/
theorem lines_eq_outline (lead : String) (t : Tree) :
    lines lead t = t.outline.map fun line => lead ++ line.body := by
  have hblank : ∀ level : List String × KeyMap String, level.2 = [] →
      header lead (Path.text level.1) level.2 ++ valueLines lead level.2 = [] := by
    intro level hnil
    rw [hnil]
    rfl
  rw [lines, outline, List.map_append, text_leaves, List.map_flatMap,
    show sections lead "" t.subs = sections lead (Path.text []) t.subs from rfl, sections_eq,
    ← flatMap_held _ hblank]
  refine congrArg _ (List.flatMap_congr fun level hlevel => (text_titled lead ?_).symm)
  simpa using (List.mem_filter.mp hlevel).2

/-- **A report is the text of the outline**, each line after the lead and ended by a line feed. -/
theorem report_eq_outline (lead : String) (t : Tree) :
    t.report lead = String.join (t.outline.map fun line => lead ++ line.body ++ "\n") := by
  rw [report, lines_eq_outline, List.map_map]
  rfl

-- ── What the lines tell ───────────────────────────────────────────────────────────

/-- The values of some lines, each at the place of the last header before it. -/
def placed (place : List String) : List Line → List (List String × String)
  | [] => []
  | .header next :: rest => placed next rest
  | .entry name value :: rest => (place ++ [name], value) :: placed place rest

/-- Values as lines belong to the header before them, and the lines after them as well. -/
theorem placed_leaves_append (place : List String) (vs : KeyMap String) (rest : List Line) :
    placed place (leaves vs ++ rest)
      = vs.map (fun entry => (place ++ [entry.1], entry.2)) ++ placed place rest := by
  induction vs with
  | nil => rfl
  | cons entry vs ih => exact congrArg (_ :: ·) ih

/-- Levels as lines tell the values of each level at its place, whatever header came before. -/
theorem placed_titled (place : List String) (ls : List (List String × KeyMap String)) :
    placed place (ls.flatMap titled)
      = ls.flatMap fun level => level.2.map fun entry => (level.1 ++ [entry.1], entry.2) := by
  induction ls generalizing place with
  | nil => rfl
  | cons level rest ih =>
      rw [List.flatMap_cons, List.flatMap_cons, titled, List.cons_append, placed,
        placed_leaves_append, ih]

mutual

/-- A tree lists the values of its levels. -/
theorem entries_eq_levels (way : List String) : (t : Tree) →
    entries way t = (levels way t).flatMap fun level =>
      level.2.map fun entry => (level.1 ++ [entry.1], entry.2)
  | node vs ss => by rw [entries, levels, List.flatMap_cons, entriesSubs_eq_levels way ss]

theorem entriesSubs_eq_levels (way : List String) : (ss : List (String × Tree)) →
    entriesSubs way ss = (levelsBelow way ss).flatMap fun level =>
      level.2.map fun entry => (level.1 ++ [entry.1], entry.2)
  | [] => by rw [entriesSubs, levelsBelow]; rfl
  | (name, t) :: rest => by
      rw [entriesSubs, levelsBelow, List.flatMap_append, entries_eq_levels (way ++ [name]) t,
        entriesSubs_eq_levels way rest]

end

/-- **An outline tells what the tree lists**: every value at its own place. -/
theorem placed_outline (t : Tree) : placed [] t.outline = entries [] t := by
  rw [outline, placed_leaves_append, placed_titled, flatMap_held _ (by simp),
    entries_eq_levels, levels_eq, List.flatMap_cons]

/-- **A report is the plain listing of its tree**, whatever chains are followed. It is the text of the
    outline: the values of the root, and then every level below it that holds values, under a
    header with its place, in the order of the places; the values of each level ascend. Taken
    with the last header before it, every line of a value tells a value of the tree, every value is
    told, and none twice. -/
theorem report_is_outline {t : Tree} (h : t.Reachable) (lead : String) :
    t.report lead = String.join
      ((leaves t.values ++ t.held.flatMap titled).map fun line => lead ++ line.body ++ "\n")
    ∧ (∀ place vs, (place, vs) ∈ t.held ↔
      place ≠ [] ∧ vs ≠ [] ∧ (t.nodeAt? place).map values = some vs)
    ∧ (t.held.Pairwise fun p q => p.1 < q.1)
    ∧ (∀ place node, t.nodeAt? place = some node → node.values.Ascending)
    ∧ (placed [] t.outline).Nodup
    ∧ ∀ place name value, (place ++ [name], value) ∈ placed [] t.outline ↔
      t.valueAt? place name = some value := by
  have ht := h.wellFormed
  refine ⟨report_eq_outline lead t, fun _ _ => ht.mem_held, ht.held_ascending,
    fun _ _ hnode => (ht.nodeAt hnode).level.values_ascending, ?_, fun place name value => ?_⟩
  · rw [placed_outline]
    exact ht.nodup_entries []
  · rw [placed_outline, ht.mem_entries]
    simp only [List.nil_append]
    constructor
    · rintro ⟨parents, key, heq, hvalue⟩
      obtain ⟨rfl, hname⟩ := List.append_inj' heq rfl
      obtain rfl := List.singleton_inj.mp hname
      exact hvalue
    · exact fun hvalue => ⟨place, name, rfl, hvalue⟩

/-- Two chains, one below a level that holds a value, and a level that only branches. -/
theorem report_is_outline_chains :
    let pairs := [("top", "0"), ("a.b.c", "1"), ("a.b.d.e.k", "2"), ("s.x.v", "3"), ("s.y.w", "4")]
    let t := (setAll false pairs empty).state
    t.Reachable
      ∧ t.report "# " = "# top = 0\n# [ a.b ]\n# c = 1\n# [ a.b.d.e ]\n# k = 2\n# [ s.x ]\n"
        ++ "# v = 3\n# [ s.y ]\n# w = 4\n"
      ∧ (["a", "b"], [("c", "1")]) ∈ t.held ∧ (["s"], []) ∉ t.held
      ∧ (["a", "b", "d", "e"] ++ ["k"], "2") ∈ placed [] t.outline := by
  intro pairs t
  have hbuilt : ofPairs pairs = .ok t := by rfl
  have ht : t.Reachable := .ofPairs hbuilt
  obtain ⟨hreport, hheld, -, -, -, htold⟩ := report_is_outline ht "# "
  refine ⟨ht, ?_, (hheld _ _).mpr ⟨by simp, by simp, by rfl⟩, fun hmem => ?_,
    (htold _ _ _).mpr (by decide +kernel)⟩
  · rw [hreport]
    decide +kernel
  · exact ((hheld _ _).mp hmem).2.1 rfl

end ParamStore.Tree
