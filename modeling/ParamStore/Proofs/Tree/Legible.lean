import ParamStore.Proofs.Tree.Inverse
import ParamStore.Proofs.Tree.Outline

/-!
# Legible trees — a report that can be read back

A report is read line by line. A line is a header if it starts with a bracket, and the values below it
    belong to the path in it; a line that is no header is cut at its first equals sign into name and
    value. This reading is never misled as long as no name has a bracket, an equals sign or a
    line feed and no value a line feed: then the text gives back its lines and a line gives back
    what it says, whatever a value looks like otherwise. So two legible trees with one report
    have the same values under the same keys. The other way round holds of all trees: the report
    shows nothing but what the listing has.

* **`Legible`** — the trees whose names and values do not look like something else.
* **`Line.body_inj`** — a line tells what it says; **`text_inj`** — a text tells its lines.
* **`flatten_eq_of_outline_eq`**, **`outline_eq_of_flatten_eq`** — the outline and the listing determine
  each other.
* **`report_tells_listing`** — so do the report and the listing.
-/

namespace ParamStore.Tree

/-- A name without the characters that a report is read by. -/
structure Unmarked (name : String) : Prop where
  no_equals : '=' ∉ name.toList
  no_bracket : '[' ∉ name.toList
  no_feed : '\n' ∉ name.toList

instance (name : String) : Decidable (Unmarked name) :=
  decidable_of_iff ('=' ∉ name.toList ∧ '[' ∉ name.toList ∧ '\n' ∉ name.toList)
    ⟨fun h => ⟨h.1, h.2.1, h.2.2⟩, fun h => ⟨h.1, h.2, h.3⟩⟩

/-- A level where no name looks like another part of a report and no value goes on in another
    line. -/
structure LegibleLevel (t : Tree) : Prop where
  values_named : ∀ entry ∈ t.values, Unmarked entry.1
  subs_named : ∀ entry ∈ t.subs, Unmarked entry.1
  values_feedless : ∀ entry ∈ t.values, '\n' ∉ entry.2.toList

instance (t : Tree) : Decidable t.LegibleLevel :=
  decidable_of_iff ((∀ entry ∈ t.values, Unmarked entry.1) ∧ (∀ entry ∈ t.subs, Unmarked entry.1)
      ∧ ∀ entry ∈ t.values, '\n' ∉ entry.2.toList)
    ⟨fun h => ⟨h.1, h.2.1, h.2.2⟩, fun h => ⟨h.1, h.2, h.3⟩⟩

/-- Every level is legible. -/
def Legible (t : Tree) : Prop := ∀ place node, t.nodeAt? place = some node → node.LegibleLevel

-- ── One line ──────────────────────────────────────────────────────────────────────

namespace Line

/-- A line as legible trees have them. -/
def Legible : Line → Prop
  | header place => place ≠ [] ∧ (∀ p ∈ place, Path.IsName p) ∧ ∀ p ∈ place, Unmarked p
  | entry name value => Path.IsName name ∧ Unmarked name ∧ '\n' ∉ value.toList

theorem toList_body_header (place : List String) :
    (header place).body.toList = '[' :: ' ' :: ((Path.text place).toList ++ [' ', ']']) := by
  simp [body]

theorem toList_body_entry (name value : String) :
    (entry name value).body.toList = (name.toList ++ [' ']) ++ '=' :: ' ' :: value.toList := by
  simp [body]

/-- No legible line goes on in another one. -/
theorem Legible.feedless {line : Line} (h : line.Legible) : '\n' ∉ line.body.toList := by
  cases line with
  | header place =>
      obtain ⟨-, -, hunmarked⟩ := h
      have htext : '\n' ∉ (Path.text place).toList := by
        intro hfeed
        rcases Path.mem_text hfeed with hdot | ⟨p, hp, hc⟩
        · exact absurd hdot (by decide)
        · exact (hunmarked p hp).no_feed hc
      rw [toList_body_header]
      simp [htext]
  | entry name value =>
      obtain ⟨-, hunmarked, hvalue⟩ := h
      rw [toList_body_entry]
      simp [hunmarked.no_feed, hvalue]

/-- A header is no value: names do not start with a bracket. -/
theorem Legible.header_ne_entry {place : List String} {name value : String}
    (h : (entry name value).Legible) : (header place).body ≠ (entry name value).body := by
  intro heq
  obtain ⟨hname, hunmarked, -⟩ := h
  have hlist := congrArg String.toList heq
  rw [toList_body_header, toList_body_entry] at hlist
  cases hchars : name.toList with
  | nil => exact hname.ne_empty (String.toList_eq_nil_iff.mp hchars)
  | cons c cs =>
      rw [hchars] at hlist
      have hc : '[' = c := (List.cons.inj hlist).1
      exact hunmarked.no_bracket (by rw [hchars, hc]; exact List.mem_cons_self)

/-- **A legible line tells what it says.** -/
theorem body_inj {a b : Line} (ha : a.Legible) (hb : b.Legible) (h : a.body = b.body) : a = b := by
  cases a with
  | header place =>
      cases b with
      | header place' =>
          obtain ⟨hne, hnames, -⟩ := ha
          obtain ⟨hne', hnames', -⟩ := hb
          have hlist := congrArg String.toList h
          rw [toList_body_header, toList_body_header] at hlist
          have htext : Path.text place = Path.text place' :=
            String.toList_inj.mp (List.append_cancel_right (List.cons.inj (List.cons.inj hlist).2).2)
          rw [Path.eq_of_text_eq hne hne' hnames hnames' htext]
      | entry name' value' => exact absurd h hb.header_ne_entry
  | entry name value =>
      cases b with
      | header place' => exact absurd h.symm ha.header_ne_entry
      | entry name' value' =>
          have hlist := congrArg String.toList h
          rw [toList_body_entry, toList_body_entry] at hlist
          -- the first equals sign is the one after the name, since the name has none
          have huncut : ∀ {key : String}, Unmarked key →
              ∀ c ∈ key.toList ++ [' '], decide (c = '=') = false := by
            intro key hkey c hc
            rcases List.mem_append.mp hc with hc | hc
            · exact decide_eq_false fun he => hkey.no_equals (he ▸ hc)
            · obtain rfl := List.mem_singleton.mp hc
              decide
          obtain ⟨hname, hvalue⟩ := Text.append_cut_inj (huncut ha.2.1) (huncut hb.2.1) (by decide) hlist
          rw [String.toList_inj.mp (List.append_cancel_right hname),
            String.toList_inj.mp (List.cons.inj hvalue).2]

end Line

-- ── All lines ─────────────────────────────────────────────────────────────────────

/-- **A text tells its lines**, if all of them are legible. -/
theorem text_inj {lead : String} {xs ys : List Line} (hxs : ∀ line ∈ xs, line.Legible)
    (hys : ∀ line ∈ ys, line.Legible)
    (h : String.join (xs.map fun line => lead ++ line.body ++ "\n")
      = String.join (ys.map fun line => lead ++ line.body ++ "\n")) : xs = ys := by
  have hcons : ∀ (line : Line) (rest : List Line),
      (String.join ((line :: rest).map fun line => lead ++ line.body ++ "\n")).toList
        = lead.toList ++ (line.body.toList
          ++ '\n' :: (String.join (rest.map fun line => lead ++ line.body ++ "\n")).toList) := by
    intro line rest
    simp [String.toList_join]
  have huncut : ∀ {line : Line}, line.Legible →
      ∀ c ∈ line.body.toList, decide (c = '\n') = false :=
    fun hline c hc => decide_eq_false fun he => hline.feedless (he ▸ hc)
  induction xs generalizing ys with
  | nil =>
      cases ys with
      | nil => rfl
      | cons y ys =>
          have hlist := congrArg String.toList h
          rw [hcons] at hlist
          simp at hlist
  | cons x xs ih =>
      cases ys with
      | nil =>
          have hlist := congrArg String.toList h
          rw [hcons] at hlist
          simp at hlist
      | cons y ys =>
          obtain ⟨hx, hrest⟩ := List.forall_mem_cons.mp hxs
          obtain ⟨hy, hrest'⟩ := List.forall_mem_cons.mp hys
          have hlist := congrArg String.toList h
          rw [hcons, hcons] at hlist
          -- behind the lead, which is the same, the first line feed ends the first line
          obtain ⟨hbody, htail⟩ := Text.append_cut_inj (huncut hx) (huncut hy) (by decide)
            (List.append_cancel_left hlist)
          rw [Line.body_inj hx hy (String.toList_inj.mp hbody),
            ih hrest hrest' (String.toList_inj.mp htail)]

section Legible

variable {t : Tree}

/-- A tree is legible if its own level and its sub-trees are. -/
theorem legible_of_level (h : t.LegibleLevel) (hsubs : ∀ entry ∈ t.subs, entry.2.Legible) :
    t.Legible := by
  intro place node hnode
  cases place with
  | nil =>
      obtain rfl := Option.some.inj hnode
      exact h
  | cons name rest =>
      rw [nodeAt?_cons] at hnode
      obtain ⟨sub, hsub, hrest⟩ := Option.bind_eq_some_iff.mp hnode
      exact hsubs _ (KeyMap.mem_of_find? hsub) rest node hrest

/-- The names on a way through a legible tree are unmarked. -/
theorem Legible.unmarked_of_nodeAt? (h : t.Legible) {place : List String} {found : Tree}
    (hfound : t.nodeAt? place = some found) : ∀ p ∈ place, Unmarked p := by
  intro p hp
  obtain ⟨before, after, rfl⟩ := List.append_of_mem hp
  rw [nodeAt?_append] at hfound
  obtain ⟨node, hnode, hrest⟩ := Option.bind_eq_some_iff.mp hfound
  rw [nodeAt?_cons] at hrest
  obtain ⟨sub, hsub, -⟩ := Option.bind_eq_some_iff.mp hrest
  exact (h before node hnode).subs_named _ (KeyMap.mem_of_find? hsub)

/-- The values of a level of a legible tree are legible lines. -/
theorem Legible.legible_of_mem_leaves (h : t.Legible) (ht : t.WellFormed) {place : List String}
    {node : Tree} (hnode : t.nodeAt? place = some node) :
    ∀ line ∈ leaves node.values, line.Legible := by
  intro line hline
  obtain ⟨entry, hmem, rfl⟩ := List.mem_map.mp hline
  have hlegible := h place node hnode
  exact ⟨(ht.nodeAt hnode).level.values_named _ (List.mem_map_of_mem hmem),
    hlegible.values_named entry hmem, hlegible.values_feedless entry hmem⟩

/-- **The outline of a legible tree has legible lines.** -/
theorem Legible.legible_of_mem_outline (h : t.Legible) (ht : t.WellFormed) :
    ∀ line ∈ t.outline, line.Legible := by
  intro line hline
  rcases List.mem_append.mp hline with hroot | hbelow
  · exact h.legible_of_mem_leaves ht (nodeAt?_nil t) line hroot
  · obtain ⟨⟨place, vs⟩, hlevel, hmem⟩ := List.mem_flatMap.mp hbelow
    obtain ⟨hne, -, hvalues⟩ := ht.mem_held.mp hlevel
    obtain ⟨node, hnode, rfl⟩ := Option.map_eq_some_iff.mp hvalues
    rcases List.mem_cons.mp hmem with rfl | hmem
    · exact ⟨hne, ht.isName_of_nodeAt? hnode, h.unmarked_of_nodeAt? hnode⟩
    · exact h.legible_of_mem_leaves ht hnode line hmem

end Legible

-- ── Outline and listing ───────────────────────────────────────────────────────────

/-- The listing orders what the outline tells. -/
theorem flatten_eq_placed (t : Tree) : t.flatten
    = ((placed [] t.outline).map fun entry => (Path.text entry.1, entry.2)).mergeSort pairLe := by
  rw [placed_outline, ← collect_eq]
  rfl

/-- **The outline determines the listing.** -/
theorem flatten_eq_of_outline_eq {a b : Tree} (h : a.outline = b.outline) : a.flatten = b.flatten := by
  rw [flatten_eq_placed, flatten_eq_placed, h]

section SameListing

variable {a b : Tree}

/-- Trees with one listing have the same values at the same places. -/
theorem valueAt?_eq_of_flatten_eq (ha : a.WellFormed) (hb : b.WellFormed)
    (h : a.flatten = b.flatten) (parents : List String) (name : String) :
    a.valueAt? parents name = b.valueAt? parents name := by
  rw [← ha.valueAt?_gathered_flatten, h, hb.valueAt?_gathered_flatten]

/-- Two levels with one place in such trees have the same values. -/
theorem values_eq_of_valueAt?_eq (ha : a.WellFormed) (hb : b.WellFormed)
    (h : ∀ parents name, a.valueAt? parents name = b.valueAt? parents name) {place : List String}
    {node node' : Tree} (hnode : a.nodeAt? place = some node) (hnode' : b.nodeAt? place = some node') :
    node.values = node'.values := by
  refine KeyMap.eq_of_find?_eq (ha.nodeAt hnode).level.values_ascending
    (hb.nodeAt hnode').level.values_ascending fun name => ?_
  have hname := h place name
  rw [valueAt?, valueAt?, hnode, hnode'] at hname
  exact hname

/-- A level with values is there in both of them. -/
theorem mem_held_of_valueAt?_eq (ha : a.WellFormed) (hb : b.WellFormed)
    (h : ∀ parents name, a.valueAt? parents name = b.valueAt? parents name)
    {level : List String × KeyMap String} (hmem : level ∈ a.held) : level ∈ b.held := by
  obtain ⟨place, vs⟩ := level
  obtain ⟨hne, hvs, hvalues⟩ := ha.mem_held.mp hmem
  obtain ⟨node, hnode, rfl⟩ := Option.map_eq_some_iff.mp hvalues
  -- some value of the level is found in the other tree, so the level is there
  obtain ⟨entry, rest, hentries⟩ := List.exists_cons_of_ne_nil hvs
  have hvalue : b.valueAt? place entry.1 = some entry.2 := by
    rw [← h, valueAt?, hnode]
    refine KeyMap.find?_of_mem (ha.nodeAt hnode).level.values_ascending ?_
    rw [hentries]
    exact List.mem_cons_self
  obtain ⟨node', hnode'⟩ := Option.isSome_iff_exists.mp (isSome_nodeAt?_of_valueAt? hvalue)
  refine hb.mem_held.mpr ⟨hne, hvs, ?_⟩
  rw [hnode', values_eq_of_valueAt?_eq ha hb h hnode hnode']
  rfl

/-- **The listing determines the outline.** -/
theorem outline_eq_of_flatten_eq (ha : a.WellFormed) (hb : b.WellFormed)
    (h : a.flatten = b.flatten) : a.outline = b.outline := by
  have hview := valueAt?_eq_of_flatten_eq ha hb h
  have hview' : ∀ parents name, b.valueAt? parents name = a.valueAt? parents name :=
    fun parents name => (hview parents name).symm
  have hroot : a.values = b.values :=
    values_eq_of_valueAt?_eq ha hb hview (nodeAt?_nil a) (nodeAt?_nil b)
  have hheld : a.held = b.held :=
    KeyMap.eq_of_mem_iff (fun _ _ => List.lt_asymm) ha.held_ascending hb.held_ascending fun _ =>
      ⟨mem_held_of_valueAt?_eq ha hb hview, mem_held_of_valueAt?_eq hb ha hview'⟩
  rw [outline, outline, hroot, hheld]

end SameListing

-- ── Report and listing ────────────────────────────────────────────────────────────

/-- **A report loses nothing**: legible trees have the same report exactly if they have the same
    values under the same keys, whatever stands before the lines. -/
theorem report_tells_listing {a b : Tree} (ha : a.Reachable) (hb : b.Reachable) (hla : a.Legible)
    (hlb : b.Legible) (lead : String) :
    a.report lead = b.report lead ↔ a.flatten = b.flatten := by
  rw [report_eq_outline, report_eq_outline]
  constructor
  · intro h
    exact flatten_eq_of_outline_eq <| text_inj (hla.legible_of_mem_outline ha.wellFormed)
      (hlb.legible_of_mem_outline hb.wellFormed) h
  · intro h
    rw [outline_eq_of_flatten_eq ha.wellFormed hb.wellFormed h]

/-- Values that look like headers and like values, in two trees that differ in an empty sub-tree: the
    same report, and the same listing. -/
theorem report_tells_listing_disguised :
    let a := ((empty.set "s.x" "[ t ]" false).state.set "k" "x = 1 = y" false).state
    let b := (a.merge empty "e" false).state
    a.Reachable ∧ b.Reachable ∧ a.Legible ∧ b.Legible ∧ a ≠ b
      ∧ a.report "> " = "> k = x = 1 = y\n> [ s ]\n> x = [ t ]\n"
      ∧ a.report "> " = b.report "> " ∧ a.flatten = b.flatten := by
  intro a b
  have ha : a.Reachable := .set (.set .empty "s.x" "[ t ]" false) "k" "x = 1 = y" false
  have hb : b.Reachable := .merge ha .empty "e" false
  have hnode : a = node [("k", "x = 1 = y")] [("s", node [("x", "[ t ]")] [])] := by decide +kernel
  have hnode' : b = node [("k", "x = 1 = y")] [("e", empty), ("s", node [("x", "[ t ]")] [])] := by
    decide +kernel
  have hempty : empty.Legible := legible_of_level (by decide +kernel) nofun
  have hsub : (node [("x", "[ t ]")] []).Legible := legible_of_level (by decide +kernel) nofun
  have hla : a.Legible := by
    rw [hnode]
    exact legible_of_level (by decide +kernel) (List.forall_mem_singleton.mpr hsub)
  have hlb : b.Legible := by
    rw [hnode']
    refine legible_of_level (by decide +kernel) (List.forall_mem_cons.mpr ⟨hempty, ?_⟩)
    exact List.forall_mem_singleton.mpr hsub
  have hreport : a.report "> " = b.report "> " := by decide +kernel
  exact ⟨ha, hb, hla, hlb, by decide +kernel, by decide +kernel, hreport,
    (report_tells_listing ha hb hla hlb "> ").mp hreport⟩

end ParamStore.Tree
