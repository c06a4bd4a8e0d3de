import Mathlib.Data.String.Basic
import ParamStore.Tree.Report
import ParamStore.Proofs.Tree.Extraction
import ParamStore.Proofs.Tree.Pruned

/-!
# The common path — where the values of a tree part

The chain that starts at the root is followed from level to level, as long as there is one sub-tree and
    no value. That is said of one level at a time; seen from the whole tree, it ends at the
    longest way that leads towards every value. All values lie below its end, since a chain
    holds nothing else. And the way cannot be longer: where it ends there is a value, or there are
    two sub-trees, and without empty sub-trees each of these leads to a value of its own.

* **`parentPaths`** — the places of the levels that hold the stored values.
* **`LongestCommonPrefix`** — the longest list that all of some lists begin with; `prefix_of_fork` says
  that none reaches beyond the place where two lists part.
* **`exists_descend`** — a tree is a chain, and the chain is what is followed.
* **`prefix_of_stops`** — two values part where a chain stops.
* **`commonPath_is_longest`** — what the common path is, and what is below it.
-/

namespace ParamStore

-- ── Prefixes ──────────────────────────────────────────────────────────────────────

/-- The longest list that all of some lists begin with. -/
structure LongestCommonPrefix (way : List String) (paths : List (List String)) : Prop where
  common : ∀ path ∈ paths, way <+: path
  longest : ∀ other, (∀ path ∈ paths, other <+: path) → other <+: way

/-- **A common prefix of two lists ends where they part**, at the latest. -/
theorem prefix_of_fork {other way rest rest' : List String} {p q : String} (hne : p ≠ q)
    (h : other <+: way ++ p :: rest) (h' : other <+: way ++ q :: rest') : other <+: way := by
  rcases List.prefix_or_prefix_of_prefix h (List.prefix_append way _) with hshort | ⟨beyond, rfl⟩
  · exact hshort
  · rw [List.prefix_append_right_inj] at h h'
    cases beyond with
    | nil => exact ⟨[], by rw [List.append_nil, List.append_nil]⟩
    | cons r beyond =>
        obtain ⟨rfl, -⟩ := List.cons_prefix_cons.mp h
        obtain ⟨rfl, -⟩ := List.cons_prefix_cons.mp h'
        exact absurd rfl hne

namespace Tree

/-- The places of the levels that hold the values of the listing: the segments of each key without
    the last one. -/
def parentPaths (t : Tree) : List (List String) :=
  t.flatten.map fun pair => ((Path.segments? pair.1).getD []).dropLast

theorem WellFormed.mem_parentPaths {t : Tree} (h : t.WellFormed) {path : List String} :
    path ∈ t.parentPaths ↔ ∃ name value, t.valueAt? path name = some value := by
  have hsegments : ∀ {parents name value}, t.valueAt? parents name = some value →
      ((Path.segments? (Path.text (parents ++ [name]))).getD []).dropLast = parents := by
    intro parents name value hvalue
    rw [segments?_text_concat (h.isName_of_valueAt? hvalue), Option.getD_some, List.dropLast_concat]
  rw [parentPaths, List.mem_map]
  constructor
  · rintro ⟨⟨key, value⟩, hmem, rfl⟩
    obtain ⟨parents, name, rfl, hvalue⟩ := h.mem_flatten.mp hmem
    rw [hsegments hvalue]
    exact ⟨name, value, hvalue⟩
  · rintro ⟨name, value, hvalue⟩
    exact ⟨(Path.text (path ++ [name]), value), h.mem_flatten.mpr ⟨path, name, rfl, hvalue⟩,
      hsegments hvalue⟩

-- ── Following a chain ─────────────────────────────────────────────────────────────

/-- A chain is not followed beyond this level: it has values, or not just one sub-tree. -/
def Stops (t : Tree) : Prop := t.values = [] → t.subs.length ≠ 1

/-- **A tree is a chain, and descending follows it to its end.** -/
theorem exists_descend (path : String) (t : Tree) : ∃ way last, t = chain way last
    ∧ descend path t = (way.foldl Path.join path, last) ∧ last.Stops := by
  induction path, t using descend.induct with
  | case1 path name only ih =>
      obtain ⟨way, last, honly, hdescend, hstops⟩ := ih
      refine ⟨name :: way, last, by rw [chain, ← honly], ?_, hstops⟩
      rw [descend, hdescend, List.foldl_cons]
  | case2 path t hends =>
      refine ⟨[], t, rfl, ?_, fun hvalues hone => ?_⟩
      · rw [descend]
        · rfl
        · exact hends
      · obtain ⟨⟨name, only⟩, hsubs⟩ := List.length_eq_one_iff.mp hone
        exact hends name only (by rw [← node_values_subs t, hvalues, hsubs])

/-- The values of a chain are below its way. -/
theorem prefix_of_mem_parentPaths {way path : List String} {last : Tree}
    (h : (chain way last).WellFormed) (hpath : path ∈ (chain way last).parentPaths) :
    way <+: path := by
  obtain ⟨name, value, hvalue⟩ := h.mem_parentPaths.mp hpath
  obtain ⟨rest, rfl, -⟩ := valueAt?_chain.mp hvalue
  exact List.prefix_append way rest

-- ── Where values part ─────────────────────────────────────────────────────────────

section Stopping

variable {last : Tree} (hl : last.WellFormed) (hp : last.Pruned)

include hl hp

/-- Below each sub-tree of a pruned level there is a value. -/
theorem exists_valueAt?_of_find? {name : String} {sub : Tree}
    (hsub : last.subs.find? name = some sub) :
    ∃ rest key value, last.valueAt? (name :: rest) key = some value := by
  have hnode : (last.nodeAt? [name]).isSome = true := by
    rw [nodeAt?_cons, hsub]
    rfl
  exact hp.exists_valueAt?_below hl (List.cons_ne_nil name []) hnode

omit hp in
/-- The first two sub-trees of a level are found under two names. -/
theorem find?_of_subs_cons {p q : String} {sub sub' : Tree} {more : List (String × Tree)}
    (hsubs : last.subs = (p, sub) :: (q, sub') :: more) :
    p ≠ q ∧ last.subs.find? p = some sub ∧ last.subs.find? q = some sub' := by
  have hascending := hl.level.subs_ascending
  refine ⟨?_, KeyMap.find?_of_mem hascending (by rw [hsubs]; simp),
    KeyMap.find?_of_mem hascending (by rw [hsubs]; simp)⟩
  rw [hsubs] at hascending
  have hlt : p < q := (List.pairwise_cons.mp hascending).1 q List.mem_cons_self
  rintro rfl
  exact String.lt_irrefl p hlt

/-- **Where a chain stops, values part**: one is there, or two lie below different names. -/
theorem parts_of_stops (hfull : last.isEmpty = false) (hstops : last.Stops) :
    (∃ key value, last.valueAt? [] key = some value)
    ∨ ∃ p q rest rest' key key' value value', p ≠ q
      ∧ last.valueAt? (p :: rest) key = some value
      ∧ last.valueAt? (q :: rest') key' = some value' := by
  by_cases hvalues : last.values = []
  · refine .inr ?_
    -- there is not just one sub-tree, and as the level is not empty, there are at least two
    rcases hsubs : last.subs with _ | ⟨⟨p, sub⟩, _ | ⟨⟨q, sub'⟩, more⟩⟩
    · rw [isEmpty, hvalues, hsubs] at hfull
      cases hfull
    · exact absurd (congrArg List.length hsubs) (hstops hvalues)
    · obtain ⟨hne, hfind, hfind'⟩ := find?_of_subs_cons hl hsubs
      obtain ⟨rest, key, value, hvalue⟩ := exists_valueAt?_of_find? hl hp hfind
      obtain ⟨rest', key', value', hvalue'⟩ := exists_valueAt?_of_find? hl hp hfind'
      exact ⟨p, q, rest, rest', key, key', value, value', hne, hvalue, hvalue'⟩
  · exact .inl (KeyMap.exists_find?_of_ne_nil hvalues)

/-- **No common prefix reaches beyond the end of the chain.** -/
theorem prefix_of_stops (hfull : last.isEmpty = false) (hstops : last.Stops) {t : Tree}
    (ht : t.WellFormed) {way : List String} (hnode : t.nodeAt? way = some last)
    {other : List String} (hother : ∀ path ∈ t.parentPaths, other <+: path) : other <+: way := by
  -- what is found at the end of the way is found in the tree, so its places are among these
  have hbelow : ∀ {rest key value}, last.valueAt? rest key = some value →
      other <+: way ++ rest := by
    intro rest key value hvalue
    refine hother _ (ht.mem_parentPaths.mpr ⟨key, value, ?_⟩)
    rw [valueAt?_below hnode, hvalue]
  rcases parts_of_stops hl hp hfull hstops with
    ⟨key, value, hvalue⟩ | ⟨p, q, rest, rest', _, _, _, _, hne, hvalue, hvalue'⟩
  · have hway := hbelow hvalue
    rwa [List.append_nil] at hway
  · exact prefix_of_fork hne (hbelow hvalue) (hbelow hvalue')

end Stopping

-- ── What is below a chain ─────────────────────────────────────────────────────────

/-- **The listing of a chain** is that of its end, every key after the text of the way. -/
theorem flatten_chain_eq {way : List String} {last : Tree} (h : (chain way last).WellFormed)
    (hne : way ≠ []) : (chain way last).flatten
      = last.flatten.map fun pair => (Path.text way ++ "." ++ pair.1, pair.2) := by
  have hnode := nodeAt?_chain way last
  have hl := h.nodeAt hnode
  have hnames : ∀ {rest name value}, last.valueAt? rest name = some value →
      Path.text (way ++ rest ++ [name]) = Path.text way ++ "." ++ Path.text (rest ++ [name]) := by
    intro rest name value hvalue
    rw [← valueAt?_below hnode] at hvalue
    have hplace := h.isName_of_valueAt? hvalue
    rw [List.append_assoc] at hplace ⊢
    exact Path.text_append hne (by simp) hplace
  have hascending : (last.flatten.map fun pair =>
      (Path.text way ++ "." ++ pair.1, pair.2)).Pairwise fun p q => p.1 < q.1 := by
    refine List.pairwise_map.mpr ((List.pairwise_map.mp hl.flatten_ascending).imp fun hlt => ?_)
    rw [String.lt_iff_toList_lt] at hlt ⊢
    rw [String.toList_append, String.toList_append (s := Path.text way ++ ".")]
    exact List.append_left_lt hlt
  -- both ascend, so it is enough that they have the same pairs
  refine KeyMap.eq_of_mem_iff (fun _ _ => String.lt_asymm)
    (List.pairwise_map.mp h.flatten_ascending) hascending ?_
  rintro ⟨key, value⟩
  rw [h.mem_flatten, List.mem_map]
  constructor
  · rintro ⟨parents, name, rfl, hvalue⟩
    obtain ⟨rest, rfl, hrest⟩ := valueAt?_chain.mp hvalue
    exact ⟨(Path.text (rest ++ [name]), value), hl.mem_flatten.mpr ⟨rest, name, rfl, hrest⟩,
      by rw [hnames hrest]⟩
  · rintro ⟨⟨key', value'⟩, hmem, heq⟩
    obtain ⟨rest, name, rfl, hrest⟩ := hl.mem_flatten.mp hmem
    obtain ⟨rfl, rfl⟩ := Prod.mk.inj heq
    exact ⟨way ++ rest, name, (hnames hrest).symm, by rw [valueAt?_below hnode, hrest]⟩

/-- **The common path is the longest common prefix of the parent paths of all values**, its names
    joined with dots; and if it has names, the sub-tree there holds all that the tree holds: the
    listing of the tree is the listing of this sub-tree, every key after the common path. -/
theorem commonPath_is_longest {t : Tree} (h : t.Reachable) (hpruned : t.Pruned)
    (hvalues : t.flatten ≠ []) :
    (∃ way, LongestCommonPrefix way t.parentPaths ∧ t.commonPath = String.intercalate "." way)
    ∧ (t.commonPath ≠ "" → ∃ sub, t.sub t.commonPath = .ok sub
      ∧ t.flatten = sub.flatten.map fun pair => (t.commonPath ++ "." ++ pair.1, pair.2)) := by
  obtain ⟨way, last, rfl, hdescend, hstops⟩ := exists_descend "" t
  have ht := h.wellFormed
  have hnode := nodeAt?_chain way last
  have hnames := ht.isName_of_nodeAt? hnode
  have hcommon : (chain way last).commonPath = Path.text way := congrArg Prod.fst hdescend
  have hfull : last.isEmpty = false := by
    obtain ⟨⟨key, value⟩, hmem⟩ := List.exists_mem_of_ne_nil _ hvalues
    obtain ⟨parents, name, -, hvalue⟩ := ht.mem_flatten.mp hmem
    obtain ⟨rest, -, hrest⟩ := valueAt?_chain.mp hvalue
    exact isEmpty_eq_false_of_valueAt? hrest
  rw [hcommon]
  refine ⟨⟨way, ⟨fun path hpath => prefix_of_mem_parentPaths ht hpath, fun other hother => ?_⟩,
    Path.text_eq_intercalate hnames⟩, fun hne => ?_⟩
  · exact prefix_of_stops (ht.nodeAt hnode) (hpruned.nodeAt hnode) hfull hstops ht hnode hother
  · have hway : way ≠ [] := by
      rintro rfl
      exact hne rfl
    refine ⟨last, ?_, flatten_chain_eq ht hway⟩
    rw [sub_eq_ok_iff, findSub?_eq (Path.segments?_text hway hnames), hnode]

/-- Two values that part below a chain of two names, and a tree whose values part at its root. -/
theorem commonPath_is_longest_fork :
    let t := ((empty.set "s.t.a.x" "1" false).state.set "s.t.b" "2" false).state
    let u := (t.set "v" "3" false).state
    t.Reachable ∧ u.Reachable ∧ t.Pruned ∧ u.Pruned ∧ t.flatten ≠ [] ∧ u.flatten ≠ []
      ∧ t.commonPath = "s.t" ∧ u.commonPath = ""
      ∧ (∃ way, LongestCommonPrefix way t.parentPaths ∧ "s.t" = String.intercalate "." way)
      ∧ (∃ way, LongestCommonPrefix way u.parentPaths ∧ "" = String.intercalate "." way)
      ∧ ∃ sub, t.sub "s.t" = .ok sub
        ∧ t.flatten = sub.flatten.map fun pair => ("s.t" ++ "." ++ pair.1, pair.2) := by
  intro t u
  have ht : t.Reachable := .set (.set .empty "s.t.a.x" "1" false) "s.t.b" "2" false
  have hu : u.Reachable := .set ht "v" "3" false
  have hpt : t.Pruned := keptBySet_pruned _ _ _ _ (keptBySet_pruned _ _ _ _ pruned_empty)
  have hpu : u.Pruned := keptBySet_pruned _ _ _ _ hpt
  have hlisted : ∀ {tree : Tree} {key value : String}, tree.Reachable →
      tree.get? key = some value → tree.flatten ≠ [] := by
    intro tree key value htree hvalue hnil
    obtain ⟨_, -, hmem⟩ := htree.wellFormed.get?_eq_some_iff.mp hvalue
    rw [hnil] at hmem
    exact absurd hmem List.not_mem_nil
  have hft : t.flatten ≠ [] := hlisted ht (show t.get? "s.t.b" = some "2" by decide +kernel)
  have hfu : u.flatten ≠ [] := hlisted hu (show u.get? "v" = some "3" by decide +kernel)
  obtain ⟨htway, htsub⟩ := commonPath_is_longest ht hpt hft
  obtain ⟨huway, -⟩ := commonPath_is_longest hu hpu hfu
  have hct : t.commonPath = "s.t" := by decide +kernel
  have hcu : u.commonPath = "" := by decide +kernel
  rw [hct] at htway htsub
  rw [hcu] at huway
  exact ⟨ht, hu, hpt, hpu, hft, hfu, hct, hcu, htway, huway, htsub (by decide)⟩

end Tree

end ParamStore
