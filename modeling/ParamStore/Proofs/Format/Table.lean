import Mathlib.Data.List.Perm.Basic
import ParamStore.Proofs.Format.Datum
import ParamStore.Proofs.KeyMap.View
import ParamStore.Proofs.Tree.Pairs

/-!
# Tables — nothing in a file is lost, and the order in a table makes no difference

A reader of files delivers tables that name no member twice, in whatever order. The members are put in
    the order of their names before they are stored, at every level, so tables that differ in the
    order alone come to the same tree or to the same refusal.

If the members' names are names of places, the way to every leaf is the place that its key names. No
    way leads to another one's parent: two leaves have a table in common, and there they part under
    different names. So nothing is in the way of anything, and the tree lists the leaves.

* **`Reordered`** — tables that differ in the order of their members, at any level.
* **`Reordered.sorted_eq`** — they are the same once their members are in order.
* **`leaves_sorted_perm`** — putting members in order keeps the leaves.
* **`leaves_apart`** — where no name is given twice, no leaf is on the way to another one.
* **`tables_land_completely`** — what a delivered table becomes.
-/

namespace ParamStore.Datum

-- ── Shapes ────────────────────────────────────────────────────────────────────────

/-- There is no table in a datum: a scalar, an explicit lack, or a list of such to any depth. -/
inductive Tableless : Datum → Prop where
  | nothing : Tableless nothing
  | truth (b : Bool) : Tableless (truth b)
  | integer (n : Int) : Tableless (integer n)
  | real (x : Number.Binary .double) : Tableless (real x)
  | text (s : String) : Tableless (text s)
  | list {items : List Datum} (h : ∀ item ∈ items, Tableless item) : Tableless (list items)

/-- Tables to any depth with data that hold no table; the names in each of them are as `P` has it. -/
inductive Nested (P : List String → Prop) : Datum → Prop where
  | leaf {d : Datum} (h : Tableless d) : Nested P d
  | table {members : List (String × Datum)} (hnames : P (members.map Prod.fst))
      (h : ∀ member ∈ members, Nested P member.2) : Nested P (table members)

/-- What a reader of files delivers: no table names a member twice. -/
def Delivered : Datum → Prop := Nested List.Nodup

/-- The names in every table are names of places. -/
def Named : Datum → Prop := Nested fun names => ∀ name ∈ names, Path.IsName name

/-- Tables with the same members in another order, at any level. -/
inductive Reordered : Datum → Datum → Prop where
  | refl (d : Datum) : Reordered d d
  | trans {d d' d'' : Datum} (h : Reordered d d') (h' : Reordered d' d'') : Reordered d d''
  | members {members members' : List (String × Datum)} (h : members.Perm members') :
      Reordered (table members) (table members')
  | inside (front back : List (String × Datum)) (name : String) {d d' : Datum}
      (h : Reordered d d') :
      Reordered (table (front ++ (name, d) :: back)) (table (front ++ (name, d') :: back))

theorem Nested.of_table {P : List String → Prop} {members : List (String × Datum)}
    (h : Nested P (.table members)) :
    P (members.map Prod.fst) ∧ ∀ member ∈ members, Nested P member.2 := by
  cases h with
  | leaf h => cases h
  | table hnames h => exact ⟨hnames, h⟩

-- ── The order of members ──────────────────────────────────────────────────────────

theorem sortedMembers_eq_map (members : List (String × Datum)) :
    sortedMembers members = members.map fun member => (member.1, sorted member.2) := by
  induction members with
  | nil => rfl
  | cons member members ih => rw [sortedMembers, ih, List.map_cons]

theorem names_sortedMembers (members : List (String × Datum)) :
    KeyMap.names (sortedMembers members) = members.map Prod.fst := by
  rw [sortedMembers_eq_map, KeyMap.names, List.map_map]
  rfl

theorem sorted_of_tableless {d : Datum} (h : Tableless d) : sorted d = d := by
  cases h <;> rfl

/-- **Tables that differ in the order of members are the same once their members are in order**, if
    no name is given twice. -/
theorem Reordered.sorted_eq {d d' : Datum} (h : Reordered d d') (hd : Delivered d) :
    Delivered d' ∧ sorted d = sorted d' := by
  induction h with
  | refl d => exact ⟨hd, rfl⟩
  | trans _ _ ih ih' =>
      obtain ⟨hmiddle, heq⟩ := ih hd
      obtain ⟨hlast, heq'⟩ := ih' hmiddle
      exact ⟨hlast, heq.trans heq'⟩
  | @members members members' hperm =>
      obtain ⟨hnames, hmembers⟩ := hd.of_table
      have hnames' : (members'.map Prod.fst).Nodup := (hperm.map Prod.fst).nodup_iff.mp hnames
      have hsorted : (sortedMembers members).Perm (sortedMembers members') := by
        rw [sortedMembers_eq_map, sortedMembers_eq_map]
        exact hperm.map _
      refine ⟨.table hnames' fun member hmember => hmembers member (hperm.mem_iff.mpr hmember), ?_⟩
      rw [sorted, sorted, KeyMap.ofList_eq_of_perm hsorted]
      rw [names_sortedMembers]
      exact hnames
  | @inside front back name d d' _ ih =>
      obtain ⟨hnames, hmembers⟩ := hd.of_table
      have hmiddle : (name, d) ∈ front ++ (name, d) :: back :=
        List.mem_append_right _ List.mem_cons_self
      obtain ⟨hd', heq⟩ := ih (hmembers _ hmiddle)
      constructor
      · refine .table ?_ ?_
        · rw [List.map_append, List.map_cons] at hnames ⊢
          exact hnames
        · intro member hmember
          rcases List.mem_append.mp hmember with hfront | hrest
          · exact hmembers member (List.mem_append_left _ hfront)
          · rcases List.mem_cons.mp hrest with rfl | hback
            · exact hd'
            · exact hmembers member (List.mem_append_right _ (List.mem_cons_of_mem _ hback))
      · simp only [sorted, sortedMembers_eq_map, List.map_append, List.map_cons, heq]

-- ── The leaves ────────────────────────────────────────────────────────────────────

/-- The leaves of a member, under its name. -/
def memberLeaves (member : String × Datum) : List (List String × String) :=
  (leaves member.2).map fun leaf => (member.1 :: leaf.1, leaf.2)

theorem leavesOf_eq_flatMap (members : List (String × Datum)) :
    leavesOf members = members.flatMap memberLeaves := by
  induction members with
  | nil => rfl
  | cons member members ih => rw [leavesOf, ih, List.flatMap_cons, memberLeaves]

/-- A datum without tables has at most one leaf, which no name leads to. -/
theorem leaves_of_tableless {d : Datum} (h : Tableless d) :
    leaves d = [] ∨ leaves d = [([], stored d)] := by
  cases h with
  | nothing => exact .inl rfl
  | truth b => exact .inr rfl
  | integer n => exact .inr rfl
  | real x => exact .inr rfl
  | text s => exact .inr rfl
  | list h => exact .inr rfl

/-- **Putting members in order keeps the leaves.** -/
theorem leaves_sorted_perm {d : Datum} (h : Delivered d) : (leaves (sorted d)).Perm (leaves d) := by
  induction h with
  | leaf h => rw [sorted_of_tableless h]
  | @table members hnames _ ih =>
      have hordered : (KeyMap.ofList (sortedMembers members)).Perm (sortedMembers members) :=
        KeyMap.ofList_perm (by rw [names_sortedMembers]; exact hnames)
      rw [sorted, leaves, leaves, leavesOf_eq_flatMap, leavesOf_eq_flatMap]
      refine (hordered.flatMap_right memberLeaves).trans ?_
      rw [sortedMembers_eq_map, List.flatMap_map]
      exact List.Perm.flatMap_left members fun member hmember => (ih member hmember).map _

/-- **Where no table names a member twice, no leaf is on the way to another one**: two leaves part in
    the table that they have in common. -/
theorem leaves_apart {d : Datum} (h : Delivered d) :
    (leaves d).Pairwise fun x y => ¬ x.1 <+: y.1 ∧ ¬ y.1 <+: x.1 := by
  induction h with
  | leaf h =>
      rcases leaves_of_tableless h with hnone | hone
      · rw [hnone]
        exact .nil
      · rw [hone]
        exact List.pairwise_singleton _ _
  | @table members hnames _ ih =>
      rw [leaves, leavesOf_eq_flatMap, List.pairwise_flatMap]
      constructor
      · intro member hmember
        refine List.pairwise_map.mpr ((ih member hmember).imp ?_)
        rintro x y ⟨hxy, hyx⟩
        simp only [List.cons_prefix_cons, true_and]
        exact ⟨hxy, hyx⟩
      · refine (List.pairwise_map.mp hnames).imp ?_
        intro member member' hne x hx y hy
        obtain ⟨leaf, -, rfl⟩ := List.mem_map.mp hx
        obtain ⟨leaf', -, rfl⟩ := List.mem_map.mp hy
        constructor
        · intro hprefix
          exact hne (List.cons_prefix_cons.mp hprefix).1
        · intro hprefix
          exact hne (List.cons_prefix_cons.mp hprefix).1.symm

/-- The way to a leaf is made of the names in the tables. -/
theorem isName_of_mem_leaves {d : Datum} (h : Named d) {leaf : List String × String}
    (hleaf : leaf ∈ leaves d) : ∀ name ∈ leaf.1, Path.IsName name := by
  induction h generalizing leaf with
  | leaf h =>
      rcases leaves_of_tableless h with hnone | hone
      · rw [hnone] at hleaf
        cases hleaf
      · rw [hone] at hleaf
        obtain rfl := List.mem_singleton.mp hleaf
        intro name hname
        cases hname
  | @table members hnames _ ih =>
      rw [leaves, leavesOf_eq_flatMap] at hleaf
      obtain ⟨member, hmember, hin⟩ := List.mem_flatMap.mp hleaf
      obtain ⟨below, hbelow, rfl⟩ := List.mem_map.mp hin
      intro name hname
      rcases List.mem_cons.mp hname with rfl | hrest
      · exact hnames _ (List.mem_map_of_mem hmember)
      · exact ih member hmember hbelow name hrest

/-- A table's own leaves are under names. -/
theorem ne_nil_of_mem_leavesOf {members : List (String × Datum)} {leaf : List String × String}
    (hleaf : leaf ∈ leavesOf members) : leaf.1 ≠ [] := by
  rw [leavesOf_eq_flatMap] at hleaf
  obtain ⟨member, -, hin⟩ := List.mem_flatMap.mp hleaf
  obtain ⟨below, -, rfl⟩ := List.mem_map.mp hin
  exact List.cons_ne_nil _ _

-- ── The tree ──────────────────────────────────────────────────────────────────────

/-- Values at ways of names that do not lead to one another are not in conflict. -/
theorem fits_of_apart {x y : List String × String} (hx : Path.segments? (pair x).1 = some x.1)
    (hy : Path.segments? (pair y).1 = some y.1) (hxy : ¬ x.1 <+: y.1) (hyx : ¬ y.1 <+: x.1) :
    Tree.Fits false (Tree.ofPair (pair x)) (Tree.ofPair (pair y)) := by
  rw [Tree.fits_ofPair_iff (by rw [hx]; exact Option.some_ne_none _)
    (by rw [hy]; exact Option.some_ne_none _), hx, hy]
  refine ⟨?_, ?_, ?_⟩
  · intro hsame
    exact hxy ⟨[], by rw [List.append_nil, Option.some.inj hsame]⟩
  · intro habove
    exact hxy (habove.isPrefix hx hy)
  · intro habove
    exact hyx (habove.isPrefix hy hx)

/-- The key of a leaf names the way to it. -/
theorem segments?_pair {members : List (String × Datum)} (h : Named (table members))
    {leaf : List String × String} (hleaf : leaf ∈ leaves (table members)) :
    Path.segments? (pair leaf).1 = some leaf.1 := by
  have hin : leaf ∈ leavesOf members := by rwa [leaves] at hleaf
  exact Path.segments?_text (ne_nil_of_mem_leavesOf hin) (isName_of_mem_leaves h hleaf)

/-- The leaves of a table can all be stored, in any order. -/
theorem joinable_leaves {members : List (String × Datum)} (h : Delivered (table members))
    (hnamed : Named (table members)) :
    Tree.Joinable false ((leaves (table members)).map pair) := by
  constructor
  · intro p hp
    obtain ⟨leaf, hleaf, rfl⟩ := List.mem_map.mp hp
    rw [segments?_pair hnamed hleaf]
    exact Option.some_ne_none _
  · refine List.pairwise_map.mpr ((leaves_apart h).imp_of_mem ?_)
    rintro x y hx hy ⟨hxy, hyx⟩
    exact fits_of_apart (segments?_pair hnamed hx) (segments?_pair hnamed hy) hxy hyx

/-- The listing of what the leaves of a table gather to is the leaves. -/
theorem flatten_gathered_leaves {members : List (String × Datum)} (h : Delivered (table members))
    (hnamed : Named (table members)) :
    (Tree.gathered ((leaves (table members)).map pair)).flatten.Perm
      ((leaves (table members)).map pair) := by
  have hnormal : ((leaves (table members)).map pair).map (fun p => (Path.normal p.1, p.2))
      = (leaves (table members)).map pair := by
    rw [List.map_map]
    refine List.map_congr_left fun leaf hleaf => ?_
    show (Path.normal (pair leaf).1, leaf.2) = (Path.text leaf.1, leaf.2)
    rw [Path.normal_eq (segments?_pair hnamed hleaf)]
  have hlisted := (joinable_leaves h hnamed).flatten_perm
  rwa [hnormal] at hlisted

/-- **What a delivered table becomes.** The order of the members makes no difference to it, at any
    level, whether it is a tree or a refusal. If the names are names of places it is a tree, and
    its listing has the leaves of the table: each of them once, under the names that lead to it,
    with the text that is stored for it, in the order of the keys. -/
theorem tables_land_completely {members : List (String × Datum)} (h : Delivered (table members)) :
    (∀ members', Reordered (table members) (table members') → toTree members' = toTree members)
      ∧ (Named (table members) → ∃ t, toTree members = .ok t
        ∧ t.flatten.Perm ((leaves (table members)).map pair)
        ∧ t.flatten.Pairwise fun p q => p.1 < q.1) := by
  constructor
  · intro members' hreordered
    rw [toTree_eq, toTree_eq, (hreordered.sorted_eq h).2]
  · intro hnamed
    have hjoinable := joinable_leaves h hnamed
    have hwf := hjoinable.gathered_wellFormed
    obtain ⟨hresult, hstate⟩ := hjoinable.setAll_empty ((leaves_sorted_perm h).map pair).symm true
    refine ⟨_, ?_, flatten_gathered_leaves h hnamed, List.pairwise_map.mp hwf.flatten_ascending⟩
    rw [toTree_eq]
    dsimp only
    rw [hresult, hstate]
    rfl

/-- A table with a table, a list and a lack in it, in two orders; and two names in conflict, in both
    orders. -/
theorem tables_land_completely_nested :
    let inner := [("y", integer 2), ("x", list [text "p", nothing])]
    let members := [("b", table inner), ("a", truth true), ("n", nothing)]
    let members' := [("n", nothing), ("b", table inner.reverse), ("a", truth true)]
    let crossed := [("a", integer 1), ("a.b", integer 2)]
    (∃ t, toTree members = .ok t ∧ toTree members' = .ok t
        ∧ t.flatten = [("a", "true"), ("b.x", "[p; ;]"), ("b.y", "2")])
      ∧ toTree crossed = .error (.pathConflict "a.b")
      ∧ toTree crossed.reverse = .error (.pathConflict "a.b") := by
  intro inner members members' crossed
  have hinner : ∀ P, P ["y", "x"] → Nested P (table inner) := by
    intro P hnames
    have hlist : Tableless (list [text "p", nothing]) :=
      .list (by simp [Tableless.text, Tableless.nothing])
    exact .table hnames (by simp [inner, Nested.leaf, Tableless.integer, hlist])
  have hmembers : ∀ P, P ["y", "x"] → P ["b", "a", "n"] → Nested P (table members) := by
    intro P hnames hnames'
    refine .table hnames' ?_
    simp [members, hinner P hnames, Nested.leaf, Tableless.truth, Tableless.nothing]
  have hreordered : Reordered (table members) (table members') :=
    .trans (.members (List.perm_append_singleton ("n", nothing) [("b", table inner), ("a", truth true)]))
      (.inside [("n", nothing)] [("a", truth true)] "b" (.members (List.reverse_perm inner).symm))
  have hcrossed : Delivered (table crossed) :=
    .table (by decide) (by simp [crossed, Nested.leaf, Tableless.integer])
  obtain ⟨horder, hlands⟩ := tables_land_completely (hmembers List.Nodup (by decide) (by decide))
  obtain ⟨t, ht, hlisted, hascending⟩ := hlands (hmembers _ (by decide +kernel) (by decide +kernel))
  refine ⟨⟨t, ht, (horder _ hreordered).trans ht, ?_⟩, rfl, ?_⟩
  · exact KeyMap.eq_of_mem_iff (fun _ _ => String.lt_asymm) hascending (by decide +kernel)
      fun _ => (hlisted.trans (by decide +kernel)).mem_iff
  · have hreversed : Reordered (table crossed) (table crossed.reverse) :=
      .members (List.reverse_perm crossed).symm
    rw [(tables_land_completely hcrossed).1 _ hreversed]
    rfl

end ParamStore.Datum
