import ParamStore.Proofs.Tree.Chain
import ParamStore.Proofs.Tree.Listing

/-!
# Gathering — storing values one by one is merging the tree of all of them

Storing a value under a key is merging the tree that holds this value only: the chain of its parents
    with the value at the end. A run of such changes then merges one small tree after the
    other, and since grouping does not matter to merging, it comes to one merge of all of
    them gathered. It is accepted exactly if no two of the values are in conflict and none of them is
    with the target, whatever the order in which conflicts would come up. A tree without empty
    sub-trees is what the values of its own listing gather to.

* **`single`** — the tree of one value; **`set_alike`** says that storing a value merges it.
* **`gathered`** — the trees of some pairs laid over one another.
* **`setAll_succeeds_iff`**, **`setAll_state`** — a run of changes as one merge;
  **`ofPairs_eq_ok_iff`** — the case of a run from the empty tree.
* **`gathered_flatten`** — a tree from its listing.
* **`merge_as_settings`** — merging a tree and storing its listing come to the same.
-/

namespace ParamStore

namespace Tree

-- ── One value ─────────────────────────────────────────────────────────────────────

/-- The tree of one value: the chain of its parents with the value at the end. -/
def single (parents : List String) (name value : String) : Tree :=
  chain parents (node [(name, value)] [])

section Single

variable {parents : List String} {name value : String}

theorem single_wellFormed (h : ∀ p ∈ parents ++ [name], Path.IsName p) :
    (single parents name value).WellFormed := by
  refine chain_wellFormed (fun p hp => h p (List.mem_append_left _ hp)) ?_
  exact wellFormed_empty.insertValue (h name (by simp)) List.not_mem_nil value

/-- The tree of one value has this value only. -/
theorem valueAt?_single (place : List String) (key : String) :
    (single parents name value).valueAt? place key
      = if place = parents ∧ key = name then some value else none := by
  refine Option.ext fun v => ?_
  rw [single, valueAt?_chain]
  constructor
  · rintro ⟨rest, rfl, hvalue⟩
    -- the end of the chain has no sub-trees, so the way stops there
    cases rest with
    | cons q rest => cases hvalue
    | nil =>
        by_cases hkey : key = name
        · simpa [KeyMap.find?, hkey] using hvalue
        · simp [KeyMap.find?, hkey] at hvalue
  · intro hvalue
    obtain ⟨⟨rfl, rfl⟩, hv⟩ := Option.ite_none_right_eq_some.mp hvalue
    obtain rfl := Option.some.inj hv
    exact ⟨[], (List.append_nil place).symm, KeyMap.find?_insert_self key value []⟩

/-- The tree of one value has sub-trees on the way to it only. -/
theorem isSome_nodeAt?_single (path : List String) :
    ((single parents name value).nodeAt? path).isSome = true ↔ path <+: parents := by
  rw [single, isSome_nodeAt?_chain]
  constructor
  · rintro (hway | ⟨rest, rfl, hnode⟩)
    · exact hway
    · cases rest with
      | nil => exact ⟨[], by simp⟩
      | cons q rest => cases hnode
  · exact Or.inl

end Single

section Set

variable {t : Tree} {key name value : String} {parents : List String} {overwrite : Bool}

/-- At its level, storing a value is checked as a merge of the value. -/
theorem setLocal_alike (full path : String) (level : Tree) :
    Alike (setLocal full name value overwrite level).result
      (checkMerge overwrite path level (node [(name, value)] [])) := by
  rw [setLocal, checkMerge, checkValues, checkValues, checkSubs]
  split
  · exact .error rfl
  · split
    · exact .error rfl
    · exact .ok

theorem setLocal_state {full : String} {level : Tree}
    (h : (setLocal full name value overwrite level).result = .ok ()) :
    (setLocal full name value overwrite level).state = level.overlay (node [(name, value)] []) := by
  rw [overlay, overlaySubs]
  rw [setLocal] at h ⊢
  split
  · next hsub => rw [if_pos hsub] at h; cases h
  · next hsub =>
      rw [if_neg hsub] at h
      split
      · next hvalue => rw [if_pos hvalue] at h; cases h
      · rfl

/-- **Storing a value is checked as merging the tree of the value.** -/
theorem set_alike (hkey : Path.segments? key = some (parents ++ [name])) (t : Tree)
    (value : String) (overwrite : Bool) : Alike (t.set key value overwrite).result
      (checkMerge overwrite "" t (single parents name value)) := by
  have hname := Path.isName_of_segments? hkey name (by simp)
  have hleaf : (node [(name, value)] []).WellFormed :=
    wellFormed_empty.insertValue hname List.not_mem_nil value
  rw [set, Path.splitLast_eq_ok_iff.mpr hkey]
  dsimp only
  rw [within_result]
  refine Alike.trans ?_ (checkMerge_chain hleaf "" key parents t).symm
  split
  · exact .refl _
  · exact setLocal_alike key key _

theorem set_succeeds_iff (hkey : Path.segments? key = some (parents ++ [name])) :
    (t.set key value overwrite).succeeds = true ↔ Fits overwrite t (single parents name value) := by
  have hsingle : (single parents name value).WellFormed :=
    single_wellFormed (Path.isName_of_segments? hkey)
  rw [Attempt.succeeds_iff, (set_alike hkey t value overwrite).ok_iff, checkMerge_eq_ok_iff hsingle]

/-- **A stored value is laid over the tree.** -/
theorem set_state (hkey : Path.segments? key = some (parents ++ [name]))
    (h : (t.set key value overwrite).succeeds = true) :
    (t.set key value overwrite).state = t.overlay (single parents name value) := by
  rw [Attempt.succeeds_iff] at h
  rw [set, Path.splitLast_eq_ok_iff.mpr hkey] at h ⊢
  dsimp only at h ⊢
  rw [within_result] at h
  split at h
  · cases h
  · next hfree => exact within_state_eq_overlay (Bool.eq_false_iff.mpr hfree) (setLocal_state h)

end Set

-- ── Several values ────────────────────────────────────────────────────────────────

/-- The tree of a key and its value; empty if the key names no place. -/
def ofPair (pair : String × String) : Tree :=
  match Path.splitLast pair.1 with
  | .ok (parents, name) => single parents name pair.2
  | .error _ => empty

theorem ofPair_eq {pair : String × String} {parents : List String} {name : String}
    (h : Path.segments? pair.1 = some (parents ++ [name])) :
    ofPair pair = single parents name pair.2 := by
  rw [ofPair, Path.splitLast_eq_ok_iff.mpr h]

theorem ofPair_wellFormed (pair : String × String) : (ofPair pair).WellFormed := by
  rcases segments?_cases pair.1 with hnone | ⟨parents, name, hsome⟩
  · rw [ofPair, Path.splitLast_eq_error_iff.mpr ⟨hnone, rfl⟩]
    exact wellFormed_empty
  · rw [ofPair_eq hsome]
    exact single_wellFormed (Path.isName_of_segments? hsome)

/-- The trees of some pairs, laid over one another. -/
def gathered : List (String × String) → Tree
  | [] => empty
  | pair :: rest => (ofPair pair).overlay (gathered rest)

/-- All keys name places, and no two of the pairs are in conflict. -/
structure Joinable (overwrite : Bool) (pairs : List (String × String)) : Prop where
  named : ∀ pair ∈ pairs, Path.segments? pair.1 ≠ none
  fits : pairs.Pairwise fun p q => Fits overwrite (ofPair p) (ofPair q)

section Gathered

variable {overwrite : Bool} {pairs : List (String × String)}

theorem Joinable.tail {pair : String × String} (h : Joinable overwrite (pair :: pairs)) :
    Joinable overwrite pairs :=
  ⟨fun p hp => h.named p (List.mem_cons_of_mem _ hp), h.fits.of_cons⟩

/-- Joinable pairs gather to a well-formed tree, which is in conflict where one of them is. -/
theorem Joinable.gathered_spec (h : Joinable overwrite pairs) :
    (gathered pairs).WellFormed ∧ ∀ a : Tree,
      Fits overwrite a (gathered pairs) ↔ ∀ pair ∈ pairs, Fits overwrite a (ofPair pair) := by
  induction pairs with
  | nil => exact ⟨wellFormed_empty, fun a => ⟨fun _ _ h => absurd h List.not_mem_nil,
      fun _ => fits_comm.mp (fits_empty overwrite a)⟩⟩
  | cons pair rest ih =>
      obtain ⟨hrest, hfits⟩ := ih h.tail
      -- the two statements go together: that the first pair fits the gathered others is an
      -- instance of the second, and the first needs it
      have hfirst : Fits overwrite (ofPair pair) (gathered rest) :=
        (hfits _).mpr (List.pairwise_cons.mp h.fits).1
      refine ⟨overlay_wellFormed (ofPair_wellFormed pair) hrest hfirst, fun a => ?_⟩
      rw [gathered, fits_overlay_right hrest, hfits a, List.forall_mem_cons]

theorem Joinable.gathered_wellFormed (h : Joinable overwrite pairs) :
    (gathered pairs).WellFormed := h.gathered_spec.1

theorem Joinable.fits_gathered (h : Joinable overwrite pairs) {a : Tree} :
    Fits overwrite a (gathered pairs) ↔ ∀ pair ∈ pairs, Fits overwrite a (ofPair pair) :=
  h.gathered_spec.2 a

theorem joinable_cons {pair : String × String} : Joinable overwrite (pair :: pairs) ↔
    Path.segments? pair.1 ≠ none ∧ Joinable overwrite pairs
      ∧ Fits overwrite (ofPair pair) (gathered pairs) := by
  constructor
  · intro h
    refine ⟨h.named pair List.mem_cons_self, h.tail, ?_⟩
    exact h.tail.fits_gathered.mpr (List.pairwise_cons.mp h.fits).1
  · rintro ⟨hnamed, hrest, hfits⟩
    exact ⟨List.forall_mem_cons.mpr ⟨hnamed, hrest.named⟩,
      List.pairwise_cons.mpr ⟨hrest.fits_gathered.mp hfits, hrest.fits⟩⟩

theorem setAll_cons (pair : String × String) (rest : List (String × String)) (t : Tree) :
    setAll overwrite (pair :: rest) t
      = (t.set pair.1 pair.2 overwrite).andThen fun _ next => setAll overwrite rest next := rfl

/-- A pair is stored exactly if its key names a place and its tree fits. -/
theorem set_pair_succeeds_iff (pair : String × String) (t : Tree) :
    (t.set pair.1 pair.2 overwrite).succeeds = true ↔
      Path.segments? pair.1 ≠ none ∧ Fits overwrite t (ofPair pair) := by
  rcases segments?_cases pair.1 with hnone | ⟨parents, name, hsome⟩
  · rw [Attempt.succeeds_iff, set, Path.splitLast_eq_error_iff.mpr ⟨hnone, rfl⟩, hnone]
    simp [Attempt.refuse]
  · rw [set_succeeds_iff hsome, ofPair_eq hsome, hsome]
    simp

theorem set_pair_state {pair : String × String} {t : Tree}
    (h : (t.set pair.1 pair.2 overwrite).succeeds = true) :
    (t.set pair.1 pair.2 overwrite).state = t.overlay (ofPair pair) := by
  rcases segments?_cases pair.1 with hnone | ⟨parents, name, hsome⟩
  · exact absurd hnone ((set_pair_succeeds_iff pair t).mp h).1
  · rw [set_state hsome h, ofPair_eq hsome]

/-- **A run of values is stored to the end exactly if they are joinable and what they gather to
    fits.** -/
theorem setAll_succeeds_iff (pairs : List (String × String)) {t : Tree} (ht : t.WellFormed) :
    (setAll overwrite pairs t).succeeds = true ↔
      Joinable overwrite pairs ∧ Fits overwrite t (gathered pairs) := by
  induction pairs generalizing t with
  | nil =>
      have hjoinable : Joinable overwrite [] := ⟨fun _ h => absurd h List.not_mem_nil, .nil⟩
      exact iff_of_true rfl ⟨hjoinable, fits_comm.mp (fits_empty overwrite t)⟩
  | cons pair rest ih =>
      have hpair := ofPair_wellFormed pair
      rw [setAll_cons, Attempt.succeeds_andThen, set_pair_succeeds_iff, joinable_cons]
      constructor
      · rintro ⟨⟨hnamed, hfits⟩, hrun⟩
        -- the others meet the tree with the first value in it, so they fit both
        have hset := (set_pair_succeeds_iff pair t).mpr ⟨hnamed, hfits⟩
        rw [set_pair_state hset, ih (overlay_wellFormed ht hpair hfits)] at hrun
        obtain ⟨hrest, hboth⟩ := hrun
        obtain ⟨ht', hpair'⟩ := (fits_overlay_left hpair).mp hboth
        exact ⟨⟨hnamed, hrest, hpair'⟩, (fits_overlay_right hrest.gathered_wellFormed).mpr ⟨hfits, ht'⟩⟩
      · rintro ⟨⟨hnamed, hrest, hpair'⟩, hboth⟩
        obtain ⟨hfits, ht'⟩ := (fits_overlay_right hrest.gathered_wellFormed).mp hboth
        have hset := (set_pair_succeeds_iff pair t).mpr ⟨hnamed, hfits⟩
        refine ⟨⟨hnamed, hfits⟩, ?_⟩
        rw [set_pair_state hset, ih (overlay_wellFormed ht hpair hfits)]
        exact ⟨hrest, (fits_overlay_left hpair).mpr ⟨ht', hpair'⟩⟩

/-- **A run of values that are stored to the end lays over the tree what they gather to.** -/
theorem setAll_state {pairs : List (String × String)} {t : Tree} (ht : t.WellFormed)
    (h : (setAll overwrite pairs t).succeeds = true) :
    (setAll overwrite pairs t).state = t.overlay (gathered pairs) := by
  induction pairs generalizing t with
  | nil =>
      rw [gathered, overlay_empty]
      rfl
  | cons pair rest ih =>
      have hpair := ofPair_wellFormed pair
      obtain ⟨hjoinable, hboth⟩ := (setAll_succeeds_iff (pair :: rest) ht).mp h
      obtain ⟨-, hrest, hpair'⟩ := joinable_cons.mp hjoinable
      obtain ⟨hfits, ht'⟩ := (fits_overlay_right hrest.gathered_wellFormed).mp hboth
      rw [setAll_cons] at h ⊢
      obtain ⟨hset, hrun⟩ := (Attempt.succeeds_andThen _ _).mp h
      rw [Attempt.andThen_of_ok (Attempt.succeeds_iff.mp hset)]
      rw [set_pair_state hset] at hrun ⊢
      rw [ih (overlay_wellFormed ht hpair hfits) hrun, gathered,
        overlay_assoc ht hpair hrest.gathered_wellFormed hfits ht' hpair']

/-- **Pairs build a tree exactly if they are joinable**, and then the one that they gather to. -/
theorem ofPairs_eq_ok_iff {t : Tree} :
    ofPairs pairs = .ok t ↔ Joinable false pairs ∧ gathered pairs = t := by
  have hruns : (setAll false pairs empty).succeeds = true ↔ Joinable false pairs := by
    rw [setAll_succeeds_iff pairs wellFormed_empty]
    exact and_iff_left (fits_empty false _)
  rw [ofPairs]
  cases hresult : (setAll false pairs empty).result with
  | ok _ =>
      have hsucceeds := Attempt.succeeds_iff.mpr hresult
      have hjoinable := hruns.mp hsucceeds
      rw [setAll_state wellFormed_empty hsucceeds, empty_overlay hjoinable.gathered_wellFormed]
      exact ⟨fun h => ⟨hjoinable, Except.ok.inj h⟩, fun h => congrArg Except.ok h.2⟩
  | error e =>
      have hrefused : ¬ (setAll false pairs empty).succeeds = true := by
        rw [Attempt.succeeds_iff, hresult]
        intro hok
        cases hok
      exact iff_of_false (fun h => by cases h) fun h => hrefused (hruns.mpr h.1)

end Gathered

-- ── A tree from its listing ───────────────────────────────────────────────────────

section Views

variable {overwrite : Bool} {pairs : List (String × String)}

/-- A value of a gathered tree comes from one of the pairs. -/
theorem Joinable.mem_of_valueAt? (h : Joinable overwrite pairs) {parents : List String}
    {name value : String} (hvalue : (gathered pairs).valueAt? parents name = some value) :
    ∃ key, (key, value) ∈ pairs ∧ Path.segments? key = some (parents ++ [name]) := by
  induction pairs with
  | nil => rw [gathered, valueAt?_empty] at hvalue; exact nomatch hvalue
  | cons pair rest ih =>
      rw [gathered, valueAt?_overlay h.tail.gathered_wellFormed, Option.or_eq_some_iff] at hvalue
      rcases hvalue with hrest | ⟨-, hpair⟩
      · obtain ⟨key, hmem, hkey⟩ := ih h.tail hrest
        exact ⟨key, List.mem_cons_of_mem _ hmem, hkey⟩
      · rcases segments?_cases pair.1 with hnone | ⟨ps, n, hsome⟩
        · exact absurd hnone (h.named pair List.mem_cons_self)
        · rw [ofPair_eq hsome, valueAt?_single] at hpair
          split at hpair
          · next hplace =>
              obtain ⟨rfl, rfl⟩ := hplace
              obtain rfl := Option.some.inj hpair
              exact ⟨pair.1, List.mem_cons_self, hsome⟩
          · exact nomatch hpair

/-- Every pair leaves a value at its place. -/
theorem Joinable.isSome_valueAt? (h : Joinable overwrite pairs) {pair : String × String}
    (hmem : pair ∈ pairs) {parents : List String} {name : String}
    (hkey : Path.segments? pair.1 = some (parents ++ [name])) :
    ((gathered pairs).valueAt? parents name).isSome = true := by
  induction pairs with
  | nil => exact absurd hmem List.not_mem_nil
  | cons first rest ih =>
      rw [gathered, valueAt?_overlay h.tail.gathered_wellFormed, Option.isSome_or, Bool.or_eq_true]
      rcases List.mem_cons.mp hmem with rfl | hmem
      · rw [ofPair_eq hkey, valueAt?_single, if_pos ⟨rfl, rfl⟩]
        exact Or.inr rfl
      · exact Or.inl (ih h.tail hmem)

/-- The sub-trees of a gathered tree are the ways to its values. -/
theorem Joinable.isSome_nodeAt?_iff (h : Joinable overwrite pairs) {path : List String} :
    ((gathered pairs).nodeAt? path).isSome = true ↔ path = [] ∨ ∃ pair ∈ pairs, ∃ parents name,
      Path.segments? pair.1 = some (parents ++ [name]) ∧ path <+: parents := by
  induction pairs with
  | nil => cases path <;> simp [gathered, nodeAt?_empty_cons]
  | cons pair rest ih =>
      obtain ⟨parents, name, hsome⟩ :=
        (segments?_cases pair.1).resolve_left (h.named pair List.mem_cons_self)
      rw [gathered, isSome_nodeAt?_overlay h.tail.gathered_wellFormed, Bool.or_eq_true, ih h.tail,
        ofPair_eq hsome, isSome_nodeAt?_single, List.exists_mem_cons_iff]
      have hfirst : path <+: parents ↔ ∃ ps n,
          Path.segments? pair.1 = some (ps ++ [n]) ∧ path <+: ps := by
        constructor
        · exact fun hpath => ⟨parents, name, hsome, hpath⟩
        · rintro ⟨ps, n, hkey, hpath⟩
          have heq := Option.some.inj (hsome.symm.trans hkey)
          exact (List.append_inj_left' heq rfl) ▸ hpath
      rw [hfirst]
      exact or_left_comm

end Views

/-- No sub-tree is empty, at any depth; the tree itself may be. -/
def Pruned (t : Tree) : Prop :=
  ∀ path sub, path ≠ [] → t.nodeAt? path = some sub → sub.isEmpty = false

section Pruned

variable {t : Tree}

theorem Pruned.child (h : t.Pruned) {name : String} {sub : Tree}
    (hsub : t.subs.find? name = some sub) : sub.Pruned := by
  intro path found _ hfound
  refine h (name :: path) found (List.cons_ne_nil _ _) ?_
  rw [nodeAt?_cons, hsub]
  exact hfound

/-- The sub-trees of a pruned tree are not empty, and pruned. -/
theorem Pruned.of_find? (h : t.Pruned) {name : String} {sub : Tree}
    (hsub : t.subs.find? name = some sub) : sub.isEmpty = false ∧ sub.Pruned := by
  refine ⟨h [name] sub (List.cons_ne_nil _ _) ?_, h.child hsub⟩
  rw [nodeAt?_cons, hsub]
  rfl

/-- A tree is pruned if no sub-tree of its root is empty and all of them are pruned. -/
theorem pruned_of_find?
    (h : ∀ name sub, t.subs.find? name = some sub → sub.isEmpty = false ∧ sub.Pruned) :
    t.Pruned := by
  intro path sub hpath hsub
  obtain ⟨name, rest, rfl⟩ := List.exists_cons_of_ne_nil hpath
  rw [nodeAt?_cons] at hsub
  obtain ⟨child, hchild, hrest⟩ := Option.bind_eq_some_iff.mp hsub
  obtain ⟨hfull, hpruned⟩ := h name child hchild
  by_cases hnil : rest = []
  · subst hnil
    obtain rfl := Option.some.inj hrest
    exact hfull
  · exact hpruned rest sub hnil hrest

theorem pruned_of_subs
    (h : ∀ name sub, (name, sub) ∈ t.subs → sub.isEmpty = false ∧ sub.Pruned) : t.Pruned :=
  pruned_of_find? fun name sub hsub => h name sub (KeyMap.mem_of_find? hsub)

/-- Without empty sub-trees, a tree that is not empty has a value. -/
theorem Pruned.exists_valueAt? (ht : t.WellFormed) (h : t.Pruned) (hne : t.isEmpty = false) :
    ∃ parents name value, t.valueAt? parents name = some value := by
  induction ht with
  | @intro t level _ ih =>
      rcases Bool.and_eq_false_iff.mp hne with hvalues | hsubs
      · obtain ⟨name, value, hfind⟩ :=
          KeyMap.exists_find?_of_ne_nil (List.isEmpty_eq_false_iff.mp hvalues)
        exact ⟨[], name, value, hfind⟩
      · obtain ⟨p, sub, hfind⟩ :=
          KeyMap.exists_find?_of_ne_nil (List.isEmpty_eq_false_iff.mp hsubs)
        obtain ⟨parents, name, value, hvalue⟩ := ih _ _ hfind (h.child hfind) (h.of_find? hfind).1
        refine ⟨p :: parents, name, value, ?_⟩
        rw [valueAt?_cons, hfind]
        exact hvalue

/-- A sub-tree at any depth of a pruned tree is pruned. -/
theorem Pruned.nodeAt (h : t.Pruned) {path : List String} {found : Tree}
    (hfound : t.nodeAt? path = some found) : found.Pruned := by
  intro rest sub hrest hsub
  refine h (path ++ rest) sub (by simp [hrest]) ?_
  rw [nodeAt?_below hfound]
  exact hsub

/-- Below every sub-tree of a pruned tree there is a value. -/
theorem Pruned.exists_valueAt?_below (h : t.Pruned) (ht : t.WellFormed) {path : List String}
    (hpath : path ≠ []) (hnode : (t.nodeAt? path).isSome = true) :
    ∃ parents name value, t.valueAt? (path ++ parents) name = some value := by
  obtain ⟨sub, hsub⟩ := Option.isSome_iff_exists.mp hnode
  obtain ⟨parents, name, value, hvalue⟩ :=
    (h.nodeAt hsub).exists_valueAt? (ht.nodeAt hsub) (h path sub hpath hsub)
  refine ⟨parents, name, value, ?_⟩
  rw [valueAt?_below hsub]
  exact hvalue

end Pruned

section Flatten

variable {t : Tree}

/-- A sub-tree is there on every part of a way to a sub-tree. -/
theorem isSome_nodeAt?_of_prefix {path way : List String} (h : path <+: way)
    (hway : (t.nodeAt? way).isSome = true) : (t.nodeAt? path).isSome = true := by
  obtain ⟨rest, rfl⟩ := h
  rw [nodeAt?_append] at hway
  exact Option.isSome_of_isSome_bind hway

theorem isSome_nodeAt?_of_valueAt? {parents : List String} {name value : String}
    (h : t.valueAt? parents name = some value) : (t.nodeAt? parents).isSome = true :=
  Option.isSome_of_isSome_bind (Option.isSome_iff_exists.mpr ⟨value, h⟩)

/-- The trees of two different values of a tree are not in conflict. -/
theorem WellFormed.fits_single (ht : t.WellFormed) {ps ps' : List String} {n n' v v' : String}
    (h : t.valueAt? ps n = some v) (h' : t.valueAt? ps' n' = some v')
    (hne : ¬ (ps = ps' ∧ n = n')) : Fits false (single ps n v) (single ps' n' v') := by
  -- a value in the place of a way to the other would be a value and a sub-tree of the tree
  have hcross : ∀ {ps ps' : List String} {n n' v v' : String}, t.valueAt? ps n = some v →
      t.valueAt? ps' n' = some v' → ∀ parents name,
        ¬ (((single ps n v).valueAt? parents name).isSome = true
          ∧ ((single ps' n' v').nodeAt? (parents ++ [name])).isSome = true) := by
    rintro ps ps' n n' v v' h h' parents name ⟨hvalue, hnode⟩
    rw [valueAt?_single] at hvalue
    split at hvalue
    · next hplace =>
        obtain ⟨rfl, rfl⟩ := hplace
        rw [isSome_nodeAt?_single] at hnode
        have hsub := isSome_nodeAt?_of_prefix hnode (isSome_nodeAt?_of_valueAt? h')
        rw [ht.nodeAt?_eq_none_of_valueAt? h] at hsub
        exact nomatch hsub
    · exact nomatch hvalue
  refine ⟨fun parents name hcrossed => ?_, Or.inr fun parents name hdoubled => ?_⟩
  · rcases hcrossed with hleft | hright
    · exact hcross h h' parents name hleft
    · exact hcross h' h parents name hright.symm
  · rw [Doubled, valueAt?_single, valueAt?_single] at hdoubled
    obtain ⟨hleft, hright⟩ := hdoubled
    split at hleft
    · next hplace =>
        obtain ⟨rfl, rfl⟩ := hplace
        rw [if_neg hne] at hright
        exact nomatch hright
    · exact nomatch hleft

/-- The keys of a listing are the texts of the places of its values. -/
theorem WellFormed.segments?_of_mem_flatten (ht : t.WellFormed) {pair : String × String}
    (hmem : pair ∈ t.flatten) : ∃ parents name,
      Path.segments? pair.1 = some (parents ++ [name])
        ∧ pair.1 = Path.text (parents ++ [name]) ∧ t.valueAt? parents name = some pair.2 := by
  obtain ⟨parents, name, htext, hvalue⟩ := ht.mem_flatten.mp hmem
  refine ⟨parents, name, ?_, htext, hvalue⟩
  rw [htext]
  exact segments?_text_concat (ht.isName_of_valueAt? hvalue)

/-- **The listing of a tree is joinable**: its places differ, and none is a sub-tree. -/
theorem WellFormed.joinable_flatten (ht : t.WellFormed) (overwrite : Bool) :
    Joinable overwrite t.flatten := by
  refine ⟨fun pair hmem hnone => ?_, ?_⟩
  · obtain ⟨_, _, hsome, -⟩ := ht.segments?_of_mem_flatten hmem
    rw [hnone] at hsome
    exact nomatch hsome
  · refine ht.nodup_flatten.imp_of_mem ?_
    rintro ⟨key, v⟩ ⟨key', v'⟩ hmem hmem' hne
    obtain ⟨ps, n, hkey, htext, hvalue⟩ := ht.segments?_of_mem_flatten hmem
    obtain ⟨ps', n', hkey', htext', hvalue'⟩ := ht.segments?_of_mem_flatten hmem'
    rw [ofPair_eq hkey, ofPair_eq hkey']
    refine (ht.fits_single hvalue hvalue' ?_).of_false overwrite
    rintro ⟨rfl, rfl⟩
    exact hne (Prod.ext (htext.trans htext'.symm) (Option.some.inj (hvalue.symm.trans hvalue')))

/-- The values of a tree are those that its listing gathers to. -/
theorem WellFormed.valueAt?_gathered_flatten (ht : t.WellFormed) (parents : List String)
    (name : String) : (gathered t.flatten).valueAt? parents name = t.valueAt? parents name := by
  have hjoinable := ht.joinable_flatten false
  have hsound : ∀ {value}, (gathered t.flatten).valueAt? parents name = some value →
      t.valueAt? parents name = some value := by
    intro value hvalue
    obtain ⟨key, hmem, hkey⟩ := hjoinable.mem_of_valueAt? hvalue
    obtain ⟨ps, n, hkey', -, hold⟩ := ht.segments?_of_mem_flatten hmem
    obtain ⟨rfl, hname⟩ := List.append_inj' (Option.some.inj (hkey.symm.trans hkey')) rfl
    obtain rfl := List.singleton_inj.mp hname
    exact hold
  refine Option.ext fun value => ⟨hsound, fun hvalue => ?_⟩
  -- the value is listed, so something is gathered here, and that can only be the value
  obtain ⟨value', hvalue'⟩ := Option.isSome_iff_exists.mp <|
    hjoinable.isSome_valueAt? (ht.mem_flatten.mpr ⟨parents, name, rfl, hvalue⟩)
      (segments?_text_concat (ht.isName_of_valueAt? hvalue))
  rw [hvalue', ← hvalue, hsound hvalue']

/-- The sub-trees that a listing gathers to are those on the way to a value of the tree. -/
theorem WellFormed.isSome_nodeAt?_gathered_flatten (ht : t.WellFormed) {path : List String} :
    ((gathered t.flatten).nodeAt? path).isSome = true ↔ path = [] ∨
      ∃ parents name value, t.valueAt? parents name = some value ∧ path <+: parents := by
  rw [(ht.joinable_flatten false).isSome_nodeAt?_iff]
  refine or_congr_right ⟨?_, ?_⟩
  · rintro ⟨pair, hmem, parents, name, hkey, hpath⟩
    obtain ⟨ps, n, hkey', -, hvalue⟩ := ht.segments?_of_mem_flatten hmem
    obtain ⟨rfl, -⟩ := List.append_inj' (Option.some.inj (hkey.symm.trans hkey')) rfl
    exact ⟨parents, n, pair.2, hvalue, hpath⟩
  · rintro ⟨parents, name, value, hvalue, hpath⟩
    exact ⟨_, ht.mem_flatten.mpr ⟨parents, name, rfl, hvalue⟩, parents, name,
      segments?_text_concat (ht.isName_of_valueAt? hvalue), hpath⟩

/-- **A tree without empty sub-trees is what the values of its listing gather to.** -/
theorem Pruned.gathered_flatten (h : t.Pruned) (ht : t.WellFormed) : gathered t.flatten = t := by
  refine (ht.joinable_flatten false).gathered_wellFormed.eq_of_views ht
    ht.valueAt?_gathered_flatten fun path => ?_
  rw [Bool.eq_iff_iff, ht.isSome_nodeAt?_gathered_flatten]
  constructor
  · rintro (rfl | ⟨parents, name, value, hvalue, hpath⟩)
    · rfl
    · exact isSome_nodeAt?_of_prefix hpath (isSome_nodeAt?_of_valueAt? hvalue)
  · intro hnode
    by_cases hpath : path = []
    · exact Or.inl hpath
    · obtain ⟨parents, name, value, hvalue⟩ := h.exists_valueAt?_below ht hpath hnode
      exact Or.inr ⟨path ++ parents, name, value, hvalue, List.prefix_append _ _⟩

end Flatten

/-- **Merging agrees with storing key by key.** A merge at the root of a tree without empty
    sub-trees is accepted exactly if all its values, in the order of its listing, can be stored
    one after the other, and then both make the same tree. -/
theorem merge_as_settings {a b : Tree} (ha : a.Reachable) (hb : b.Reachable) (hpruned : b.Pruned)
    (overwrite : Bool) :
    ((a.merge b "" overwrite).succeeds = true ↔
      (setAll overwrite b.flatten a).succeeds = true)
    ∧ ((a.merge b "" overwrite).succeeds = true →
      (a.merge b "" overwrite).state = (setAll overwrite b.flatten a).state) := by
  have hgathered := hpruned.gathered_flatten hb.wellFormed
  have hiff : (a.merge b "" overwrite).succeeds = true ↔
      (setAll overwrite b.flatten a).succeeds = true := by
    rw [merge_root_succeeds_iff hb.wellFormed, setAll_succeeds_iff _ ha.wellFormed, hgathered]
    exact ⟨fun h => ⟨hb.wellFormed.joinable_flatten overwrite, h⟩, fun h => h.2⟩
  refine ⟨hiff, fun h => ?_⟩
  rw [merge_root_state h, setAll_state ha.wellFormed (hiff.mp h), hgathered]

/-- A tree with values at two depths, stored over and refused by one that has one of them. -/
theorem merge_as_settings_below :
    let a := ((empty.set "s.x" "1" false).state.set "k" "0" false).state
    let b := ((empty.set "s.x" "2" false).state.set "s.t.y" "3" false).state
    a.Reachable ∧ b.Reachable ∧ b.Pruned
      ∧ (a.merge b "" true).succeeds = true ∧ (setAll true b.flatten a).succeeds = true
      ∧ (setAll true b.flatten a).state.get? "s.x" = some "2"
      ∧ (a.merge b "" false).succeeds = false ∧ (setAll false b.flatten a).succeeds = false := by
  intro a b
  have ha : a.Reachable := .set (.set .empty "s.x" "1" false) "k" "0" false
  have hb : b.Reachable := .set (.set .empty "s.x" "2" false) "s.t.y" "3" false
  have hpruned : b.Pruned := by
    have hb' : b = node [] [("s", node [("x", "2")] [("t", node [("y", "3")] [])])] := by
      decide +kernel
    rw [hb']
    refine pruned_of_subs fun name sub hmem => ?_
    obtain ⟨-, rfl⟩ := Prod.mk.inj (List.mem_singleton.mp hmem)
    refine ⟨rfl, pruned_of_subs fun name sub hmem => ?_⟩
    obtain ⟨-, rfl⟩ := Prod.mk.inj (List.mem_singleton.mp hmem)
    exact ⟨rfl, pruned_of_subs fun _ _ hmem => absurd hmem List.not_mem_nil⟩
  have haccepted : (a.merge b "" true).succeeds = true := by decide +kernel
  have hrefused : (a.merge b "" false).succeeds = false := by decide +kernel
  obtain ⟨hiff, hstate⟩ := merge_as_settings ha hb hpruned true
  obtain ⟨hiff', -⟩ := merge_as_settings ha hb hpruned false
  refine ⟨ha, hb, hpruned, haccepted, hiff.mp haccepted, ?_, hrefused, ?_⟩
  · rw [← hstate haccepted]
    decide +kernel
  · rw [← hrefused, Bool.eq_iff_iff]
    exact hiff'.symm

end Tree

end ParamStore
