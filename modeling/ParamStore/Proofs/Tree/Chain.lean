import ParamStore.Proofs.Tree.Algebra

/-!
# Chains — placing a tree under a path is merging the path with the tree at its end

A chain is a tree that holds nothing but a way of sub-trees, one below the other, with a given tree at
    the end. Merging a chain at the root goes down the same way as placing the tree under the
    path: the check of the chain visits the names of the way one by one and stops where the way
    is not there yet, and the overlay opens what is missing. So the two agree, in what they
    accept, in what they make and in the kind of what they object to. They part only at a value
    in the place of the tree, which a placement may replace and a merge may not.

* **`chain`** — the tree of a way, with a tree at its end.
* **`valueAt?_chain`**, **`isSome_nodeAt?_chain`** — its views.
* **`checkMerge_chain`** — the check of a chain asks whether the way is free, and then its end.
* **`within_state_eq_overlay`** — a change at the end of a way is an overlay of a chain.
* **`merge_under_path`** — what placing a tree under a path comes to.
-/

namespace ParamStore

-- ── Kinds of refusals ─────────────────────────────────────────────────────────────

/-- Two causes are of one kind if the same constructor makes them, whatever texts they show. -/
def Error.SameKind (e e' : Error) : Prop := e.ctorIdx = e'.ctorIdx

/-- Two answers agree if both are successes, or both refusals of one kind. -/
inductive Alike : Except Error Unit → Except Error Unit → Prop
  | ok : Alike (.ok ()) (.ok ())
  | error {e e' : Error} (h : e.SameKind e') : Alike (.error e) (.error e')

namespace Alike

theorem refl (r : Except Error Unit) : Alike r r := by
  cases r with
  | ok _ => exact .ok
  | error e => exact .error rfl

theorem symm {r r' : Except Error Unit} (h : Alike r r') : Alike r' r := by
  cases h with
  | ok => exact .ok
  | error h => exact .error h.symm

theorem trans {r r' r'' : Except Error Unit} (h : Alike r r') (h' : Alike r' r'') :
    Alike r r'' := by
  cases h with
  | ok => exact h'
  | error h =>
      cases h' with
      | error h' => exact .error (h.trans h')

theorem ok_iff {r r' : Except Error Unit} (h : Alike r r') : r = .ok () ↔ r' = .ok () := by
  cases h with
  | ok => exact Iff.rfl
  | error h => constructor <;> intro hr <;> cases hr

/-- Answers that agree are followed by answers that agree. -/
theorem andThen {r r' s s' : Except Error Unit} : Alike r r' → Alike s s' →
    Alike (match r with | .error e => .error e | .ok _ => s)
      (match r' with | .error e => .error e | .ok _ => s') := by
  intro h hs
  cases h with
  | ok => exact hs
  | error h => exact .error h

end Alike

namespace Tree

-- ── The path that a check shows ───────────────────────────────────────────────────

section Check

variable {overwrite : Bool}

theorem checkValues_alike (path path' : String) (a : Tree) (vs : List (String × String)) :
    Alike (checkValues overwrite path a vs) (checkValues overwrite path' a vs) := by
  induction vs with
  | nil => exact .ok
  | cons entry rest ih =>
      rw [checkValues, checkValues]
      split
      · exact .error rfl
      · split
        · exact .error rfl
        · exact ih

mutual

/-- **Where a tree is said to be makes no difference to what is objected to.** -/
theorem checkMerge_alike (path path' : String) (a : Tree) : (b : Tree) →
    Alike (checkMerge overwrite path a b) (checkMerge overwrite path' a b)
  | node vs ss => by
      rw [checkMerge, checkMerge]
      exact (checkValues_alike path path' a vs).andThen (checkSubs_alike path path' a ss)

theorem checkSubs_alike (path path' : String) (a : Tree) : (ss : List (String × Tree)) →
    Alike (checkSubs overwrite path a ss) (checkSubs overwrite path' a ss)
  | [] => .ok
  | (name, theirs) :: rest => by
      rw [checkSubs, checkSubs]
      split
      · exact .error rfl
      · split
        · exact checkSubs_alike path path' a rest
        · next own _ =>
            exact (checkMerge_alike _ _ own theirs).andThen (checkSubs_alike path path' a rest)

end

theorem checkMerge_empty {b : Tree} (hb : b.WellFormed) (path : String) :
    checkMerge overwrite path empty b = .ok () :=
  (checkMerge_eq_ok_iff hb).mpr (fits_empty overwrite b)

end Check

-- ── Chains ────────────────────────────────────────────────────────────────────────

/-- Nothing but a way of sub-trees, one below the other, with a tree at its end. -/
def chain : List String → Tree → Tree
  | [], t => t
  | name :: rest, t => node [] [(name, chain rest t)]

theorem chain_append (front rest : List String) (t : Tree) :
    chain (front ++ rest) t = chain front (chain rest t) := by
  induction front with
  | nil => rfl
  | cons name front ih => rw [List.cons_append, chain, chain, ih]

/-- A chain of names with a well-formed tree at its end is well-formed. -/
theorem chain_wellFormed {parts : List String} (hparts : ∀ p ∈ parts, Path.IsName p) {t : Tree}
    (ht : t.WellFormed) : (chain parts t).WellFormed := by
  induction parts with
  | nil => exact ht
  | cons name rest ih =>
      have hrest := ih fun p hp => hparts p (List.mem_cons_of_mem _ hp)
      have hempty : name ∉ empty.values.names := List.not_mem_nil
      exact wellFormed_empty.insertSub (hparts name List.mem_cons_self) hempty hrest

/-- At the end of a chain is its tree. -/
theorem nodeAt?_chain (way : List String) (last : Tree) :
    (chain way last).nodeAt? way = some last := by
  induction way with
  | nil => rfl
  | cons name way ih =>
      rw [chain, nodeAt?_cons, subs_node, KeyMap.find?, if_pos rfl]
      exact ih

/-- **The values of a chain** are those of the tree at its end. -/
theorem valueAt?_chain {parts place : List String} {t : Tree} {key value : String} :
    (chain parts t).valueAt? place key = some value ↔
      ∃ rest, place = parts ++ rest ∧ t.valueAt? rest key = some value := by
  induction parts generalizing place with
  | nil => simp [chain]
  | cons p parts ih =>
      cases place with
      | nil => simp [chain, KeyMap.find?]
      | cons q place =>
          rw [valueAt?_cons, chain, subs_node, KeyMap.find?]
          by_cases hq : q = p
          · rw [if_pos hq, Option.bind_some, ih]
            simp [hq]
          · simp [hq, KeyMap.find?]

/-- **The sub-trees of a chain** are those on its way and those of the tree at its end. -/
theorem isSome_nodeAt?_chain {parts path : List String} {t : Tree} :
    ((chain parts t).nodeAt? path).isSome = true ↔
      path <+: parts ∨ ∃ rest, path = parts ++ rest ∧ (t.nodeAt? rest).isSome = true := by
  induction parts generalizing path with
  | nil =>
      cases path with
      | nil => simp [chain]
      | cons q path => simp [chain]
  | cons p parts ih =>
      cases path with
      | nil => simp
      | cons q path =>
          rw [nodeAt?_cons, chain, subs_node, KeyMap.find?, List.cons_prefix_cons]
          by_cases hq : q = p
          · rw [if_pos hq, Option.bind_some, ih]
            simp [hq]
          · simp [hq, KeyMap.find?]

section Chain

variable {overwrite : Bool} {x : Tree}

/-- **The check of a chain** asks whether the way is free, and then what the end of the way has to
    say; where the way is not there yet, the end is empty. -/
theorem checkMerge_chain (hx : x.WellFormed) (path path' : String) (parts : List String)
    (t : Tree) : Alike (checkMerge overwrite path t (chain parts x))
      (if blocked parts t then .error (.pathConflict path')
        else checkMerge overwrite path' ((t.nodeAt? parts).getD empty) x) := by
  induction parts generalizing t path with
  | nil => exact checkMerge_alike path path' t x
  | cons name rest ih =>
      rw [nodeAt?_getD_cons, chain, checkMerge, checkValues, checkSubs, checkSubs, blocked]
      dsimp only
      cases t.values.contains name with
      | true => exact .error rfl
      | false =>
          rw [if_neg Bool.false_ne_true, Bool.false_or]
          cases t.subs.find? name with
          | none =>
              -- the check stops here; below an empty sub-tree, the right side finds nothing either
              rw [Option.getD_none, blocked_empty, nodeAt?_empty_getD, checkMerge_empty hx]
              exact .ok
          | some own =>
              dsimp only [Option.getD_some]
              refine Alike.trans ?_ (ih (Path.join path name) own)
              cases checkMerge overwrite (Path.join path name) own (chain rest x) with
              | error e => exact .error rfl
              | ok _ => exact .ok

theorem overlay_chain_cons (name : String) (rest : List String) (t : Tree) :
    t.overlay (chain (name :: rest) x) = t.withSubs
      (t.subs.insert name (((t.subs.find? name).getD empty).overlay (chain rest x))) := by
  rw [chain, overlay, overlaySubs, overlaySubs]
  rfl

/-- **A change at the end of a free way is an overlay of a chain**, if at the end it is an overlay
    of what the chain ends in. -/
theorem within_state_eq_overlay {α : Type} {full : String} {act : Tree → Attempt Tree α}
    {parts : List String} {t : Tree} (h : blocked parts t = false)
    (hact : (act ((t.nodeAt? parts).getD empty)).state
      = ((t.nodeAt? parts).getD empty).overlay x) :
    (within full act parts t).state = t.overlay (chain parts x) := by
  induction parts generalizing t with
  | nil => exact hact
  | cons name rest ih =>
      obtain ⟨hfree, hrest⟩ := Bool.or_eq_false_iff.mp h
      rw [nodeAt?_getD_cons] at hact
      rw [within, if_neg (by rw [hfree]; exact Bool.false_ne_true), overlay_chain_cons]
      dsimp only
      rw [ih hrest hact]

end Chain

-- ── Placing ───────────────────────────────────────────────────────────────────────

section Placing

variable {t theirs : Tree} {under full name : String} {parents : List String} {overwrite : Bool}

/-- A merge under a path looks before it places. -/
theorem merge_under_eq (h : Path.segments? under = some (parents ++ [name])) :
    t.merge theirs under overwrite =
      match checkPlacement overwrite under theirs name parents t with
      | .error e => .refuse e t
      | .ok _ => within under (place theirs name) parents t := by
  have hsplit := Path.splitLast_eq_ok_iff.mpr h
  rw [merge, if_neg (Path.trim_ne_empty_of_segments? h)]
  cases hcheck : checkPlacement overwrite under theirs name parents t with
  | error e => simp only [hsplit, hcheck]
  | ok _ => simp only [hsplit, hcheck]

/-- A merge under a path answers what the check says: once that has passed, nothing refuses. -/
theorem merge_under_result (htheirs : theirs.WellFormed)
    (h : Path.segments? under = some (parents ++ [name])) :
    (t.merge theirs under overwrite).result
      = checkPlacement overwrite under theirs name parents t := by
  rw [merge_under_eq h]
  cases hcheck : checkPlacement overwrite under theirs name parents t with
  | error e => rfl
  | ok _ =>
      obtain ⟨hfree, -⟩ := (checkPlacement_eq_ok_iff htheirs parents t).mp hcheck
      dsimp only
      rw [within_result, hfree, place_result]
      rfl

/-- A level without a value of this name is checked as for a chain of the name alone. -/
theorem checkPlacement_nil_alike (htheirs : theirs.WellFormed) {level : Tree}
    (hfree : name ∉ level.values.names) :
    Alike (checkPlacement overwrite full theirs name [] level)
      (checkMerge overwrite full level (chain [name] theirs)) := by
  have hcontains : level.values.contains name = false :=
    Bool.eq_false_iff.mpr fun h => hfree (KeyMap.contains_iff.mp h)
  -- both ask for a sub-tree of this name and, if there is one, what it objects to
  refine Alike.trans ?_ (checkMerge_chain htheirs full full [name] level).symm
  rw [checkPlacement, blocked, blocked, nodeAt?_cons, hcontains]
  cases level.subs.find? name with
  | some own => exact .refl _
  | none =>
      rw [Option.bind_none, Option.getD_none, checkMerge_empty htheirs]
      exact .ok

/-- **Where no value is in the place of the tree, a placement is checked as the chain is.** -/
theorem checkPlacement_alike (htheirs : theirs.WellFormed) (hname : Path.IsName name)
    (hfree : name ∉ ((t.nodeAt? parents).getD empty).values.names) :
    Alike (checkPlacement overwrite full theirs name parents t)
      (checkMerge overwrite "" t (chain (parents ++ [name]) theirs)) := by
  have hlast : (chain [name] theirs).WellFormed :=
    chain_wellFormed (fun p hp => List.mem_singleton.mp hp ▸ hname) htheirs
  rw [chain_append, checkPlacement_eq]
  refine Alike.trans ?_ (checkMerge_chain hlast "" full parents t).symm
  split
  · exact .refl _
  · exact checkPlacement_nil_alike htheirs hfree

/-- Placing a tree where no value is lays a chain of its name over the level. -/
theorem place_state_eq_overlay {level : Tree} (hfree : name ∉ level.values.names) :
    (place theirs name level).state = level.overlay (chain [name] theirs) := by
  rw [overlay_chain_cons, chain, place]
  dsimp only [Attempt.pure]
  rw [KeyMap.erase_of_not_mem hfree]
  rfl

end Placing

-- ── Placing under a path ──────────────────────────────────────────────────────────

theorem merge_root_result (a b : Tree) (overwrite : Bool) :
    (a.merge b "" overwrite).result = checkMerge overwrite "" a b := by
  rw [merge_root_eq]
  cases checkMerge overwrite "" a b <;> rfl

/-- The values at the end of a way are those at its places. -/
theorem find?_values_endOf (parents : List String) (name : String) (t : Tree) :
    ((t.nodeAt? parents).getD empty).values.find? name = t.valueAt? parents name := by
  rw [valueAt?]
  cases t.nodeAt? parents <;> rfl

/-- The sub-trees at the end of a way are those at its places. -/
theorem find?_subs_endOf (parents : List String) (name : String) (t : Tree) :
    ((t.nodeAt? parents).getD empty).subs.find? name = t.nodeAt? (parents ++ [name]) := by
  rw [nodeAt?_append]
  cases t.nodeAt? parents with
  | none => rfl
  | some level =>
      rw [Option.getD_some, Option.bind_some, nodeAt?_cons]
      cases level.subs.find? name <;> rfl

section Under

variable {t theirs : Tree} {under name : String} {parents : List String}

/-- A tree that is placed where no value is has been laid over as a chain. -/
theorem merge_under_state {overwrite : Bool} (htheirs : theirs.WellFormed)
    (hunder : Path.segments? under = some (parents ++ [name]))
    (hlevel : name ∉ ((t.nodeAt? parents).getD empty).values.names)
    (h : (t.merge theirs under overwrite).result = .ok ()) :
    (t.merge theirs under overwrite).state = t.overlay (chain (parents ++ [name]) theirs) := by
  rw [merge_under_result htheirs hunder] at h
  obtain ⟨hway, -⟩ := (checkPlacement_eq_ok_iff htheirs parents t).mp h
  rw [merge_under_eq hunder, h, chain_append]
  exact within_state_eq_overlay hway (place_state_eq_overlay hlevel)

/-- **Without a value at the path, placing a tree is merging the chain of the path at the root.** -/
theorem merge_under_free (htheirs : theirs.WellFormed)
    (hunder : Path.segments? under = some (parents ++ [name]))
    (hfree : t.valueAt? parents name = none) (overwrite : Bool) :
    Alike (t.merge theirs under overwrite).result
        (t.merge (chain (parents ++ [name]) theirs) "" overwrite).result
      ∧ (t.merge theirs under overwrite).state
        = (t.merge (chain (parents ++ [name]) theirs) "" overwrite).state := by
  have hnames := Path.isName_of_segments? hunder
  have hlevel : name ∉ ((t.nodeAt? parents).getD empty).values.names := by
    rw [← KeyMap.find?_eq_none_iff, find?_values_endOf, hfree]
  have halike : Alike (t.merge theirs under overwrite).result
      (t.merge (chain (parents ++ [name]) theirs) "" overwrite).result := by
    rw [merge_under_result htheirs hunder, merge_root_result]
    exact checkPlacement_alike htheirs (hnames name (by simp)) hlevel
  refine ⟨halike, ?_⟩
  by_cases hok : (t.merge theirs under overwrite).result = .ok ()
  · have hroot := Attempt.succeeds_iff.mpr (halike.ok_iff.mp hok)
    rw [merge_under_state htheirs hunder hlevel hok, merge_root_state hroot]
  · -- refused on both sides, so nothing has changed on either
    have hroot := fun h => hok (halike.ok_iff.mpr h)
    obtain ⟨e, he⟩ := Attempt.exists_error hok
    obtain ⟨e', he'⟩ := Attempt.exists_error hroot
    rw [merge_state_of_error htheirs he,
      merge_state_of_error (chain_wellFormed hnames htheirs) he']

/-- A value at the path is in the way of a tree unless it may be replaced. -/
theorem merge_under_value_refused (ht : t.WellFormed) (htheirs : theirs.WellFormed)
    (hunder : Path.segments? under = some (parents ++ [name])) {value : String}
    (hvalue : t.valueAt? parents name = some value) :
    (t.merge theirs under false).result = .error (.duplicateKey under) := by
  obtain ⟨level, hlevel, hname⟩ := Option.bind_eq_some_iff.mp hvalue
  rw [merge_under_result htheirs hunder, checkPlacement_eq, ht.blocked_of_nodeAt? hlevel, hlevel,
    Option.getD_some, checkPlacement, KeyMap.contains, hname]
  rfl

section Replaced

variable {level : Tree} {value full : String} (ht : t.WellFormed) (htheirs : theirs.WellFormed)
  (hunder : Path.segments? under = some (parents ++ [name]))
  (hlevel : t.nodeAt? parents = some level) (hname : level.values.find? name = some value)

include ht hlevel hname

theorem subs_find?_eq_none_of_value : level.subs.find? name = none :=
  KeyMap.find?_eq_none_iff.mpr
    ((ht.nodeAt hlevel).level.disjoint name (KeyMap.mem_names_of_find? hname))

theorem merge_under_value_check :
    checkPlacement true full theirs name parents t = .ok () := by
  have hnosub := subs_find?_eq_none_of_value ht hlevel hname
  rw [checkPlacement_eq, ht.blocked_of_nodeAt? hlevel, hlevel, Option.getD_some, checkPlacement,
    hnosub]
  simp

include htheirs hunder

/-- The level of a value that gave way to a tree: the value is gone, the tree is there. -/
theorem nodeAt?_merge_under_value (rest : List String) :
    (t.merge theirs under true).state.nodeAt? (parents ++ rest)
      = (node (level.values.erase name) (level.subs.insert name theirs)).nodeAt? rest := by
  have hnosub := subs_find?_eq_none_of_value ht hlevel hname
  rw [merge_under_eq hunder, merge_under_value_check ht hlevel hname]
  dsimp only
  rw [nodeAt?_within (ht.blocked_of_nodeAt? hlevel), hlevel, Option.getD_some, place, hnosub,
    Option.getD_none, empty_overlay htheirs]
  rfl

/-- Off the path of a value that gave way to a tree, every value stays. -/
theorem valueAt?_merge_under_value {place : List String} {key : String}
    (houtside : ¬ (parents ++ [name]) <+: (place ++ [key])) :
    (t.merge theirs under true).state.valueAt? place key = t.valueAt? place key := by
  by_cases hplace : parents <+: place
  · -- the key is at the level of the path or below one of its other names
    obtain ⟨rest, rfl⟩ := hplace
    rw [valueAt?_below hlevel, valueAt?, nodeAt?_merge_under_value ht htheirs hunder hlevel hname]
    cases rest with
    | nil =>
        have hne : key ≠ name := by
          rintro rfl
          exact houtside (by simp)
        rw [nodeAt?_nil, Option.bind_some, values_node, KeyMap.find?_erase, if_neg hne]
        rfl
    | cons p rest =>
        have hne : p ≠ name := by
          rintro rfl
          exact houtside ⟨rest ++ [key], by simp⟩
        rw [nodeAt?_cons, subs_node, KeyMap.find?_insert_other hne, ← nodeAt?_cons]
        rfl
  · rw [merge_under_eq hunder, merge_under_value_check ht hlevel hname]
    exact valueAt?_within_of_not_prefix hplace key

/-- **A value at the path gives way to a tree if that is allowed**: the tree is all that is at the path
    then, and nothing changes off it. -/
theorem merge_under_value_replaced :
    (t.merge theirs under true).result = .ok ()
      ∧ (t.merge theirs under true).state.valueAt? parents name = none
      ∧ (t.merge theirs under true).state.nodeAt? (parents ++ [name]) = some theirs
      ∧ ∀ place key, ¬ (parents ++ [name]) <+: (place ++ [key]) →
        (t.merge theirs under true).state.valueAt? place key = t.valueAt? place key := by
  have hbelow := nodeAt?_merge_under_value ht htheirs hunder hlevel hname
  refine ⟨?_, ?_, ?_, fun place key => valueAt?_merge_under_value ht htheirs hunder hlevel hname⟩
  · rw [merge_under_result htheirs hunder]
    exact merge_under_value_check ht hlevel hname
  · have hat := hbelow []
    rw [List.append_nil] at hat
    rw [valueAt?, hat, nodeAt?_nil, Option.bind_some, values_node, KeyMap.find?_erase, if_pos rfl]
  · rw [hbelow, nodeAt?_cons, subs_node, KeyMap.find?_insert_self]
    rfl

end Replaced

end Under

/-- **Placing a tree under a path.** If the path is no key, it is the same as merging the chain of the
    path at the root: both are accepted with equal trees, or both refused for the same kind of
    cause. If the path is a key, the tree is refused for it, or, with leave, takes its place
    and leaves every key off the path as it is. -/
theorem merge_under_path {t theirs : Tree} (ht : t.Reachable) (htheirs : theirs.Reachable)
    {under : String} {parts : List String} (hunder : Path.segments? under = some parts) :
    (t.hasKey under = false → ∀ overwrite,
      Alike (t.merge theirs under overwrite).result
          (t.merge (chain parts theirs) "" overwrite).result
        ∧ (t.merge theirs under overwrite).state
          = (t.merge (chain parts theirs) "" overwrite).state)
    ∧ (t.hasKey under = true →
      (t.merge theirs under false).result = .error (.duplicateKey under)
        ∧ (t.merge theirs under true).result = .ok ()
        ∧ (t.merge theirs under true).state.hasKey under = false
        ∧ (t.merge theirs under true).state.findSub? under = some theirs
        ∧ ∀ key, (∀ segments, Path.segments? key = some segments → ¬ parts <+: segments) →
          (t.merge theirs under true).state.get? key = t.get? key) := by
  obtain ⟨parents, name, rfl⟩ : ∃ parents name, parts = parents ++ [name] := by
    rcases segments?_cases under with hnone | ⟨parents, name, hsome⟩
    · exact absurd (hunder.symm.trans hnone) (Option.some_ne_none parts)
    · exact ⟨parents, name, Option.some.inj (hunder.symm.trans hsome)⟩
  have wt := ht.wellFormed
  have wtheirs := htheirs.wellFormed
  constructor
  · intro hkey
    rw [hasKey_eq hunder, Option.isSome_eq_false_iff, Option.isNone_iff_eq_none] at hkey
    exact merge_under_free wtheirs hunder hkey
  · intro hkey
    rw [hasKey_eq hunder] at hkey
    obtain ⟨value, hvalue⟩ := Option.isSome_iff_exists.mp hkey
    obtain ⟨level, hlevel, hname⟩ := Option.bind_eq_some_iff.mp hvalue
    obtain ⟨hok, hgone, hplaced, hkept⟩ :=
      merge_under_value_replaced wt wtheirs hunder hlevel hname
    refine ⟨merge_under_value_refused wt wtheirs hunder hvalue, hok, ?_, ?_, fun key hkey' => ?_⟩
    · rw [hasKey_eq hunder, hgone]
      rfl
    · rw [findSub?_eq hunder, hplaced]
    · rcases segments?_cases key with hnone | ⟨place, last, hsome⟩
      · rw [get?_eq_none hnone, get?_eq_none hnone]
      · rw [get?_eq hsome, get?_eq hsome, hkept place last (hkey' _ hsome)]

/-- A tree beside a value, below a value, and in the place of a value. -/
theorem merge_under_path_deep :
    let t := ((empty.set "s.k" "1" false).state.set "v" "2" false).state
    let theirs := (empty.set "x" "3" false).state
    t.Reachable ∧ theirs.Reachable
      ∧ Path.segments? " s . t " = some ["s", "t"] ∧ t.hasKey " s . t " = false
      ∧ (t.merge theirs " s . t " false).state = (t.merge (chain ["s", "t"] theirs) "" false).state
      ∧ (t.merge theirs " s . t " false).state.get? "s.t.x" = some "3"
      ∧ Path.segments? "s.k.x" = some ["s", "k", "x"] ∧ t.hasKey "s.k.x" = false
      ∧ Alike (t.merge theirs "s.k.x" true).result
        (t.merge (chain ["s", "k", "x"] theirs) "" true).result
      ∧ (t.merge theirs "s.k.x" true).result = .error (.pathConflict "s.k.x")
      ∧ Path.segments? "s.k" = some ["s", "k"] ∧ t.hasKey "s.k" = true
      ∧ (t.merge theirs "s.k" true).state.findSub? "s.k" = some theirs
      ∧ (t.merge theirs "s.k" true).state.get? "v" = t.get? "v" := by
  intro t theirs
  have ht : t.Reachable := .set (.set .empty "s.k" "1" false) "v" "2" false
  have htheirs : theirs.Reachable := .set .empty "x" "3" false
  have hbeside : Path.segments? " s . t " = some ["s", "t"] := by decide +kernel
  have hbelow : Path.segments? "s.k.x" = some ["s", "k", "x"] := by decide +kernel
  have hat : Path.segments? "s.k" = some ["s", "k"] := by decide +kernel
  have hfree : t.hasKey " s . t " = false := by decide +kernel
  have hfree' : t.hasKey "s.k.x" = false := by decide +kernel
  have hkey : t.hasKey "s.k" = true := by decide +kernel
  obtain ⟨-, hstate⟩ := (merge_under_path ht htheirs hbeside).1 hfree false
  obtain ⟨halike, -⟩ := (merge_under_path ht htheirs hbelow).1 hfree' true
  obtain ⟨-, -, -, hplaced, hkept⟩ := (merge_under_path ht htheirs hat).2 hkey
  refine ⟨ht, htheirs, hbeside, hfree, hstate, ?_, hbelow, hfree', halike, by rfl, hat, hkey,
    hplaced, hkept "v" ?_⟩
  · rw [hstate]
    decide +kernel
  · intro segments hsegments
    obtain rfl : ["v"] = segments :=
      Option.some.inj ((by decide +kernel : Path.segments? "v" = some ["v"]).symm.trans hsegments)
    decide

end Tree

end ParamStore
