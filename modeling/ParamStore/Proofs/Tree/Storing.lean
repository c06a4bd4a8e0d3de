import ParamStore.Proofs.Tree.Gather

/-!
# Storing a value — for which cause it is refused, and what it changes, in terms of paths

A key can be refused for three causes: it names no place, its place is obstructed, or it has a value
    that may not be replaced. A place is obstructed by a sub-tree that is there, or by a value in
    the place of one of its parents, at whatever distance; this is all that the way through the
    tree can meet. The causes are looked at in this order, and each is the answer with the key as
    it was given.

A value that is stored is the tree of its pair laid over what was there. So it is found under every
    spelling of its key, the only new sub-trees are those above the key, and nothing else changes.

* **`Path.Above`** — a path leads to a parent of another one's place; **`Path.above_iff`** — in terms
  of their segments.
* **`Obstructed`** — the place of a key is taken by something that is not its value.
* **`set_of_obstructed`**, **`set_of_free`** — the answer on a key that names a place.
* **`get?_set`**, **`hasSub_set`** — the keys and the sub-trees after a value is stored.
* **`set_outcome`** — the answer and the change together.
* **`setAll_true_error`** — what a run of values that may replace others can be refused for.
-/

namespace ParamStore

/-- The first path leads to a parent of the place of the second one, at whatever distance. -/
def Path.Above (parent key : String) : Prop :=
  ∃ parts rest, rest ≠ [] ∧ segments? parent = some parts ∧ segments? key = some (parts ++ rest)

namespace Path

variable {parent key name : String} {parts parents : List String}

/-- A path is above a key exactly if its segments begin the way to the key's name. -/
theorem above_iff (hparent : segments? parent = some parts)
    (hkey : segments? key = some (parents ++ [name])) : Above parent key ↔ parts <+: parents := by
  constructor
  · rintro ⟨ps, rest, hrest, hps, hplace⟩
    obtain rfl := Option.some.inj (hps.symm.trans hparent)
    -- what is left of the key below the parent ends in the last segment of the key
    rcases List.eq_nil_or_concat rest with rfl | ⟨more, last, rfl⟩
    · exact absurd rfl hrest
    · rw [hkey, List.concat_eq_append, ← List.append_assoc] at hplace
      obtain ⟨rfl, -⟩ := List.append_inj' (Option.some.inj hplace) rfl
      exact List.prefix_append ps more
  · rintro ⟨more, rfl⟩
    exact ⟨parts, more ++ [name], by simp, hparent, by rw [hkey, List.append_assoc]⟩

/-- Both a path and what it is above name places. -/
theorem Above.named (h : Above parent key) : segments? parent ≠ none ∧ segments? key ≠ none := by
  obtain ⟨parts, rest, -, hparent, hkey⟩ := h
  rw [hparent, hkey]
  exact ⟨Option.some_ne_none _, Option.some_ne_none _⟩

/-- The segments of what is above a key begin those of the key. -/
theorem Above.isPrefix {place : List String} (h : Above parent key)
    (hparent : segments? parent = some parts) (hkey : segments? key = some place) :
    parts <+: place := by
  obtain ⟨ps, rest, -, hps, hplace⟩ := h
  obtain rfl := Option.some.inj (hps.symm.trans hparent)
  exact ⟨rest, Option.some.inj (hplace.symm.trans hkey)⟩

/-- What is above a key is its place, however it is spelled. -/
theorem Above.congr_left {parent' : String} (h : Above parent key)
    (hsame : segments? parent = segments? parent') : Above parent' key := by
  obtain ⟨parts, rest, hrest, hparent, hkey⟩ := h
  exact ⟨parts, rest, hrest, hsame ▸ hparent, hkey⟩

/-- No path is above itself. -/
theorem not_above_self (key : String) : ¬ Above key key := by
  rintro ⟨parts, rest, hrest, hkey, hkey'⟩
  have heq : parts ++ rest = parts := Option.some.inj (hkey'.symm.trans hkey)
  exact hrest (List.append_right_eq_self.mp heq)

instance (parent key : String) : Decidable (Above parent key) :=
  match hparent : segments? parent, hkey : splitLast key with
  | some _, .ok (_, _) => decidable_of_iff _ (above_iff hparent (splitLast_eq_ok_iff.mp hkey)).symm
  | none, _ => isFalse fun h => h.named.1 hparent
  | some _, .error _ => isFalse fun h => h.named.2 (splitLast_eq_error_iff.mp hkey).1

end Path

namespace Tree

/-- The place of the key is a sub-tree, or one of its parents is a value. -/
def Obstructed (t : Tree) (key : String) : Prop :=
  t.hasSub key = true ∨ ∃ parent, Path.Above parent key ∧ t.hasKey parent = true

-- ── Obstructions ──────────────────────────────────────────────────────────────────

/-- A way is blocked by a value in the place of some part of it. -/
theorem blocked_iff {parents : List String} {t : Tree} :
    blocked parents t = true ↔
      ∃ front name, front ++ [name] <+: parents ∧ (t.valueAt? front name).isSome = true := by
  induction parents generalizing t with
  | nil => simp [blocked]
  | cons p parents ih =>
      rw [blocked, Bool.or_eq_true, ih]
      constructor
      · rintro (hvalue | ⟨front, name, hprefix, hvalue⟩)
        · exact ⟨[], p, by simp, hvalue⟩
        · refine ⟨p :: front, name, List.cons_prefix_cons.mpr ⟨rfl, hprefix⟩, ?_⟩
          rw [valueAt?_cons]
          cases hsub : t.subs.find? p with
          | some sub =>
              rw [hsub] at hvalue
              exact hvalue
          | none =>
              rw [hsub, Option.getD_none, valueAt?_empty] at hvalue
              cases hvalue
      · rintro ⟨front, name, hprefix, hvalue⟩
        cases front with
        | nil =>
            obtain ⟨rfl, -⟩ := List.cons_prefix_cons.mp hprefix
            exact Or.inl hvalue
        | cons q front =>
            obtain ⟨rfl, hrest⟩ := List.cons_prefix_cons.mp hprefix
            rw [valueAt?_cons] at hvalue
            obtain ⟨sub, hsub⟩ := Option.isSome_iff_exists.mp (Option.isSome_of_isSome_bind hvalue)
            refine Or.inr ⟨front, name, hrest, ?_⟩
            rw [hsub] at hvalue ⊢
            exact hvalue

section Place

variable {t : Tree} {key name value : String} {parents : List String} {overwrite : Bool}

/-- **The way to a key is blocked exactly if a path above the key has a value.** -/
theorem blocked_iff_above (hkey : Path.segments? key = some (parents ++ [name])) :
    blocked parents t = true ↔ ∃ parent, Path.Above parent key ∧ t.hasKey parent = true := by
  rw [blocked_iff]
  constructor
  · rintro ⟨front, n, hway, hvalue⟩
    have hnames : ∀ p ∈ front ++ [n], Path.IsName p := fun p hp =>
      Path.isName_of_segments? hkey p (List.mem_append_left _ (hway.subset hp))
    have hfront := segments?_text_concat hnames
    refine ⟨Path.text (front ++ [n]), (Path.above_iff hfront hkey).mpr hway, ?_⟩
    rw [hasKey_eq hfront]
    exact hvalue
  · rintro ⟨parent, habove, hvalue⟩
    obtain ⟨front, n, hfront⟩ := segments?_of_hasKey hvalue
    refine ⟨front, n, (Path.above_iff hfront hkey).mp habove, ?_⟩
    rw [← hasKey_eq hfront]
    exact hvalue

/-- An obstruction is a sub-tree at the place or a value on the way. -/
theorem obstructed_iff (hkey : Path.segments? key = some (parents ++ [name])) :
    t.Obstructed key ↔ (t.nodeAt? (parents ++ [name])).isSome = true ∨ blocked parents t = true := by
  rw [Obstructed, hasSub_eq hkey, blocked_iff_above hkey]

/-- What names no place is not obstructed. -/
theorem not_obstructed_of_unnamed (h : Path.segments? key = none) : ¬ t.Obstructed key := by
  rintro (hsub | ⟨parent, ⟨parts, rest, -, -, habove⟩, -⟩)
  · rw [hasSub, findSub?_eq_none h] at hsub
    cases hsub
  · rw [h] at habove
    cases habove

instance (t : Tree) (key : String) : Decidable (t.Obstructed key) :=
  match h : Path.splitLast key with
  | .ok (_, _) => decidable_of_iff _ (obstructed_iff (Path.splitLast_eq_ok_iff.mp h)).symm
  | .error _ => isFalse (not_obstructed_of_unnamed (Path.splitLast_eq_error_iff.mp h).1)

-- ── Answers ───────────────────────────────────────────────────────────────────────

/-- A key that names no place is refused, with the key as it was given. -/
theorem set_of_unnamed (h : Path.segments? key = none) :
    t.set key value overwrite = .refuse (.invalidKey key) t := by
  rw [set, Path.splitLast_eq_error_iff.mpr ⟨h, rfl⟩]

/-- The answer on a key that names a place, from the way to it and from its end. -/
theorem set_result (hkey : Path.segments? key = some (parents ++ [name])) :
    (t.set key value overwrite).result
      = if blocked parents t then .error (.pathConflict key)
        else if (t.nodeAt? (parents ++ [name])).isSome then .error (.pathConflict key)
        else if t.hasKey key && !overwrite then .error (.duplicateKey key)
        else .ok () := by
  rw [set, Path.splitLast_eq_ok_iff.mpr hkey]
  dsimp only
  rw [within_result, setLocal, KeyMap.contains, KeyMap.contains, find?_subs_endOf,
    find?_values_endOf, hasKey_eq hkey]
  split_ifs <;> rfl

/-- **A key whose place is obstructed is refused as a conflict of paths.** -/
theorem set_of_obstructed (hkey : Path.segments? key ≠ none) (h : t.Obstructed key) :
    (t.set key value overwrite).result = .error (.pathConflict key) := by
  obtain ⟨parents, name, hsome⟩ := (segments?_cases key).resolve_left hkey
  rw [set_result hsome]
  rcases (obstructed_iff hsome).mp h with hsub | hblocked
  · rw [hsub, if_pos rfl, ite_self]
  · rw [if_pos hblocked]

/-- **A key whose place is free is stored**, unless it has a value that may not be replaced. -/
theorem set_of_free (hkey : Path.segments? key ≠ none) (h : ¬ t.Obstructed key) :
    (t.set key value overwrite).result
      = if t.hasKey key && !overwrite then .error (.duplicateKey key) else .ok () := by
  obtain ⟨parents, name, hsome⟩ := (segments?_cases key).resolve_left hkey
  obtain ⟨hsub, hblocked⟩ := not_or.mp (mt (obstructed_iff hsome).mpr h)
  rw [set_result hsome, if_neg hblocked, if_neg hsub]

/-- A key is stored without leave to replace a value exactly if it names a place that nothing is
    in or in the way of. -/
theorem set_false_succeeds_iff : (t.set key value false).succeeds = true ↔
    Path.segments? key ≠ none ∧ ¬ t.Obstructed key ∧ t.hasKey key = false := by
  rw [Attempt.succeeds_iff]
  by_cases hkey : Path.segments? key = none
  · rw [set_of_unnamed hkey]
    simp [Attempt.refuse, hkey]
  · by_cases h : t.Obstructed key
    · simp [set_of_obstructed hkey h, h]
    · rw [set_of_free hkey h]
      cases t.hasKey key <;> simp [hkey, h]

/-- With leave to replace values, a refusal is a conflict of paths, unless the key names no place. -/
theorem set_true_error (hkey : Path.segments? key ≠ none) {e : Error}
    (h : (t.set key value true).result = .error e) : e = .pathConflict key := by
  by_cases hfree : t.Obstructed key
  · rw [set_of_obstructed hkey hfree] at h
    exact (Except.error.inj h).symm
  · rw [set_of_free hkey hfree, Bool.not_true, Bool.and_false, if_neg Bool.false_ne_true] at h
    cases h

end Place

-- ── The tree of one pair ──────────────────────────────────────────────────────────

section Pair

variable {pair : String × String} (hnamed : Path.segments? pair.1 ≠ none)

include hnamed

/-- The tree of a pair has the value under the keys of its place. -/
theorem get?_ofPair (key : String) : (ofPair pair).get? key
    = if Path.segments? pair.1 = Path.segments? key then some pair.2 else none := by
  obtain ⟨parents, name, hpair⟩ := (segments?_cases pair.1).resolve_left hnamed
  rw [ofPair_eq hpair, hpair]
  rcases segments?_cases key with hnone | ⟨ps, n, hkey⟩
  · rw [get?_eq_none hnone, hnone, if_neg (Option.some_ne_none _)]
  · rw [get?_eq hkey, valueAt?_single, hkey]
    by_cases h : ps = parents ∧ n = name
    · obtain ⟨rfl, rfl⟩ := h
      rw [if_pos ⟨rfl, rfl⟩, if_pos rfl]
    · have hne : some (parents ++ [name]) ≠ some (ps ++ [n]) := by
        intro heq
        obtain ⟨hps, hn⟩ := List.append_inj' (Option.some.inj heq) rfl
        exact h ⟨hps.symm, (List.singleton_inj.mp hn).symm⟩
      rw [if_neg h, if_neg hne]

theorem hasKey_ofPair (key : String) :
    (ofPair pair).hasKey key = true ↔ Path.segments? pair.1 = Path.segments? key := by
  rw [hasKey, get?_ofPair hnamed]
  by_cases h : Path.segments? pair.1 = Path.segments? key
  · rw [if_pos h]
    exact iff_of_true rfl h
  · rw [if_neg h]
    exact iff_of_false Bool.false_ne_true h

/-- The tree of a pair has sub-trees at the paths above its key. -/
theorem hasSub_ofPair (path : String) :
    (ofPair pair).hasSub path = true ↔ Path.Above path pair.1 := by
  obtain ⟨parents, name, hpair⟩ := (segments?_cases pair.1).resolve_left hnamed
  rcases segments?_cases path with hnone | ⟨ps, n, hpath⟩
  · rw [hasSub, findSub?_eq_none hnone]
    exact iff_of_false Bool.false_ne_true fun habove => habove.named.1 hnone
  · rw [ofPair_eq hpair, hasSub_eq hpath, isSome_nodeAt?_single, Path.above_iff hpath hpair]

end Pair

-- ── What storing a value does ─────────────────────────────────────────────────────

section Outcome

variable {t : Tree} {key value : String} {overwrite : Bool}

/-- The three causes in their order: the key names no place, its place is obstructed, it has a value
    that may not be replaced. -/
theorem set_result_eq : (t.set key value overwrite).result
    = if Path.segments? key = none then .error (.invalidKey key)
      else if t.Obstructed key then .error (.pathConflict key)
      else if t.hasKey key = true ∧ overwrite = false then .error (.duplicateKey key)
      else .ok () := by
  by_cases hkey : Path.segments? key = none
  · rw [if_pos hkey, set_of_unnamed hkey]
    rfl
  · rw [if_neg hkey]
    by_cases h : t.Obstructed key
    · rw [if_pos h, set_of_obstructed hkey h]
    · rw [if_neg h, set_of_free hkey h]
      cases t.hasKey key <;> cases overwrite <;> rfl

variable (h : (t.set key value overwrite).succeeds = true)

include h

/-- A value that is stored has a place, and is laid over the tree. -/
theorem set_stored : Path.segments? key ≠ none
    ∧ (t.set key value overwrite).state = t.overlay (ofPair (key, value)) :=
  ⟨((set_pair_succeeds_iff (key, value) t).mp h).1, @set_pair_state overwrite (key, value) t h⟩

/-- **A stored value is found under every key of its place**, and what is found under other keys does
    not change. -/
theorem get?_set (key' : String) : (t.set key value overwrite).state.get? key'
    = if Path.segments? key = Path.segments? key' then some value else t.get? key' := by
  obtain ⟨hnamed, hstate⟩ := set_stored h
  rw [hstate, get?_overlay (ofPair_wellFormed _), @get?_ofPair (key, value) hnamed]
  by_cases hsame : Path.segments? key = Path.segments? key'
  · rw [if_pos hsame, if_pos hsame, Option.some_or]
  · rw [if_neg hsame, if_neg hsame, Option.none_or]

theorem get?_set_self : (t.set key value overwrite).state.get? key = some value := by
  rw [get?_set h, if_pos rfl]

/-- **The sub-trees after storing a value** are the old ones and those above its key. -/
theorem hasSub_set (path : String) : (t.set key value overwrite).state.hasSub path = true
    ↔ t.hasSub path = true ∨ Path.Above path key := by
  obtain ⟨hnamed, hstate⟩ := set_stored h
  rw [hstate, hasSub_overlay (ofPair_wellFormed _), Bool.or_eq_true,
    @hasSub_ofPair (key, value) hnamed]

end Outcome

/-- **Storing a value, in terms of paths.** A key that names no place is refused as such; else, a
    sub-tree at its place or a value at a path above it is a conflict; else, a value that it has may
    need leave to be replaced; else it is stored. Then the value is found under every key
    of the same place, every other key finds what it found before, and the only new sub-trees are those
    above the key. -/
theorem set_outcome (t : Tree) (key value : String) (overwrite : Bool) :
    ((t.set key value overwrite).result
      = if Path.segments? key = none then .error (.invalidKey key)
        else if t.Obstructed key then .error (.pathConflict key)
        else if t.hasKey key = true ∧ overwrite = false then .error (.duplicateKey key)
        else .ok ())
    ∧ ((t.set key value overwrite).result = .ok () →
      (∀ key', (t.set key value overwrite).state.get? key'
        = if Path.segments? key = Path.segments? key' then some value else t.get? key')
      ∧ ∀ path, (t.set key value overwrite).state.hasSub path = true
        ↔ t.hasSub path = true ∨ Path.Above path key) := by
  refine ⟨set_result_eq, fun hok => ?_⟩
  have h := Attempt.succeeds_iff.mpr hok
  exact ⟨get?_set h, hasSub_set h⟩

/-- Keys that are refused for each cause, one of them for two at once; a value that is replaced under
    another spelling of its key; and a value that opens sub-trees. -/
theorem set_outcome_each :
    let t := ((empty.set "s.k" "1" false).state.merge empty "e" false).state
    (t.set "s..k" "2" true).result = .error (.invalidKey "s..k")
      ∧ (t.set "s.k.x" "2" true).result = .error (.pathConflict "s.k.x")
      ∧ (t.set " e " "2" true).result = .error (.pathConflict " e ")
      ∧ (t.set "s . k" "2" false).result = .error (.duplicateKey "s . k")
      ∧ (t.set "s . k" "2" true).result = .ok ()
      ∧ (t.set "s . k" "2" true).state.get? "s.k" = some "2"
      ∧ (t.set "u.v.w" "3" false).result = .ok ()
      ∧ (t.set "u.v.w" "3" false).state.hasSub "u.v" = true
      ∧ (t.set "u.v.w" "3" false).state.get? "s.k" = some "1" := by
  intro t
  have hreplaced : (t.set "s . k" "2" true).result = .ok () := by decide +kernel
  have hopened : (t.set "u.v.w" "3" false).result = .ok () := by decide +kernel
  obtain ⟨hvalues, -⟩ := (set_outcome t "s . k" "2" true).2 hreplaced
  obtain ⟨hvalues', hsubs⟩ := (set_outcome t "u.v.w" "3" false).2 hopened
  refine ⟨?_, ?_, ?_, ?_, hreplaced, ?_, hopened, (hsubs "u.v").mpr (.inr ?_), ?_⟩
  · rw [(set_outcome t _ _ _).1]
    decide +kernel
  · rw [(set_outcome t _ _ _).1]
    decide +kernel
  · rw [(set_outcome t _ _ _).1]
    decide +kernel
  · rw [(set_outcome t _ _ _).1]
    decide +kernel
  · rw [hvalues]
    decide +kernel
  · decide +kernel
  · rw [hvalues']
    decide +kernel

-- ── Runs that may replace values ──────────────────────────────────────────────────

/-- **A run of values that may replace others is refused for a conflict of paths at one of its
    keys**, if all of them name places. -/
theorem setAll_true_error {pairs : List (String × String)} {t : Tree} {e : Error}
    (hnamed : ∀ pair ∈ pairs, Path.segments? pair.1 ≠ none)
    (h : (setAll true pairs t).result = .error e) : ∃ pair ∈ pairs, e = .pathConflict pair.1 := by
  induction pairs generalizing t with
  | nil => cases h
  | cons pair rest ih =>
      obtain ⟨hfirst, hrest⟩ := List.forall_mem_cons.mp hnamed
      rw [setAll_cons] at h
      cases hset : (t.set pair.1 pair.2 true).result with
      | error e' =>
          rw [Attempt.andThen_of_error hset] at h
          obtain rfl := Except.error.inj h
          exact ⟨pair, List.mem_cons_self, set_true_error hfirst hset⟩
      | ok _ =>
          rw [Attempt.andThen_of_ok hset] at h
          obtain ⟨other, hother, he⟩ := ih hrest h
          exact ⟨other, List.mem_cons_of_mem _ hother, he⟩

end Tree

end ParamStore
