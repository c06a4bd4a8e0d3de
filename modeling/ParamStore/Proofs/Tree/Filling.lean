import ParamStore.Proofs.Tree.Pairs

/-!
# Filling — adding what is missing, whatever the order

Filling a tree goes through the listing of another one and tries every pair on the tree as it is by
    then. The listing of a tree has no conflicts of its own, so a pair that is stored never makes
    or removes an obstacle for a later one: what is added are the pairs that the tree had room for
    at the beginning, and they come to one overlay. In terms of keys, the tree keeps what it
    has, takes what the other one has under keys that are free, and takes nothing under keys that
    are obstructed.

* **`admitted`** — the pairs that a tree has room for.
* **`fill_eq`** — a run through joinable pairs adds exactly these.
* **`get?_fillMissing_of_free`**, **`get?_fillMissing_of_obstructed`** — the values afterwards.
* **`new_pairs_perm`**, **`fillMissing_again`** — what is counted, and that a second run adds nothing.
* **`fillMissing_is_union`** — all that filling does, in terms of keys.
-/

namespace ParamStore.Tree

-- ── Keys that name the same place ─────────────────────────────────────────────────

section Same

variable {key key' : String} (h : Path.segments? key = Path.segments? key')

include h

/-- Keys with the same segments find the same value. -/
theorem get?_congr (t : Tree) : t.get? key = t.get? key' := by
  rcases segments?_cases key with hnone | ⟨parents, name, hsome⟩
  · rw [get?_eq_none hnone, get?_eq_none (h ▸ hnone)]
  · rw [get?_eq hsome, get?_eq (h ▸ hsome)]

/-- Keys with the same segments are obstructed together. -/
theorem obstructed_congr (t : Tree) : t.Obstructed key ↔ t.Obstructed key' := by
  unfold Obstructed Path.Above hasSub findSub?
  rw [h]

end Same

/-- Under an obstructed key there is no value. -/
theorem Obstructed.get?_eq_none {t : Tree} (ht : t.WellFormed) {key : String}
    (h : t.Obstructed key) : t.get? key = none := by
  cases hvalue : t.get? key with
  | none => rfl
  | some value =>
      have hkey : t.hasKey key = true := by rw [hasKey, hvalue]; rfl
      obtain ⟨parents, name, hsome⟩ := segments?_of_hasKey hkey
      rw [get?_eq hsome] at hvalue
      rcases (obstructed_iff hsome).mp h with hsub | hblocked
      · rw [ht.nodeAt?_eq_none_of_valueAt? hvalue] at hsub
        cases hsub
      · obtain ⟨node, hnode⟩ := Option.isSome_iff_exists.mp (isSome_nodeAt?_of_valueAt? hvalue)
        rw [ht.blocked_of_nodeAt? hnode] at hblocked
        cases hblocked

-- ── The pairs that are added ──────────────────────────────────────────────────────

/-- The pairs that a tree has room for: those that could be stored in it as it is. -/
def admitted (t : Tree) (pairs : List (String × String)) : List (String × String) :=
  pairs.filter fun pair => (t.set pair.1 pair.2 false).succeeds

section Admitted

variable {t : Tree} {pair : String × String} {pairs : List (String × String)}

theorem mem_admitted : pair ∈ admitted t pairs ↔ pair ∈ pairs
    ∧ Path.segments? pair.1 ≠ none ∧ ¬ t.Obstructed pair.1 ∧ t.hasKey pair.1 = false := by
  rw [admitted, List.mem_filter, set_false_succeeds_iff]

theorem Joinable.admitted {overwrite : Bool} (h : Joinable overwrite pairs) (t : Tree) :
    Joinable overwrite (admitted t pairs) where
  named p hp := h.named p (mem_admitted.mp hp).1
  fits := h.fits.filter _

/-- **A pair that is stored changes nothing for pairs that are not in conflict with it.** -/
theorem admitted_overlay (h : ∀ other ∈ pairs, Fits false (ofPair pair) (ofPair other)) :
    admitted (t.overlay (ofPair pair)) pairs = admitted t pairs := by
  refine List.filter_congr fun other hother => ?_
  rw [Bool.eq_iff_iff, set_pair_succeeds_iff, set_pair_succeeds_iff,
    fits_overlay_left (ofPair_wellFormed pair)]
  exact and_congr_right fun _ => and_iff_left (h other hother)

/-- One pair is stored and counted if there is room for it, and skipped otherwise. -/
theorem fill_cons (ht : t.WellFormed) (pair : String × String) (rest : List (String × String)) :
    fill (pair :: rest) t
      = if (t.set pair.1 pair.2 false).succeeds then
          let more := fill rest (t.overlay (ofPair pair))
          (more.1 + 1, more.2)
        else fill rest t := by
  have hstep : fill (pair :: rest) t
      = if t.hasKey pair.1 then fill rest t
        else
          let stored := t.set pair.1 pair.2 false
          let more := fill rest stored.state
          (if stored.succeeds then more.1 + 1 else more.1, more.2) := rfl
  rw [hstep]
  by_cases hset : (t.set pair.1 pair.2 false).succeeds = true
  · have hfree : t.hasKey pair.1 = false := (set_false_succeeds_iff.mp hset).2.2
    rw [hfree, if_neg Bool.false_ne_true, if_pos hset]
    dsimp only
    rw [if_pos hset, set_pair_state hset]
  · rw [if_neg hset]
    split
    · rfl
    · obtain ⟨e, he⟩ := Attempt.exists_error (mt Attempt.succeeds_iff.mpr hset)
      dsimp only
      rw [if_neg hset, set_state_of_error ht he]

/-- **A run through joinable pairs adds those that there was room for at the beginning**, and
    counts them. -/
theorem fill_eq (ht : t.WellFormed) (h : Joinable false pairs) :
    fill pairs t = ((admitted t pairs).length, t.overlay (gathered (admitted t pairs))) := by
  induction pairs generalizing t with
  | nil =>
      rw [admitted, List.filter_nil, gathered, overlay_empty]
      rfl
  | cons pair rest ih =>
      obtain ⟨hfirst, -⟩ := List.pairwise_cons.mp h.fits
      rw [fill_cons ht]
      by_cases hset : (t.set pair.1 pair.2 false).succeeds = true
      · have hpair := ofPair_wellFormed pair
        have hfits : Fits false t (ofPair pair) := ((set_pair_succeeds_iff pair t).mp hset).2
        have hadmitted : admitted t (pair :: rest) = pair :: admitted t rest :=
          List.filter_cons_of_pos hset
        have hrest := h.tail.admitted t
        -- what is admitted fits the tree, and the pair before it
        have hroom : Fits false t (gathered (admitted t rest)) := by
          refine hrest.fits_gathered.mpr fun other hother => ?_
          exact ((set_pair_succeeds_iff other t).mp (List.mem_filter.mp hother).2).2
        have hbefore : Fits false (ofPair pair) (gathered (admitted t rest)) :=
          hrest.fits_gathered.mpr fun other hother => hfirst other (mem_admitted.mp hother).1
        rw [if_pos hset, ih (overlay_wellFormed ht hpair hfits) h.tail, admitted_overlay hfirst,
          hadmitted, gathered, List.length_cons,
          overlay_assoc ht hpair hrest.gathered_wellFormed hfits hroom hbefore]
      · have hadmitted : admitted t (pair :: rest) = admitted t rest :=
          List.filter_cons_of_neg hset
        rw [if_neg hset, ih ht h.tail, hadmitted]

end Admitted

-- ── The values afterwards ─────────────────────────────────────────────────────────

section FillMissing

variable {a b : Tree} {key value : String}

/-- What is listed is found, under every key of the same place. -/
theorem WellFormed.get?_of_mem_flatten (hb : b.WellFormed) {pair : String × String}
    (hmem : pair ∈ b.flatten) (hkey : Path.segments? pair.1 = Path.segments? key) :
    b.get? key = some pair.2 := by
  obtain ⟨parents, name, hsome, -, hvalue⟩ := hb.segments?_of_mem_flatten hmem
  rw [← get?_congr hkey, get?_eq hsome, hvalue]

/-- **What is added are the other tree's values under keys that are free and have none.** -/
theorem get?_gathered_admitted (hb : b.WellFormed) :
    (gathered (admitted a b.flatten)).get? key = some value
      ↔ b.get? key = some value ∧ ¬ a.Obstructed key ∧ a.get? key = none := by
  rw [((hb.joinable_flatten false).admitted a).get?_eq_some_iff]
  constructor
  · rintro ⟨pair, hmem, hsame, rfl⟩
    obtain ⟨hflatten, -, hfree, hkey⟩ := mem_admitted.mp hmem
    refine ⟨hb.get?_of_mem_flatten hflatten hsame, mt (obstructed_congr hsame a).mpr hfree, ?_⟩
    rw [← get?_congr hsame]
    exact Option.not_isSome_iff_eq_none.mp (Bool.eq_false_iff.mp hkey)
  · rintro ⟨hvalue, hfree, hnone⟩
    -- the value is listed under the normal spelling of the key
    obtain ⟨parts, hparts, hmem⟩ := hb.get?_eq_some_iff.mp hvalue
    have hsame : Path.segments? (Path.text parts) = Path.segments? key := by
      rw [← Path.normal_eq hparts, Path.segments?_normal]
    refine ⟨(Path.text parts, value), mem_admitted.mpr ⟨hmem, ?_, ?_, ?_⟩, hsame, rfl⟩
    · rw [hsame, hparts]
      exact Option.some_ne_none parts
    · exact mt (obstructed_congr hsame a).mp hfree
    · rw [hasKey, get?_congr hsame, hnone]
      rfl

/-- Filling a tree lays the added pairs over it, and counts them. -/
theorem fillMissing_eq (ha : a.WellFormed) (hb : b.WellFormed) :
    a.fillMissing b
      = ((admitted a b.flatten).length, a.overlay (gathered (admitted a b.flatten))) :=
  fill_eq ha (hb.joinable_flatten false)

/-- The values after filling: those that are added, or else the old ones. -/
theorem get?_fillMissing (ha : a.WellFormed) (hb : b.WellFormed) (key : String) :
    (a.fillMissing b).2.get? key
      = ((gathered (admitted a b.flatten)).get? key).or (a.get? key) := by
  have hadmitted := (hb.joinable_flatten false).admitted a
  rw [fillMissing_eq ha hb, get?_overlay hadmitted.gathered_wellFormed]

/-- **Under a key that is obstructed, nothing is added**: it has no value before and afterwards. -/
theorem get?_fillMissing_of_obstructed (ha : a.WellFormed) (hb : b.WellFormed)
    (h : a.Obstructed key) : (a.fillMissing b).2.get? key = none := by
  rw [get?_fillMissing ha hb, h.get?_eq_none ha, Option.or_none]
  refine Option.eq_none_iff_forall_ne_some.mpr fun value hvalue => ?_
  exact (get?_gathered_admitted hb |>.mp hvalue).2.1 h

/-- **Under a key that is free, the tree keeps its value or else takes the other one's.** -/
theorem get?_fillMissing_of_free (ha : a.WellFormed) (hb : b.WellFormed)
    (h : ¬ a.Obstructed key) :
    (a.fillMissing b).2.get? key = (a.get? key).or (b.get? key) := by
  rw [get?_fillMissing ha hb]
  cases hold : a.get? key with
  | some value =>
      have hadded : (gathered (admitted a b.flatten)).get? key = none := by
        refine Option.eq_none_iff_forall_ne_some.mpr fun added hadded => ?_
        have hnone := ((get?_gathered_admitted hb).mp hadded).2.2
        rw [hold] at hnone
        cases hnone
      rw [hadded, Option.none_or, Option.some_or]
  | none =>
      rw [Option.or_none, Option.none_or]
      refine Option.ext fun value => ?_
      rw [get?_gathered_admitted hb]
      exact and_iff_left ⟨h, hold⟩

end FillMissing

-- ── What filling comes to ─────────────────────────────────────────────────────────

section Union

variable {a b : Tree} (ha : a.WellFormed)

include ha

theorem fillMissing_wellFormed (b : Tree) : (a.fillMissing b).2.WellFormed :=
  fill_keeps keptBySet_wellFormed ha b.flatten

variable (hb : b.WellFormed)

include hb

/-- **The values after filling**: the old one, or else the other tree's if the key is free. -/
theorem get?_fillMissing_eq (key : String) : (a.fillMissing b).2.get? key
    = if a.hasKey key then a.get? key
      else if a.Obstructed key then none else b.get? key := by
  by_cases h : a.Obstructed key
  · have hnone := h.get?_eq_none ha
    rw [get?_fillMissing_of_obstructed ha hb h, hasKey, hnone, if_pos h]
    rfl
  · rw [get?_fillMissing_of_free ha hb h, if_neg h, hasKey]
    cases a.get? key <;> rfl

/-- Filling keeps every sub-tree. -/
theorem hasSub_fillMissing {path : String} (h : a.hasSub path = true) :
    (a.fillMissing b).2.hasSub path = true := by
  have hadmitted := (hb.joinable_flatten false).admitted a
  rw [fillMissing_eq ha hb, hasSub_overlay hadmitted.gathered_wellFormed, h, Bool.true_or]

/-- **The pairs that are new in the listing** are those that were added. -/
theorem new_pairs_perm : ((a.fillMissing b).2.flatten.filter fun pair => !a.hasKey pair.1).Perm
    (admitted a b.flatten) := by
  have hafter := fillMissing_wellFormed ha b
  have hadded : (admitted a b.flatten).Nodup := hb.nodup_flatten.filter _
  refine (List.perm_ext_iff_of_nodup (hafter.nodup_flatten.filter _) hadded).mpr ?_
  rintro ⟨key, value⟩
  rw [List.mem_filter, mem_admitted, hafter.mem_flatten_iff_get?, hb.mem_flatten_iff_get?,
    get?_fillMissing_eq ha hb, Bool.not_eq_true']
  constructor
  · rintro ⟨⟨hnormal, hvalue⟩, hnew⟩
    rw [hnew, if_neg Bool.false_ne_true] at hvalue
    split at hvalue
    · cases hvalue
    · next hfree =>
        refine ⟨⟨hnormal, hvalue⟩, fun hnone => ?_, hfree, hnew⟩
        rw [get?_eq_none hnone] at hvalue
        cases hvalue
  · rintro ⟨⟨hnormal, hvalue⟩, -, hfree, hnew⟩
    refine ⟨⟨hnormal, ?_⟩, hnew⟩
    rw [hnew, if_neg Bool.false_ne_true, if_neg hfree]
    exact hvalue

/-- What is in the way of a key before filling is in its way afterwards. -/
theorem Obstructed.fillMissing {key : String} (h : a.Obstructed key) :
    (a.fillMissing b).2.Obstructed key := by
  rcases h with hsub | ⟨parent, habove, hvalue⟩
  · exact .inl (hasSub_fillMissing ha hb hsub)
  · refine .inr ⟨parent, habove, ?_⟩
    rw [hasKey, get?_fillMissing_eq ha hb, if_pos hvalue]
    exact hvalue

/-- After filling, there is no room for any pair of the other tree. -/
theorem admitted_fillMissing : admitted (a.fillMissing b).2 b.flatten = [] := by
  refine List.eq_nil_iff_forall_not_mem.mpr ?_
  rintro ⟨key, value⟩ hmem
  obtain ⟨hflatten, -, hfree, hnew⟩ := mem_admitted.mp hmem
  have hvalue := hb.get?_of_mem_flatten hflatten rfl
  have hfree' : ¬ a.Obstructed key := fun h => hfree (h.fillMissing ha hb)
  -- the key was free, so it has a value by now
  rw [hasKey, get?_fillMissing_of_free ha hb hfree', hvalue, Option.isSome_or,
    Option.isSome_some, Bool.or_true] at hnew
  cases hnew

/-- **Filling a second time adds nothing.** -/
theorem fillMissing_again :
    (a.fillMissing b).2.fillMissing b = (0, (a.fillMissing b).2) := by
  rw [fillMissing_eq (fillMissing_wellFormed ha b) hb, admitted_fillMissing ha hb, gathered,
    overlay_empty]
  rfl

end Union

/-- **Filling is a union that prefers what is there.** Every key keeps its value; without one, it takes the
    other tree's, unless there was a sub-tree in its place or a value above it. No sub-tree is lost,
    the count is that of the keys that are new in the listing, and filling again changes nothing. -/
theorem fillMissing_is_union {a b : Tree} (ha : a.Reachable) (hb : b.Reachable) :
    (∀ key, (a.fillMissing b).2.get? key
      = if a.hasKey key then a.get? key
        else if a.Obstructed key then none else b.get? key)
    ∧ (∀ path, a.hasSub path = true → (a.fillMissing b).2.hasSub path = true)
    ∧ (a.fillMissing b).1
      = ((a.fillMissing b).2.flatten.filter fun pair => !a.hasKey pair.1).length
    ∧ (a.fillMissing b).2.fillMissing b = (0, (a.fillMissing b).2) := by
  have hwa := ha.wellFormed
  have hwb := hb.wellFormed
  refine ⟨get?_fillMissing_eq hwa hwb, fun path => hasSub_fillMissing hwa hwb, ?_,
    fillMissing_again hwa hwb⟩
  rw [(new_pairs_perm hwa hwb).length_eq, fillMissing_eq hwa hwb]

/-- Four values meet a tree that has a value under one of the keys, an empty sub-tree in the place of
    the second and a value above the third; the fourth is added. -/
theorem fillMissing_is_union_skips :
    let a := (((empty.set "k" "0" false).state.set "s.x" "1" false).state.merge empty "e" false).state
    let b := ((((empty.set "k" "5" false).state.set "e" "6" false).state.set "s.x.y" "7"
      false).state.set "s.z" "8" false).state
    let after := (a.fillMissing b).2
    a.Reachable ∧ b.Reachable ∧ after.get? "k" = some "0" ∧ after.get? "e" = none
      ∧ after.get? "s.x.y" = none ∧ after.get? "s . z" = some "8" ∧ after.hasSub "e" = true
      ∧ (a.fillMissing b).1 = 1
      ∧ (after.flatten.filter fun pair => !a.hasKey pair.1).length = 1
      ∧ after.fillMissing b = (0, after) := by
  intro a b after
  have ha : a.Reachable :=
    .merge (.set (.set .empty "k" "0" false) "s.x" "1" false) .empty "e" false
  have hb : b.Reachable :=
    .set (.set (.set (.set .empty "k" "5" false) "e" "6" false) "s.x.y" "7" false) "s.z" "8" false
  have hflat : b.flatten = [("e", "6"), ("k", "5"), ("s.x.y", "7"), ("s.z", "8")] :=
    hb.wellFormed.flatten_eq_of_perm (by decide +kernel) (by decide +kernel)
  have hone : (a.fillMissing b).1 = 1 := by
    rw [fillMissing, hflat]
    decide +kernel
  obtain ⟨hvalues, hsubs, hcount, hagain⟩ := fillMissing_is_union ha hb
  refine ⟨ha, hb, ?_, ?_, ?_, ?_, hsubs "e" (by decide +kernel), hone, ?_, hagain⟩
  · rw [hvalues]
    decide +kernel
  · rw [hvalues]
    decide +kernel
  · rw [hvalues]
    decide +kernel
  · rw [hvalues]
    decide +kernel
  · rw [← hcount, hone]

end ParamStore.Tree
