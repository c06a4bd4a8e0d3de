import Mathlib.Data.List.Pairwise
import ParamStore.Proofs.Tree.Inverse
import ParamStore.Proofs.Tree.Storing

/-!
# Pairs — building a tree from keys and values in any order

Pairs are stored one after the other, and which of two keys is refused depends on which comes first: a
    value below a value, or a value in the place of a sub-tree. Whether one of them is refused does not
    depend on it. Two pairs are in conflict if their keys name one place, or if one of the keys
    is above the other, and a list of pairs builds a tree exactly if all keys name places and no two
    of them are in conflict.

What the pairs build is their trees laid over one another. Where no value is replaced, order and
    grouping do not matter to that, so any two neighbours may change places.

* **`fits_ofPair_iff`**, **`joinable_false_iff`** — conflicts between pairs, in terms of their keys.
* **`gathered_perm`**, **`Joinable.setAll_empty`** — pairs in another order gather to the same tree, and
  build it.
* **`Joinable.get?_eq_some_iff`**, **`Joinable.flatten_perm`** — the values of that tree, by key and as a
  listing.
* **`ofPairs_in_any_order`** — which pairs build a tree, and which tree it is.
-/

namespace ParamStore.Tree

-- ── Conflicts ─────────────────────────────────────────────────────────────────────

/-- **Two pairs are not in conflict** if their keys name two places and neither is above the other. -/
theorem fits_ofPair_iff {p q : String × String} (hp : Path.segments? p.1 ≠ none)
    (hq : Path.segments? q.1 ≠ none) : Fits false (ofPair p) (ofPair q) ↔
      Path.segments? p.1 ≠ Path.segments? q.1 ∧ ¬ Path.Above p.1 q.1 ∧ ¬ Path.Above q.1 p.1 := by
  rw [fits_iff_paths (ofPair_wellFormed p) (ofPair_wellFormed q)]
  constructor
  · rintro ⟨huncrossed, hundoubled⟩
    have honce := hundoubled.resolve_left Bool.false_ne_true
    refine ⟨fun hsame => ?_, fun habove => ?_, fun habove => ?_⟩
    · exact honce ⟨p.1, (hasKey_ofPair hp _).mpr rfl, (hasKey_ofPair hq _).mpr hsame.symm⟩
    · exact huncrossed ⟨p.1, .inl ⟨(hasKey_ofPair hp _).mpr rfl, (hasSub_ofPair hq _).mpr habove⟩⟩
    · exact huncrossed ⟨q.1, .inr ⟨(hasSub_ofPair hp _).mpr habove, (hasKey_ofPair hq _).mpr rfl⟩⟩
  · rintro ⟨hne, hpq, hqp⟩
    constructor
    · rintro ⟨path, ⟨hkey, hsub⟩ | ⟨hsub, hkey⟩⟩
      · rw [hasKey_ofPair hp] at hkey
        rw [hasSub_ofPair hq] at hsub
        exact hpq (hsub.congr_left hkey.symm)
      · rw [hasSub_ofPair hp] at hsub
        rw [hasKey_ofPair hq] at hkey
        exact hqp (hsub.congr_left hkey.symm)
    · right
      rintro ⟨path, hkey, hkey'⟩
      rw [hasKey_ofPair hp] at hkey
      rw [hasKey_ofPair hq] at hkey'
      exact hne (hkey.trans hkey'.symm)

section Pairs

variable {pairs pairs' : List (String × String)} {overwrite : Bool}

/-- Keys of joinable pairs name different places. -/
theorem Joinable.distinct (h : Joinable false pairs) :
    pairs.Pairwise fun p q => Path.segments? p.1 ≠ Path.segments? q.1 :=
  h.fits.imp_of_mem fun hp hq hfits =>
    ((fits_ofPair_iff (h.named _ hp) (h.named _ hq)).mp hfits).1

/-- **Pairs are joinable** if all keys name places, no two the same, and none is above another. -/
theorem joinable_false_iff : Joinable false pairs ↔
    (∀ p ∈ pairs, Path.segments? p.1 ≠ none)
      ∧ (pairs.Pairwise fun p q => Path.segments? p.1 ≠ Path.segments? q.1)
      ∧ ∀ p ∈ pairs, ∀ q ∈ pairs, ¬ Path.Above p.1 q.1 := by
  constructor
  · intro h
    have hfree : pairs.Pairwise fun p q => ¬ Path.Above p.1 q.1 ∧ ¬ Path.Above q.1 p.1 :=
      h.fits.imp_of_mem fun hp hq hfits =>
        ((fits_ofPair_iff (h.named _ hp) (h.named _ hq)).mp hfits).2
    refine ⟨h.named, h.distinct, fun p hp q hq => ?_⟩
    exact (hfree.imp And.left).forall_of_forall_of_flip (fun p _ => Path.not_above_self p.1)
      (hfree.imp And.right) hp hq
  · rintro ⟨hnamed, hdistinct, hfree⟩
    refine ⟨hnamed, hdistinct.imp_of_mem ?_⟩
    intro p q hp hq hne
    exact (fits_ofPair_iff (hnamed p hp) (hnamed q hq)).mpr ⟨hne, hfree p hp q hq, hfree q hq p hp⟩

-- ── Order ─────────────────────────────────────────────────────────────────────────

/-- Whether pairs are joinable does not depend on their order. -/
theorem Joinable.perm (h : Joinable overwrite pairs) (hperm : pairs.Perm pairs') :
    Joinable overwrite pairs' :=
  ⟨fun p hp => h.named p (hperm.mem_iff.mpr hp), hperm.pairwise h.fits fits_comm.mp⟩

/-- Two pairs in front may change places. -/
theorem gathered_swap {p q : String × String} (h : Joinable false (p :: q :: pairs)) :
    gathered (p :: q :: pairs) = gathered (q :: p :: pairs) := by
  have hp := ofPair_wellFormed p
  have hq := ofPair_wellFormed q
  have hrest := h.tail.tail.gathered_wellFormed
  obtain ⟨hfirst, hlater⟩ := List.pairwise_cons.mp h.fits
  have hpq : Fits false (ofPair p) (ofPair q) := hfirst q List.mem_cons_self
  have hqp : Fits false (ofPair q) (ofPair p) := fits_comm.mp hpq
  have hpr : Fits false (ofPair p) (gathered pairs) :=
    h.tail.tail.fits_gathered.mpr fun r hr => hfirst r (List.mem_cons_of_mem q hr)
  have hqr : Fits false (ofPair q) (gathered pairs) :=
    h.tail.tail.fits_gathered.mpr (List.pairwise_cons.mp hlater).1
  calc gathered (p :: q :: pairs)
      = (ofPair p).overlay ((ofPair q).overlay (gathered pairs)) := rfl
    _ = ((ofPair p).overlay (ofPair q)).overlay (gathered pairs) :=
        (overlay_assoc hp hq hrest hpq hpr hqr).symm
    _ = ((ofPair q).overlay (ofPair p)).overlay (gathered pairs) := by
        rw [overlay_comm hp hq hpq]
    _ = (ofPair q).overlay ((ofPair p).overlay (gathered pairs)) :=
        overlay_assoc hq hp hrest hqp hqr hpr
    _ = gathered (q :: p :: pairs) := rfl

/-- **Pairs in another order gather to the same tree.** -/
theorem gathered_perm (h : Joinable false pairs) (hperm : pairs.Perm pairs') :
    gathered pairs = gathered pairs' := by
  induction hperm with
  | nil => rfl
  | cons pair _ ih => rw [gathered, gathered, ih h.tail]
  | swap p q rest => exact gathered_swap h
  | trans hfirst _ ih ih' => exact (ih h).trans (ih' (h.perm hfirst))

/-- **Joinable pairs build what they gather to, stored in any order**, also with leave to replace. -/
theorem Joinable.setAll_empty (h : Joinable false pairs) (hperm : pairs.Perm pairs')
    (overwrite : Bool) : (setAll overwrite pairs' empty).result = .ok ()
      ∧ (setAll overwrite pairs' empty).state = gathered pairs := by
  have hperm' := h.perm hperm
  have hwith : Joinable overwrite pairs' :=
    ⟨hperm'.named, hperm'.fits.imp fun hfits => hfits.of_false overwrite⟩
  have hsucceeds : (setAll overwrite pairs' empty).succeeds = true :=
    (setAll_succeeds_iff pairs' wellFormed_empty).mpr ⟨hwith, fits_empty overwrite _⟩
  refine ⟨Attempt.succeeds_iff.mp hsucceeds, ?_⟩
  rw [setAll_state wellFormed_empty hsucceeds, empty_overlay hwith.gathered_wellFormed]
  exact (gathered_perm h hperm).symm

-- ── Values ────────────────────────────────────────────────────────────────────────

/-- **What a key finds in the tree of some pairs** is paired with a key of the same place. -/
theorem Joinable.get?_eq_some_iff (h : Joinable false pairs) {key value : String} :
    (gathered pairs).get? key = some value ↔
      ∃ pair ∈ pairs, Path.segments? pair.1 = Path.segments? key ∧ pair.2 = value := by
  induction pairs generalizing value with
  | nil =>
      rw [gathered, get?_empty]
      constructor
      · intro hvalue
        cases hvalue
      · rintro ⟨pair, hmem, -⟩
        cases hmem
  | cons first rest ih =>
      have hnamed := h.named first List.mem_cons_self
      have hfirst := (List.pairwise_cons.mp h.distinct).1
      rw [gathered, get?_overlay h.tail.gathered_wellFormed, get?_ofPair hnamed,
        Option.or_eq_some_iff, ih h.tail, List.exists_mem_cons_iff]
      constructor
      · rintro (hrest | ⟨-, hvalue⟩)
        · exact .inr hrest
        · split at hvalue
          · next hsame => exact .inl ⟨hsame, Option.some.inj hvalue⟩
          · cases hvalue
      · rintro (⟨hsame, hvalue⟩ | hrest)
        · refine .inr ⟨Option.eq_none_iff_forall_ne_some.mpr fun other hother => ?_, ?_⟩
          · -- a later pair with this key would name the place of the first one
            obtain ⟨pair, hmem, hpair, -⟩ := (ih h.tail).mp hother
            exact hfirst pair hmem (hsame.trans hpair.symm)
          · rw [if_pos hsame, hvalue]
        · exact .inl hrest

/-- **The listing of the tree of some pairs** has these pairs, with their keys in the normal
    spelling. -/
theorem Joinable.flatten_perm (h : Joinable false pairs) :
    (gathered pairs).flatten.Perm (pairs.map fun pair => (Path.normal pair.1, pair.2)) := by
  have hwf := h.gathered_wellFormed
  have hnodup : (pairs.map fun pair => (Path.normal pair.1, pair.2)).Nodup := by
    refine List.pairwise_map.mpr (h.distinct.imp fun hne heq => hne ?_)
    rw [← Path.segments?_normal, (Prod.mk.inj heq).1, Path.segments?_normal]
  refine (List.perm_ext_iff_of_nodup hwf.nodup_flatten hnodup).mpr ?_
  rintro ⟨key, value⟩
  rw [hwf.mem_flatten_iff_get?, h.get?_eq_some_iff, List.mem_map]
  constructor
  · rintro ⟨hnormal, pair, hmem, hsame, rfl⟩
    have hkey : Path.normal pair.1 = key :=
      (Path.normal_congr (h.named pair hmem) hsame).trans hnormal
    exact ⟨pair, hmem, by rw [hkey]⟩
  · rintro ⟨pair, hmem, heq⟩
    obtain ⟨rfl, rfl⟩ := Prod.mk.inj heq
    have hsame := Path.segments?_normal pair.1
    refine ⟨Path.normal_congr ?_ hsame, pair, hmem, hsame.symm, rfl⟩
    rw [hsame]
    exact h.named pair hmem

end Pairs

/-- **Building a tree does not depend on the order of the pairs.** They build one exactly if every key
    names a place, no two keys name the same one, and no key is above another. Then they build
    it in every order, and its listing is the pairs, with their keys in the normal spelling,
    in ascending order. -/
theorem ofPairs_in_any_order (pairs : List (String × String)) :
    ((∃ t, ofPairs pairs = .ok t) ↔
      (∀ p ∈ pairs, Path.segments? p.1 ≠ none)
        ∧ (pairs.Pairwise fun p q => Path.segments? p.1 ≠ Path.segments? q.1)
        ∧ ∀ p ∈ pairs, ∀ q ∈ pairs, ¬ Path.Above p.1 q.1)
    ∧ ∀ t, ofPairs pairs = .ok t →
      (∀ pairs', pairs'.Perm pairs → ofPairs pairs' = .ok t)
      ∧ t.flatten.Perm (pairs.map fun pair => (Path.normal pair.1, pair.2))
      ∧ t.flatten.Pairwise fun p q => p.1 < q.1 := by
  constructor
  · rw [← joinable_false_iff]
    constructor
    · rintro ⟨t, ht⟩
      exact (ofPairs_eq_ok_iff.mp ht).1
    · intro h
      exact ⟨gathered pairs, ofPairs_eq_ok_iff.mpr ⟨h, rfl⟩⟩
  · intro t ht
    obtain ⟨hjoinable, rfl⟩ := ofPairs_eq_ok_iff.mp ht
    refine ⟨fun pairs' hperm => ?_, hjoinable.flatten_perm, ?_⟩
    · have hjoinable' := hjoinable.perm hperm.symm
      exact ofPairs_eq_ok_iff.mpr ⟨hjoinable', gathered_perm hjoinable' hperm⟩
    · exact List.pairwise_map.mp hjoinable.gathered_wellFormed.flatten_ascending

/-- Three pairs with blanks in their keys, in two orders, and pairs in conflict, in two orders: one
    key above another, and one place under two spellings. -/
theorem ofPairs_in_any_order_spelled :
    let pairs := [("s . y", "1"), ("s-t", "2"), (" s.x", "3")]
    (∃ t, ofPairs pairs = .ok t ∧ ofPairs pairs.reverse = .ok t
        ∧ t.flatten = [("s-t", "2"), ("s.x", "3"), ("s.y", "1")])
      ∧ (¬ ∃ t, ofPairs [("a", "1"), ("a.b", "2")] = .ok t)
      ∧ (¬ ∃ t, ofPairs [("a.b", "2"), ("a", "1")] = .ok t)
      ∧ ¬ ∃ t, ofPairs [("a.b", "1"), ("a. b", "1")] = .ok t := by
  intro pairs
  obtain ⟨hbuilds, horder⟩ := ofPairs_in_any_order pairs
  obtain ⟨t, ht⟩ := hbuilds.mpr (by decide +kernel)
  obtain ⟨hperm, hlisted, hascending⟩ := horder t ht
  have hsorted : (pairs.map fun pair => (Path.normal pair.1, pair.2)).Perm
      [("s-t", "2"), ("s.x", "3"), ("s.y", "1")] := by decide +kernel
  refine ⟨⟨t, ht, hperm _ (List.reverse_perm pairs), ?_⟩, ?_, ?_, ?_⟩
  · exact KeyMap.eq_of_mem_iff (fun _ _ => String.lt_asymm) hascending (by decide +kernel)
      fun _ => (hlisted.trans hsorted).mem_iff
  · rw [(ofPairs_in_any_order _).1]
    decide +kernel
  · rw [(ofPairs_in_any_order _).1]
    decide +kernel
  · rw [(ofPairs_in_any_order _).1]
    decide +kernel

end ParamStore.Tree
