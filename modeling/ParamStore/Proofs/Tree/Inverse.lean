import ParamStore.Proofs.Tree.Pruned

/-!
# The listing as a view — ascending keys, look-ups by key, and the way back

A listing is made level after level and then put in the order of its keys, which is not the order of
    the levels: a name may have characters below the dot. Because a key tells the place that it
    was written for, and a place has one value, no key comes twice. So the listing ascends
    strictly, and looking a key up in the tree or in the listing is the same. Storing what is
    listed, pair after pair, builds the tree again, less the sub-trees without a value in them,
    since those are listed nowhere.

* **`WellFormed.flatten_ascending`** — the keys ascend strictly.
* **`WellFormed.get?_eq_some_iff`**, **`WellFormed.mem_flatten_iff_get?`** — a look-up is a pair of the
  listing, and the other way round.
* **`WellFormed.ofPairs_flatten`** — what a listing builds.
* **`WellFormed.pruned_gathered_flatten`** — it builds no empty sub-tree.
* **`flatten_is_view`** — the three together.
-/

namespace ParamStore.Tree

-- ── The order of pairs ────────────────────────────────────────────────────────────

theorem pairLe_iff {a b : String × String} :
    pairLe a b = true ↔ a.1 < b.1 ∨ (a.1 = b.1 ∧ a.2 ≤ b.2) := by
  simp [pairLe]

theorem pairLe_trans (a b c : String × String) (hab : pairLe a b = true)
    (hbc : pairLe b c = true) : pairLe a c = true := by
  rw [pairLe_iff] at hab hbc ⊢
  rcases hab with hab | ⟨hab, hab'⟩ <;> rcases hbc with hbc | ⟨hbc, hbc'⟩
  · exact Or.inl (String.lt_trans hab hbc)
  · exact Or.inl (hbc ▸ hab)
  · exact Or.inl (hab ▸ hbc)
  · exact Or.inr ⟨hab.trans hbc, String.le_trans hab' hbc'⟩

theorem pairLe_total (a b : String × String) : (pairLe a b || pairLe b a) = true := by
  rw [Bool.or_eq_true, pairLe_iff, pairLe_iff]
  by_cases hlt : a.1 < b.1
  · exact Or.inl (Or.inl hlt)
  · by_cases hgt : b.1 < a.1
    · exact Or.inr (Or.inl hgt)
    · have heq : a.1 = b.1 := String.le_antisymm (String.not_lt.mp hgt) (String.not_lt.mp hlt)
      exact (String.le_total a.2 b.2).imp (fun h => Or.inr ⟨heq, h⟩) fun h => Or.inr ⟨heq.symm, h⟩

namespace WellFormed

variable {t : Tree}

-- ── The listing ───────────────────────────────────────────────────────────────────

/-- A key is listed with one value only. -/
theorem value_unique_of_mem_flatten (h : t.WellFormed) {key v v' : String}
    (hmem : (key, v) ∈ t.flatten) (hmem' : (key, v') ∈ t.flatten) : v = v' := by
  obtain ⟨ps, n, hkey, -, hvalue⟩ := h.segments?_of_mem_flatten hmem
  obtain ⟨ps', n', hkey', -, hvalue'⟩ := h.segments?_of_mem_flatten hmem'
  obtain ⟨rfl, hname⟩ := List.append_inj' (Option.some.inj (hkey.symm.trans hkey')) rfl
  obtain rfl := List.singleton_inj.mp hname
  exact Option.some.inj (hvalue.symm.trans hvalue')

/-- **The keys of a listing ascend strictly**, so none comes twice. -/
theorem flatten_ascending (h : t.WellFormed) : KeyMap.Ascending t.flatten := by
  have hsorted : t.flatten.Pairwise fun p q => pairLe p q = true :=
    List.pairwise_mergeSort pairLe_trans pairLe_total _
  refine List.pairwise_map.mpr ((hsorted.and h.nodup_flatten).imp_of_mem ?_)
  rintro ⟨key, v⟩ ⟨key', v'⟩ hmem hmem' ⟨hle, hne⟩
  rcases pairLe_iff.mp hle with hlt | ⟨rfl, -⟩
  · exact hlt
  · obtain rfl := h.value_unique_of_mem_flatten hmem hmem'
    exact absurd rfl hne

/-- Ascending pairs that are those of the levels in another order are the listing. -/
theorem flatten_eq_of_perm (h : t.WellFormed) {pairs : List (String × String)}
    (hascending : KeyMap.Ascending pairs) (hperm : (collect "" t).Perm pairs) :
    t.flatten = pairs := by
  have hsame : t.flatten.Perm pairs := (List.mergeSort_perm _ _).trans hperm
  exact KeyMap.eq_of_mem_iff (fun _ _ => String.lt_asymm) (List.pairwise_map.mp h.flatten_ascending)
    (List.pairwise_map.mp hascending) fun _ => hsame.mem_iff

/-- **A look-up is a pair of the listing**: the one of the joined segments of the key. -/
theorem get?_eq_some_iff (h : t.WellFormed) {key value : String} :
    t.get? key = some value ↔
      ∃ parts, Path.segments? key = some parts ∧ (Path.text parts, value) ∈ t.flatten := by
  rcases segments?_cases key with hnone | ⟨parents, name, hsome⟩
  · simp [get?_eq_none hnone, hnone]
  · rw [get?_eq hsome, hsome]
    constructor
    · intro hvalue
      exact ⟨_, rfl, h.mem_flatten.mpr ⟨parents, name, rfl, hvalue⟩⟩
    · rintro ⟨parts, hparts, hmem⟩
      obtain rfl := Option.some.inj hparts
      obtain ⟨ps, n, hkey, -, hvalue⟩ := h.segments?_of_mem_flatten hmem
      rw [segments?_text_concat (Path.isName_of_segments? hsome)] at hkey
      obtain ⟨rfl, hname⟩ := List.append_inj' (Option.some.inj hkey) rfl
      obtain rfl := List.singleton_inj.mp hname
      exact hvalue

/-- **A pair of the listing** is a key in its normal spelling with what it finds. -/
theorem mem_flatten_iff_get? (h : t.WellFormed) {key value : String} :
    (key, value) ∈ t.flatten ↔ Path.normal key = key ∧ t.get? key = some value := by
  rw [h.get?_eq_some_iff]
  constructor
  · intro hmem
    obtain ⟨parents, name, hsome, htext, -⟩ := h.segments?_of_mem_flatten hmem
    refine ⟨(Path.normal_eq hsome).trans htext.symm, parents ++ [name], hsome, ?_⟩
    rw [← htext]
    exact hmem
  · rintro ⟨hnormal, parts, hparts, hmem⟩
    rw [Path.normal_eq hparts] at hnormal
    rw [← hnormal]
    exact hmem

-- ── The way back ──────────────────────────────────────────────────────────────────

/-- **A listing builds what its values gather to.** No pair of it is refused. -/
theorem ofPairs_flatten (h : t.WellFormed) : ofPairs t.flatten = .ok (gathered t.flatten) :=
  ofPairs_eq_ok_iff.mpr ⟨h.joinable_flatten false, rfl⟩

/-- A listing gathers to no empty sub-tree: each one is on the way to a value. -/
theorem pruned_gathered_flatten (h : t.WellFormed) : (gathered t.flatten).Pruned := by
  intro path sub hpath hsub
  have hnode : ((gathered t.flatten).nodeAt? path).isSome = true := by rw [hsub]; rfl
  rcases h.isSome_nodeAt?_gathered_flatten.mp hnode with rfl | ⟨parents, name, value, hvalue, hway⟩
  · exact absurd rfl hpath
  · obtain ⟨rest, rfl⟩ := hway
    rw [← h.valueAt?_gathered_flatten] at hvalue
    exact isEmpty_eq_false_of_below hsub hvalue

end WellFormed

/-- **The listing is a view of the tree.** Its keys ascend strictly; what a key holds is paired in it
    with the joined segments of the key; and it builds the tree again exactly if no sub-tree is
    empty. -/
theorem flatten_is_view {t : Tree} (h : t.Reachable) :
    (t.flatten.Pairwise fun p q => p.1 < q.1)
    ∧ (∀ key value, t.get? key = some value ↔
      ∃ parts, Path.segments? key = some parts ∧ (Path.text parts, value) ∈ t.flatten)
    ∧ (ofPairs t.flatten = .ok t ↔ t.Pruned) := by
  have ht := h.wellFormed
  refine ⟨List.pairwise_map.mp ht.flatten_ascending, fun _ _ => ht.get?_eq_some_iff, ?_⟩
  rw [ht.ofPairs_flatten]
  constructor
  · intro heq
    rw [← Except.ok.inj heq]
    exact ht.pruned_gathered_flatten
  · intro hpruned
    rw [hpruned.gathered_flatten ht]

/-- A name with a character below the dot: the listing is not in the order of the levels, a key with
    blanks is found in it, and its pairs build the tree; with an empty sub-tree they do not. -/
theorem flatten_is_view_reordered :
    let t := ((empty.set "a.b" "1" false).state.set "a-c.d" "2" false).state
    let t' := (t.merge empty "e" false).state
    t.Reachable ∧ t'.Reachable
      ∧ collect "" t = [("a.b", "1"), ("a-c.d", "2")]
      ∧ t.flatten = [("a-c.d", "2"), ("a.b", "1")] ∧ t.get? " a . b " = some "1"
      ∧ ofPairs t.flatten = .ok t ∧ t.Pruned
      ∧ t'.flatten = t.flatten ∧ ofPairs t'.flatten ≠ .ok t' ∧ ¬ t'.Pruned := by
  intro t t'
  have ht : t.Reachable := .set (.set .empty "a.b" "1" false) "a-c.d" "2" false
  have ht' : t'.Reachable := .merge ht .empty "e" false
  obtain ⟨-, hget, hbuilds⟩ := flatten_is_view ht
  obtain ⟨-, -, hbuilds'⟩ := flatten_is_view ht'
  have hnode : t = node [] [("a", node [("b", "1")] []), ("a-c", node [("d", "2")] [])] := by
    decide +kernel
  have hlevels : collect "" t = [("a.b", "1"), ("a-c.d", "2")] := by decide +kernel
  have hlevels' : collect "" t' = collect "" t := by decide +kernel
  have hascending : KeyMap.Ascending [("a-c.d", "2"), ("a.b", "1")] := by decide +kernel
  have hswap : (collect "" t).Perm [("a-c.d", "2"), ("a.b", "1")] := hlevels ▸ .swap ..
  have hflat : t.flatten = [("a-c.d", "2"), ("a.b", "1")] :=
    ht.wellFormed.flatten_eq_of_perm hascending hswap
  have hflat' : t'.flatten = t.flatten :=
    hflat ▸ ht'.wellFormed.flatten_eq_of_perm hascending (hlevels' ▸ hswap)
  have hbuilt : ofPairs t.flatten = .ok t := by rw [hflat, hnode]; rfl
  have hlost : ¬ t'.Pruned := fun hpruned =>
    absurd (hpruned ["e"] empty (by simp) (by decide +kernel)) (by decide)
  refine ⟨ht, ht', hlevels, hflat, (hget _ _).mpr ⟨["a", "b"], by decide +kernel, ?_⟩, hbuilt,
    hbuilds.mp hbuilt, hflat', fun hok => hlost (hbuilds'.mp hok), hlost⟩
  rw [hflat]
  decide +kernel

end ParamStore.Tree
