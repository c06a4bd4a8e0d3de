import ParamStore.Proofs.Tree.Merge

/-!
# The algebra of merging — order, grouping and repetition

Laying trees over one another is `or` on values and `or` on sub-trees, and a merged tree is in
    conflict with a third one exactly if one of its parts is. So acceptance does not depend on the
    grouping, and the laws of `or` become laws of merging: grouping never matters, order
    only where values may be replaced, and repetition adds nothing.

* **`fits_comm`**, **`fits_overlay_left`**, **`fits_overlay_right`** — conflicts do not depend on the
  side, and conflicts with a merged tree are conflicts with its parts.
* **`Covers`** — a tree has all that another one has; **`Covers.overlay`** — then laying that one over
  it changes nothing.
* **`overlay_comm`**, **`overlay_assoc`**, **`overlay_self`** — the laws of laying over.
* **`merge?`** — the tree that a merge at the root makes, if it is accepted.
* **`merge_laws`** — the laws of merging, acceptance included.
-/

namespace ParamStore.Tree

-- ── Conflicts ─────────────────────────────────────────────────────────────────────

theorem crossed_comm {a b : Tree} {parents : List String} {name : String} :
    Crossed a b parents name ↔ Crossed b a parents name := by
  unfold Crossed
  rw [or_comm, and_comm, @and_comm (_ = true) ((b.nodeAt? _).isSome = true)]

theorem doubled_comm {a b : Tree} {parents : List String} {name : String} :
    Doubled a b parents name ↔ Doubled b a parents name := and_comm

/-- **Fitting does not depend on the side.** -/
theorem fits_comm {overwrite : Bool} {a b : Tree} : Fits overwrite a b ↔ Fits overwrite b a := by
  have swap : ∀ {a b : Tree}, Fits overwrite a b → Fits overwrite b a := by
    rintro a b ⟨huncrossed, hundoubled⟩
    refine ⟨fun parents name h => huncrossed parents name (crossed_comm.mp h), ?_⟩
    exact hundoubled.imp_right fun hnone parents name h => hnone parents name (doubled_comm.mp h)
  exact ⟨swap, swap⟩

/-- What fits without leave fits with leave too. -/
theorem Fits.of_false {a b : Tree} (h : Fits false a b) (overwrite : Bool) :
    Fits overwrite a b :=
  ⟨h.uncrossed, Or.inr (h.undoubled.resolve_left Bool.false_ne_true)⟩

section Overlay

variable {overwrite : Bool} {a b c : Tree}

/-- A merged tree crosses a third one where one of its parts does. -/
theorem crossed_overlay_left (hb : b.WellFormed) {parents : List String} {name : String} :
    Crossed (a.overlay b) c parents name
      ↔ Crossed a c parents name ∨ Crossed b c parents name := by
  unfold Crossed
  rw [valueAt?_overlay hb, isSome_nodeAt?_overlay hb, Option.isSome_or, Bool.or_eq_true,
    Bool.or_eq_true]
  tauto

theorem doubled_overlay_left (hb : b.WellFormed) {parents : List String} {name : String} :
    Doubled (a.overlay b) c parents name
      ↔ Doubled a c parents name ∨ Doubled b c parents name := by
  unfold Doubled
  rw [valueAt?_overlay hb, Option.isSome_or, Bool.or_eq_true]
  tauto

/-- **A tree fits over a merged one exactly if it fits over both parts.** -/
theorem fits_overlay_left (hb : b.WellFormed) :
    Fits overwrite (a.overlay b) c ↔ Fits overwrite a c ∧ Fits overwrite b c := by
  constructor
  · rintro ⟨huncrossed, hundoubled⟩
    refine ⟨⟨fun parents name h => ?_, ?_⟩, ⟨fun parents name h => ?_, ?_⟩⟩
    · exact huncrossed parents name ((crossed_overlay_left hb).mpr (Or.inl h))
    · refine hundoubled.imp_right fun hnone parents name h => hnone parents name ?_
      exact (doubled_overlay_left hb).mpr (Or.inl h)
    · exact huncrossed parents name ((crossed_overlay_left hb).mpr (Or.inr h))
    · refine hundoubled.imp_right fun hnone parents name h => hnone parents name ?_
      exact (doubled_overlay_left hb).mpr (Or.inr h)
  · rintro ⟨hac, hbc⟩
    refine ⟨fun parents name h => ?_, ?_⟩
    · rcases (crossed_overlay_left hb).mp h with h | h
      · exact hac.uncrossed parents name h
      · exact hbc.uncrossed parents name h
    · rcases hac.undoubled with hover | hac
      · exact Or.inl hover
      · refine hbc.undoubled.imp_right fun hbc parents name h => ?_
        exact ((doubled_overlay_left hb).mp h).elim (hac parents name) (hbc parents name)

/-- **A merged tree fits over a tree exactly if both parts do.** -/
theorem fits_overlay_right (hc : c.WellFormed) :
    Fits overwrite a (b.overlay c) ↔ Fits overwrite a b ∧ Fits overwrite a c := by
  rw [fits_comm, fits_overlay_left hc, fits_comm, @fits_comm _ c]

/-- Every value of the second tree is that value of the first one, and every place of a sub-tree of
    the second is one of the first. -/
structure Covers (t part : Tree) : Prop where
  values : ∀ {parents name value}, part.valueAt? parents name = some value →
    t.valueAt? parents name = some value
  nodes : ∀ {path}, (part.nodeAt? path).isSome = true → (t.nodeAt? path).isSome = true

theorem Covers.refl (t : Tree) : t.Covers t := ⟨id, id⟩

/-- What a well-formed tree covers fits over it if values may be replaced. -/
theorem Covers.fits (h : a.Covers b) (ha : a.WellFormed) : Fits true a b := by
  refine ⟨fun parents name hcrossed => ?_, Or.inl rfl⟩
  -- whichever tree has the value, the first one has both the value and the sub-tree
  have both : (a.valueAt? parents name).isSome = true
      ∧ (a.nodeAt? (parents ++ [name])).isSome = true := by
    rcases hcrossed with ⟨hvalue, hnode⟩ | ⟨hnode, hvalue⟩
    · exact ⟨hvalue, h.nodes hnode⟩
    · obtain ⟨value, hvalue⟩ := Option.isSome_iff_exists.mp hvalue
      exact ⟨by rw [h.values hvalue]; rfl, hnode⟩
  obtain ⟨value, hvalue⟩ := Option.isSome_iff_exists.mp both.1
  rw [ha.nodeAt?_eq_none_of_valueAt? hvalue] at both
  cases both.2

/-- A well-formed tree fits over itself if values may be replaced. -/
theorem fits_self (ha : a.WellFormed) : Fits true a a := (Covers.refl a).fits ha

-- ── Laying over ───────────────────────────────────────────────────────────────────

/-- **Order does not matter** where no value is replaced. -/
theorem overlay_comm (ha : a.WellFormed) (hb : b.WellFormed) (h : Fits false a b) :
    a.overlay b = b.overlay a := by
  refine (overlay_wellFormed ha hb h).eq_of_views
    (overlay_wellFormed hb ha (fits_comm.mp h)) (fun parents name => ?_) fun path => ?_
  · -- at most one of the two has a value here
    have hnot := h.undoubled.resolve_left Bool.false_ne_true parents name
    rw [valueAt?_overlay hb, valueAt?_overlay ha]
    unfold Doubled at hnot
    cases hva : a.valueAt? parents name with
    | none => rw [Option.or_none, Option.none_or]
    | some value =>
        cases hvb : b.valueAt? parents name with
        | none => rw [Option.or_none, Option.none_or]
        | some value' => exact absurd ⟨by rw [hva]; rfl, by rw [hvb]; rfl⟩ hnot
  · rw [isSome_nodeAt?_overlay hb, isSome_nodeAt?_overlay ha, Bool.or_comm]

/-- **Grouping does not matter.** -/
theorem overlay_assoc (ha : a.WellFormed) (hb : b.WellFormed) (hc : c.WellFormed)
    (hab : Fits overwrite a b) (hac : Fits overwrite a c) (hbc : Fits overwrite b c) :
    (a.overlay b).overlay c = a.overlay (b.overlay c) := by
  have hbc' := overlay_wellFormed hb hc hbc
  have hleft : ((a.overlay b).overlay c).WellFormed :=
    overlay_wellFormed (overlay_wellFormed ha hb hab) hc ((fits_overlay_left hb).mpr ⟨hac, hbc⟩)
  have hright : (a.overlay (b.overlay c)).WellFormed :=
    overlay_wellFormed ha hbc' ((fits_overlay_right hc).mpr ⟨hab, hac⟩)
  refine hleft.eq_of_views hright (fun parents name => ?_) fun path => ?_
  · rw [valueAt?_overlay hc, valueAt?_overlay hb, valueAt?_overlay hbc', valueAt?_overlay hc,
      Option.or_assoc]
  · rw [isSome_nodeAt?_overlay hc, isSome_nodeAt?_overlay hb, isSome_nodeAt?_overlay hbc',
      isSome_nodeAt?_overlay hc, Bool.or_assoc]

/-- **Laying over a tree what it covers changes nothing.** -/
theorem Covers.overlay (h : a.Covers b) (ha : a.WellFormed) (hb : b.WellFormed) :
    a.overlay b = a := by
  refine (overlay_wellFormed ha hb (h.fits ha)).eq_of_views ha (fun parents name => ?_)
    fun path => ?_
  · rw [valueAt?_overlay hb]
    cases hvalue : b.valueAt? parents name with
    | none => rw [Option.none_or]
    | some value => rw [h.values hvalue, Option.some_or]
  · rw [isSome_nodeAt?_overlay hb]
    cases hnode : (b.nodeAt? path).isSome with
    | false => rw [Bool.or_false]
    | true => rw [h.nodes hnode, Bool.or_true]

/-- **Laying a tree over itself changes nothing.** -/
theorem overlay_self (ha : a.WellFormed) : a.overlay a = a := (Covers.refl a).overlay ha ha

theorem empty_overlay (ha : a.WellFormed) : empty.overlay a = a := by
  refine (overlay_wellFormed wellFormed_empty ha (fits_empty true a)).eq_of_views ha
    (fun parents name => ?_) fun path => ?_
  · rw [valueAt?_overlay ha, valueAt?_empty, Option.or_none]
  · rw [isSome_nodeAt?_overlay ha]
    cases path <;> rfl

theorem overlay_empty (a : Tree) : a.overlay empty = a := by
  rw [empty, overlay, overlaySubs]
  exact node_values_subs a

end Overlay

-- ── Merging ───────────────────────────────────────────────────────────────────────

/-- The tree that a merge at the root makes of two trees; none if it is refused. -/
def merge? (overwrite : Bool) (a b : Tree) : Option Tree :=
  let merged := a.merge b "" overwrite
  if merged.succeeds then some merged.state else none

theorem merge?_eq_some_iff {overwrite : Bool} {a b : Tree} (hb : b.WellFormed) {t : Tree} :
    merge? overwrite a b = some t ↔ Fits overwrite a b ∧ a.overlay b = t := by
  rw [← merge_root_succeeds_iff hb, merge?]
  split
  · next h => rw [merge_root_state h]; simp [h]
  · next h => simp [h]

section Laws

variable {overwrite : Bool} {a b c t : Tree}

theorem merge?_comm (ha : a.WellFormed) (hb : b.WellFormed) :
    merge? false a b = merge? false b a := by
  refine Option.ext fun t => ?_
  rw [merge?_eq_some_iff hb, merge?_eq_some_iff ha, @fits_comm _ b]
  exact and_congr_right fun h => by rw [overlay_comm ha hb h]

/-- The third tree merged into the first two: all three fit, whichever way they are paired. -/
theorem merge?_left_eq_some_iff (hb : b.WellFormed) (hc : c.WellFormed) :
    (merge? overwrite a b).bind (merge? overwrite · c) = some t ↔
      (Fits overwrite a b ∧ Fits overwrite a c ∧ Fits overwrite b c)
        ∧ (a.overlay b).overlay c = t := by
  rw [Option.bind_eq_some_iff]
  constructor
  · rintro ⟨ab, hab, ht⟩
    obtain ⟨hfits, rfl⟩ := (merge?_eq_some_iff hb).mp hab
    obtain ⟨hboth, rfl⟩ := (merge?_eq_some_iff hc).mp ht
    obtain ⟨hac, hbc⟩ := (fits_overlay_left hb).mp hboth
    exact ⟨⟨hfits, hac, hbc⟩, rfl⟩
  · rintro ⟨⟨hab, hac, hbc⟩, rfl⟩
    refine ⟨a.overlay b, (merge?_eq_some_iff hb).mpr ⟨hab, rfl⟩, ?_⟩
    exact (merge?_eq_some_iff hc).mpr ⟨(fits_overlay_left hb).mpr ⟨hac, hbc⟩, rfl⟩

/-- The last two trees merged into the first: the same three pairs have to fit. -/
theorem merge?_right_eq_some_iff (hb : b.WellFormed) (hc : c.WellFormed) :
    (merge? overwrite b c).bind (merge? overwrite a) = some t ↔
      (Fits overwrite a b ∧ Fits overwrite a c ∧ Fits overwrite b c)
        ∧ a.overlay (b.overlay c) = t := by
  rw [Option.bind_eq_some_iff]
  constructor
  · rintro ⟨bc, hbc, ht⟩
    obtain ⟨hfits, rfl⟩ := (merge?_eq_some_iff hc).mp hbc
    obtain ⟨hboth, rfl⟩ := (merge?_eq_some_iff (overlay_wellFormed hb hc hfits)).mp ht
    obtain ⟨hab, hac⟩ := (fits_overlay_right hc).mp hboth
    exact ⟨⟨hab, hac, hfits⟩, rfl⟩
  · rintro ⟨⟨hab, hac, hbc⟩, rfl⟩
    refine ⟨b.overlay c, (merge?_eq_some_iff hc).mpr ⟨hbc, rfl⟩, ?_⟩
    refine (merge?_eq_some_iff (overlay_wellFormed hb hc hbc)).mpr ⟨?_, rfl⟩
    exact (fits_overlay_right hc).mpr ⟨hab, hac⟩

/-- **Both groupings of three trees are accepted or neither is**, and they make the same tree. -/
theorem merge?_assoc (ha : a.WellFormed) (hb : b.WellFormed) (hc : c.WellFormed)
    (overwrite : Bool) : (merge? overwrite a b).bind (merge? overwrite · c)
      = (merge? overwrite b c).bind (merge? overwrite a) := by
  refine Option.ext fun t => ?_
  rw [merge?_left_eq_some_iff hb hc, merge?_right_eq_some_iff hb hc]
  refine and_congr_right ?_
  rintro ⟨hab, hac, hbc⟩
  rw [overlay_assoc ha hb hc hab hac hbc]

theorem merge?_self (ha : a.WellFormed) : merge? true a a = some a :=
  (merge?_eq_some_iff ha).mpr ⟨fits_self ha, overlay_self ha⟩

/-- A second merge of the same tree is the first one of the tree merged into itself. -/
theorem merge?_again (ha : a.WellFormed) (hb : b.WellFormed) (h : merge? true a b = some t) :
    merge? true t b = some t := by
  calc merge? true t b
      = (merge? true a b).bind (merge? true · b) := by rw [h]; rfl
    _ = (merge? true b b).bind (merge? true a) := merge?_assoc ha hb hb true
    _ = merge? true a b := by rw [merge?_self hb]; rfl
    _ = some t := h

end Laws

/-- **The laws of merging.** Without leave to replace, order does not matter; with or without,
    grouping does not; with it, a tree merged into itself or once more changes nothing.
    Where one side is refused, so is the other. -/
theorem merge_laws {a b c : Tree} (ha : a.Reachable) (hb : b.Reachable) (hc : c.Reachable) :
    merge? false a b = merge? false b a
      ∧ (∀ overwrite, (merge? overwrite a b).bind (merge? overwrite · c)
        = (merge? overwrite b c).bind (merge? overwrite a))
      ∧ merge? true a a = some a
      ∧ ∀ ab, merge? true a b = some ab → merge? true ab b = some ab :=
  ⟨merge?_comm ha.wellFormed hb.wellFormed,
    merge?_assoc ha.wellFormed hb.wellFormed hc.wellFormed,
    merge?_self ha.wellFormed,
    fun _ h => merge?_again ha.wellFormed hb.wellFormed h⟩

/-- Three trees that meet in a sub-tree, and a value that two of them have. -/
theorem merge_laws_below :
    let a := (empty.set "s.x" "1" false).state
    let b := (empty.set "s.t.y" "2" false).state
    let c := ((empty.set "s.x" "3" false).state.set "k" "4" false).state
    a.Reachable ∧ b.Reachable ∧ c.Reachable
      ∧ merge? false a b = merge? false b a ∧ (merge? false a b).isSome = true
      ∧ (merge? false a b).bind (merge? false · c) = none
      ∧ (merge? true a b).bind (merge? true · c) = (merge? true b c).bind (merge? true a)
      ∧ ((merge? true b c).bind (merge? true a)).map (·.get? "s.x") = some (some "3")
      ∧ merge? true c c = some c
      ∧ (merge? true a c).bind (merge? true · c) = merge? true a c := by
  intro a b c
  have ha : a.Reachable := .set .empty "s.x" "1" false
  have hb : b.Reachable := .set .empty "s.t.y" "2" false
  have hc : c.Reachable := .set (.set .empty "s.x" "3" false) "k" "4" false
  obtain ⟨hcomm, hassoc, -, -⟩ := merge_laws ha hb hc
  obtain ⟨-, -, hself, -⟩ := merge_laws hc hb ha
  obtain ⟨-, -, -, hagain⟩ := merge_laws ha hc hb
  have hac : merge? true a c = some (a.overlay c) := by decide +kernel
  refine ⟨ha, hb, hc, hcomm, by decide +kernel, ?_, hassoc true, by decide +kernel, hself, ?_⟩
  · rw [hassoc]
    decide +kernel
  · rw [hac]
    exact (hagain _ hac)

end ParamStore.Tree
