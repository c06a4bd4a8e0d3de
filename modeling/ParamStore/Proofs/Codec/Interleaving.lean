import ParamStore.Proofs.Codec.Parts

/-!
# Interleaving — a cut takes away separators at depth zero and nothing else

What a cut leaves out can be put back: between any two neighbouring parts exactly one character is
    missing, and the parts with these characters between them are the text. So a cut is known
    from the places of the missing characters. The depth of the scan alone says which ones these
    are, whether the brackets of the text match or not, because the parts are scanned as they
    stood in the text. Where they do match, they match in every part.

* **`interleave`** — parts with a character between any two.
* **`gaps`** — the places of these characters in the whole; `getElem?_gaps` says that they are there.
* **`mem_gaps_cutFrom`** — the places at which a cut stops, from any depth.
* **`cutFrom_balanced`** — the parts of a text with matching brackets.
* **`cut_is_lossless`** — what a cut does to a text.
-/

namespace ParamStore.Literal

/-- Parts with a character between any two of them. -/
def interleave : List (List Char) → List Char → List Char
  | [], _ => []
  | part :: _, [] => part
  | part :: more, c :: between => part ++ c :: interleave more between

/-- The places between the parts, counted from the start of the whole in which one character stands
    at each of them. -/
def gaps : List (List Char) → List Nat
  | [] => []
  | [_] => []
  | part :: next :: more =>
    part.length :: (gaps (next :: more)).map fun i => part.length + 1 + i

variable {separates : Char → Bool}

-- ── Putting parts together ────────────────────────────────────────────────────────

theorem interleave_grow (c : Char) {parts : List (List Char)} (h : parts ≠ [])
    (between : List Char) : interleave (grow c parts) between = c :: interleave parts between := by
  obtain ⟨part, more, rfl⟩ := List.exists_cons_of_ne_nil h
  cases between with
  | nil => rfl
  | cons d between => rfl

theorem length_grow (c : Char) {parts : List (List Char)} (h : parts ≠ []) :
    (grow c parts).length = parts.length := by
  obtain ⟨part, more, rfl⟩ := List.exists_cons_of_ne_nil h
  rfl

/-- A longer first part moves all places. -/
theorem gaps_grow (c : Char) {parts : List (List Char)} (h : parts ≠ []) :
    gaps (grow c parts) = (gaps parts).map (· + 1) := by
  obtain ⟨part, more, rfl⟩ := List.exists_cons_of_ne_nil h
  cases more with
  | nil => rfl
  | cons next more =>
      rw [grow, gaps, gaps, List.map_cons, List.map_map, List.length_cons]
      refine congrArg _ (List.map_congr_left fun i _ => ?_)
      show part.length + 1 + 1 + i = part.length + 1 + i + 1
      omega

/-- Behind an empty first part a place comes before all others. -/
theorem gaps_nil_cons {parts : List (List Char)} (h : parts ≠ []) :
    gaps ([] :: parts) = 0 :: (gaps parts).map (· + 1) := by
  obtain ⟨part, more, rfl⟩ := List.exists_cons_of_ne_nil h
  rw [gaps, List.length_nil]
  refine congrArg _ (List.map_congr_left fun i _ => ?_)
  rw [Nat.zero_add, Nat.add_comm]

/-- **In the whole, the characters between the parts stand at the places between them.** -/
theorem getElem?_gaps {parts : List (List Char)} {between : List Char}
    (h : parts.length = between.length + 1) :
    (gaps parts).map ((interleave parts between)[·]?) = between.map some := by
  induction between generalizing parts with
  | nil =>
      obtain ⟨part, rfl⟩ := List.length_eq_one_iff.mp h
      rfl
  | cons c between ih =>
      obtain ⟨part, next, more, rfl⟩ : ∃ part next more, parts = part :: next :: more := by
        match parts, h with
        | part :: next :: more, _ => exact ⟨part, next, more, rfl⟩
      have hrest : (next :: more).length = between.length + 1 := Nat.succ.inj h
      rw [gaps, interleave, List.map_cons, List.map_map, List.map_cons, ← ih hrest]
      congr 1
      · rw [List.getElem?_append_right (Nat.le_refl _), Nat.sub_self, List.getElem?_cons_zero]
      · refine List.map_congr_left fun i _ => ?_
        show (part ++ c :: interleave (next :: more) between)[part.length + 1 + i]? = _
        rw [List.getElem?_append_right (by omega), Nat.add_assoc, Nat.add_sub_cancel_left,
          Nat.add_comm, List.getElem?_cons_succ]

-- ── What a cut takes away ─────────────────────────────────────────────────────────

/-- **Between the parts of a cut one character each is missing**, from any depth. -/
theorem exists_interleave_cutFrom (separates : Char → Bool) (d : Nat) (cs : List Char) :
    ∃ between, (cutFrom separates d cs).length = between.length + 1
      ∧ interleave (cutFrom separates d cs) between = cs := by
  induction cs generalizing d with
  | nil => exact ⟨[], rfl, rfl⟩
  | cons c cs ih =>
      rcases stops_or_passes separates d c with ⟨hopen, hclose, rfl, hc⟩ | hpasses
      · obtain ⟨between, hlength, hwhole⟩ := ih 0
        rw [cutFrom_cons_of_stops hopen hclose hc]
        refine ⟨c :: between, congrArg (· + 1) hlength, ?_⟩
        rw [interleave, hwhole, List.nil_append]
      · obtain ⟨between, hlength, hwhole⟩ := ih (shift d c)
        have hne := cutFrom_ne_nil separates (shift d c) cs
        rw [cutFrom_cons_of_passes hpasses]
        exact ⟨between, (length_grow c hne).trans hlength,
          (interleave_grow c hne between).trans (congrArg (c :: ·) hwhole)⟩

/-- **A cut stops at the separators before which the depth is zero**, and nowhere else. -/
theorem mem_gaps_cutFrom (hopens : separates '[' = false) (hcloses : separates ']' = false)
    {d : Nat} {cs : List Char} {i : Nat} : i ∈ gaps (cutFrom separates d cs) ↔
      ∃ c, cs[i]? = some c ∧ separates c = true ∧ openAfter d (cs.take i) = 0 := by
  induction cs generalizing d i with
  | nil => simp [cutFrom, gaps]
  | cons c cs ih =>
      have hne := cutFrom_ne_nil separates
      rcases stops_or_passes separates d c with ⟨hopen, hclose, rfl, hc⟩ | hpasses
      · rw [cutFrom_cons_of_stops hopen hclose hc, gaps_nil_cons (hne 0 cs)]
        cases i with
        | zero => exact iff_of_true List.mem_cons_self ⟨c, rfl, hc, rfl⟩
        | succ i => simp [ih, openAfter_cons, shift_plain hopen hclose]
      · rw [cutFrom_cons_of_passes hpasses, gaps_grow c (hne _ cs)]
        cases i with
        | zero =>
            -- the first character is a bracket, or stands within one, or does not separate
            refine iff_of_false (by simp) ?_
            rintro ⟨e, he, hsep, hdepth⟩
            obtain rfl := Option.some.inj he
            have hopen : c ≠ '[' := by
              rintro rfl
              exact Bool.eq_false_iff.mp hopens hsep
            have hclose : c ≠ ']' := by
              rintro rfl
              exact Bool.eq_false_iff.mp hcloses hsep
            exact Bool.eq_false_iff.mp (hpasses hopen hclose hdepth) hsep
        | succ i => simp [ih, openAfter_cons]

-- ── Matching brackets ─────────────────────────────────────────────────────────────

/-- **Where a text closes all that is open, its parts do.** The first part closes what is open
    before the text, and the others open and close their own brackets. -/
theorem cutFrom_balanced {d : Nat} {cs : List Char} (h : depthAfter d cs = some 0) :
    ∃ first more, cutFrom separates d cs = first :: more ∧ depthAfter d first = some 0
      ∧ ∀ part ∈ more, Balanced part := by
  induction cs generalizing d with
  | nil => exact ⟨[], [], rfl, h, fun _ hpart => absurd hpart List.not_mem_nil⟩
  | cons c cs ih =>
      rw [depthAfter_cons] at h
      obtain ⟨e, he, hrest⟩ := Option.bind_eq_some_iff.mp h
      rcases stops_or_passes separates d c with ⟨hopen, hclose, rfl, hc⟩ | hpasses
      · rw [descend_plain hopen hclose] at he
        obtain rfl := Option.some.inj he
        obtain ⟨first, more, hcut, hfirst, hmore⟩ := ih hrest
        refine ⟨[], first :: more, ?_, rfl, List.forall_mem_cons.mpr ⟨hfirst, hmore⟩⟩
        rw [cutFrom_cons_of_stops hopen hclose hc, hcut]
      · obtain ⟨first, more, hcut, hfirst, hmore⟩ := ih hrest
        refine ⟨c :: first, more, ?_, ?_, hmore⟩
        · rw [cutFrom_cons_of_passes hpasses, shift_of_descend he, hcut, grow]
        · rw [depthAfter_cons, he]
          exact hfirst

-- ── The whole ─────────────────────────────────────────────────────────────────────

/-- **A cut loses nothing but separators at depth zero.** There is always a part; the parts with one
    character between any two are the text; these characters stand at the places where the text
    has a separator before which the depth is zero, a closing bracket too many aside; and where the
    brackets of the text match, those of every part do. -/
theorem cut_is_lossless (hopens : separates '[' = false) (hcloses : separates ']' = false)
    (cs : List Char) :
    cutTop separates cs ≠ []
    ∧ (∃ between, (cutTop separates cs).length = between.length + 1
      ∧ interleave (cutTop separates cs) between = cs
      ∧ (gaps (cutTop separates cs)).map (cs[·]?) = between.map some)
    ∧ (∀ i, i ∈ gaps (cutTop separates cs) ↔
      ∃ c, cs[i]? = some c ∧ separates c = true ∧ openAfter 0 (cs.take i) = 0)
    ∧ (Balanced cs → ∀ part ∈ cutTop separates cs, Balanced part) := by
  refine ⟨cutFrom_ne_nil separates 0 cs, ?_, fun i => mem_gaps_cutFrom hopens hcloses, ?_⟩
  · obtain ⟨between, hlength, hwhole⟩ := exists_interleave_cutFrom separates 0 cs
    refine ⟨between, hlength, hwhole, ?_⟩
    have hplaces := getElem?_gaps hlength
    rwa [hwhole] at hplaces
  · intro hbalanced
    obtain ⟨first, more, hcut, hfirst, hmore⟩ := cutFrom_balanced hbalanced
    rw [cutTop, hcut]
    exact List.forall_mem_cons.mpr ⟨hfirst, hmore⟩

/-- A text in which a bracket is closed that was never opened and one is left open, and a text whose
    brackets match. -/
theorem cut_is_lossless_unmatched :
    let separates : Char → Bool := (· = ';')
    let torn := "]é;[b;c]d;[e;".toList
    let whole := "[a;b];[[c];]".toList
    separates '[' = false ∧ separates ']' = false
      ∧ (∃ between, (cutTop separates torn).length = between.length + 1
        ∧ interleave (cutTop separates torn) between = torn)
      ∧ gaps (cutTop separates torn) = [2, 9]
      ∧ (∀ i, (∃ c, torn[i]? = some c ∧ separates c = true ∧ openAfter 0 (torn.take i) = 0)
        ↔ i ∈ [2, 9])
      ∧ cutTop separates whole = ["[a;b]".toList, "[[c];]".toList]
      ∧ ∀ part ∈ ["[a;b]".toList, "[[c];]".toList], Balanced part := by
  intro separates torn whole
  obtain ⟨-, ⟨between, hlength, htorn, -⟩, hplaces, -⟩ := @cut_is_lossless separates rfl rfl torn
  obtain ⟨-, -, -, hparts⟩ := @cut_is_lossless separates rfl rfl whole
  have hgaps : gaps (cutTop separates torn) = [2, 9] := by decide +kernel
  have hwhole : cutTop separates whole = ["[a;b]".toList, "[[c];]".toList] := by decide +kernel
  rw [hgaps] at hplaces
  rw [hwhole] at hparts
  exact ⟨rfl, rfl, ⟨between, hlength, htorn⟩, hgaps, fun i => (hplaces i).symm, hwhole,
    hparts (by decide +kernel)⟩

end ParamStore.Literal
