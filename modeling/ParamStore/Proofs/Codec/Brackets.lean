import ParamStore.Codec.Literal
import ParamStore.Proofs.Text.Trimming

/-!
# Brackets — the depth of a scan and the texts that are whole

A scan of a text goes one deeper at every opening bracket and one back at every closing one. A
    text is balanced if its scan never closes what was not opened and closes all that was. A
    balanced text is whole if no separator stands outside its brackets; within them there may be
    some.

* **`depthAfter`** — the scan; `depthAfter_append` and `depthAfter_add` are its two laws.
* **`Whole`** — balanced, and without a separator outside the brackets.
* **`Closed`** — the trimmed texts that are whole for semicolons; `closed_enclose` says that
  brackets around a balanced text make one.
* **`inner_of_enclosed`**, **`inner_of_plain`**, **`inner_of_lone`** — which texts are literals, by
  the two ends of the trimmed text; `inner_cases` says that there are no others.
-/

namespace ParamStore.Literal

/-- The depth after one character, none if it closes a bracket that was not opened. -/
def descend (depth : Nat) (c : Char) : Option Nat :=
  if c = '[' then some (depth + 1)
  else if c = ']' then (if depth = 0 then none else some (depth - 1))
  else some depth

/-- The depth after a text, none if it closes a bracket that was not opened. -/
def depthAfter (depth : Nat) (cs : List Char) : Option Nat := cs.foldlM descend depth

/-- Every closing bracket closes an opened one, and every opened one is closed. -/
def Balanced (cs : List Char) : Prop := depthAfter 0 cs = some 0

/-- No separator stands at depth zero when the text is scanned from a given depth. -/
def Uncut (separates : Char → Bool) (depth : Nat) (cs : List Char) : Prop :=
  ∀ i, (h : i < cs.length) → depthAfter depth (cs.take i) = some 0 → separates cs[i] = false

instance (cs : List Char) : Decidable (Balanced cs) :=
  inferInstanceAs (Decidable (depthAfter 0 cs = some 0))

instance (separates : Char → Bool) (depth : Nat) (cs : List Char) :
    Decidable (Uncut separates depth cs) :=
  inferInstanceAs (Decidable (∀ i, (h : i < cs.length) → _ → _))

/-- Brackets are balanced and no separator stands outside them. -/
structure Whole (separates : Char → Bool) (cs : List Char) : Prop where
  balanced : Balanced cs
  uncut : Uncut separates 0 cs

/-- No blank at an end, balanced brackets, and no semicolon outside them. -/
structure Closed (cs : List Char) : Prop where
  trimmed : Text.Trimmed cs
  balanced : Balanced cs
  uncut : Uncut (· = ';') 0 cs

instance (cs : List Char) : Decidable (Closed cs) :=
  decidable_of_iff (Text.Trimmed cs ∧ Balanced cs ∧ Uncut (· = ';') 0 cs)
    ⟨fun ⟨h, h', h''⟩ => ⟨h, h', h''⟩, fun h => ⟨h.trimmed, h.balanced, h.uncut⟩⟩

theorem Closed.whole {cs : List Char} (h : Closed cs) : Whole (· = ';') cs :=
  ⟨h.balanced, h.uncut⟩

-- ── The scan ──────────────────────────────────────────────────────────────────────

theorem depthAfter_cons (d : Nat) (c : Char) (cs : List Char) :
    depthAfter d (c :: cs) = (descend d c).bind fun e => depthAfter e cs := rfl

/-- **The scan of two texts in a row** goes on from where the first one ends. -/
theorem depthAfter_append (d : Nat) (cs ds : List Char) :
    depthAfter d (cs ++ ds) = (depthAfter d cs).bind fun e => depthAfter e ds := by
  rw [depthAfter, List.foldlM_append]
  rfl

theorem descend_plain {c : Char} (hopen : c ≠ '[') (hclose : c ≠ ']') (d : Nat) :
    descend d c = some d := by
  rw [descend, if_neg hopen, if_neg hclose]

theorem descend_add {d e : Nat} {c : Char} (h : descend d c = some e) (k : Nat) :
    descend (d + k) c = some (e + k) := by
  rw [descend] at h ⊢
  by_cases hopen : c = '['
  · rw [if_pos hopen] at h ⊢
    obtain rfl := Option.some.inj h
    rw [Nat.add_right_comm]
  · rw [if_neg hopen] at h ⊢
    by_cases hclose : c = ']'
    · rw [if_pos hclose] at h ⊢
      by_cases hd : d = 0
      · rw [if_pos hd] at h
        exact absurd h (by simp)
      · rw [if_neg hd] at h
        obtain rfl := Option.some.inj h
        rw [if_neg (by omega)]
        exact congrArg some (by omega)
    · rw [if_neg hclose] at h ⊢
      obtain rfl := Option.some.inj h
      rfl

/-- **A scan that starts deeper ends deeper by as much.** -/
theorem depthAfter_add {d e : Nat} {cs : List Char} (h : depthAfter d cs = some e) (k : Nat) :
    depthAfter (d + k) cs = some (e + k) := by
  induction cs generalizing d with
  | nil =>
      obtain rfl := Option.some.inj h
      rfl
  | cons c cs ih =>
      obtain ⟨m, hm, hrest⟩ := Option.bind_eq_some_iff.mp h
      rw [depthAfter_cons, descend_add hm]
      exact ih hrest

/-- A scan that ends has a depth after every character. -/
theorem exists_depthAfter_take {d e : Nat} {cs : List Char} (h : depthAfter d cs = some e)
    (i : Nat) : ∃ m, depthAfter d (cs.take i) = some m := by
  rw [← List.take_append_drop i cs, depthAfter_append] at h
  obtain ⟨m, hm, _⟩ := Option.bind_eq_some_iff.mp h
  exact ⟨m, hm⟩

-- ── Balanced texts ────────────────────────────────────────────────────────────────

/-- A balanced text leaves every depth as it is. -/
theorem Balanced.depthAfter {cs : List Char} (h : Balanced cs) (d : Nat) :
    Literal.depthAfter d cs = some d := by
  have hshift := depthAfter_add h d
  rwa [Nat.zero_add] at hshift

theorem balanced_nil : Balanced [] := rfl

theorem balanced_plain {cs : List Char} (h : ∀ c ∈ cs, c ≠ '[' ∧ c ≠ ']') : Balanced cs := by
  induction cs with
  | nil => exact balanced_nil
  | cons c cs ih =>
      obtain ⟨hopen, hclose⟩ := h c List.mem_cons_self
      rw [Balanced, depthAfter_cons, descend_plain hopen hclose]
      exact ih fun d hd => h d (List.mem_cons_of_mem _ hd)

theorem Balanced.append {cs ds : List Char} (h : Balanced cs) (h' : Balanced ds) :
    Balanced (cs ++ ds) := by
  rw [Balanced, depthAfter_append, h]
  exact h'

/-- Balanced texts joined with a balanced one make a balanced text. -/
theorem balanced_intercalate {sep : List Char} (hsep : Balanced sep) {parts : List (List Char)}
    (h : ∀ part ∈ parts, Balanced part) : Balanced (sep.intercalate parts) := by
  induction parts with
  | nil => exact balanced_nil
  | cons part rest ih =>
      have hpart := h part List.mem_cons_self
      have hrest := ih fun p hp => h p (List.mem_cons_of_mem _ hp)
      cases rest with
      | nil => rwa [List.intercalate_singleton]
      | cons next more =>
          rw [List.intercalate_cons_cons]
          exact (hpart.append hsep).append hrest

-- ── Texts without a separator outside brackets ────────────────────────────────────

variable {separates : Char → Bool}

/-- The first character and the rest of a text without separators outside brackets. -/
theorem uncut_cons {d : Nat} {c : Char} {cs : List Char} :
    Uncut separates d (c :: cs) ↔
      (d = 0 → separates c = false) ∧ ∀ e, descend d c = some e → Uncut separates e cs := by
  constructor
  · intro h
    constructor
    · rintro rfl
      exact h 0 (Nat.zero_lt_succ _) rfl
    · intro e he i hi hdepth
      refine h (i + 1) (Nat.succ_lt_succ hi) ?_
      rw [List.take_succ_cons, depthAfter_cons, he]
      exact hdepth
  · rintro ⟨hc, hcs⟩ i hi hdepth
    cases i with
    | zero => exact hc (Option.some.inj hdepth)
    | succ i =>
        rw [List.take_succ_cons, depthAfter_cons] at hdepth
        obtain ⟨e, he, hrest⟩ := Option.bind_eq_some_iff.mp hdepth
        exact hcs e he i (Nat.lt_of_succ_lt_succ hi) hrest

/-- Two texts in a row hold no separator outside brackets if neither does. -/
theorem Uncut.append {d : Nat} {cs ds : List Char} (h : Uncut separates d cs)
    (h' : ∀ e, depthAfter d cs = some e → Uncut separates e ds) :
    Uncut separates d (cs ++ ds) := by
  induction cs generalizing d with
  | nil => exact h' d rfl
  | cons c cs ih =>
      rw [uncut_cons] at h
      refine uncut_cons.mpr ⟨h.1, ?_⟩
      intro e he
      refine ih (h.2 e he) ?_
      intro m hm
      refine h' m ?_
      rw [depthAfter_cons, he]
      exact hm

/-- **Within brackets a balanced text may hold separators**: its scan never comes back to depth
    zero. -/
theorem Balanced.uncut_inside {cs : List Char} (h : Balanced cs) (d : Nat) :
    Uncut separates (d + 1) cs := by
  intro i _ hdepth
  obtain ⟨m, hm⟩ := exists_depthAfter_take h i
  have hshift := depthAfter_add hm (d + 1)
  rw [Nat.zero_add, hdepth] at hshift
  exact absurd (Option.some.inj hshift) (by omega)

theorem uncut_plain {cs : List Char} (h : ∀ c ∈ cs, separates c = false) (d : Nat) :
    Uncut separates d cs :=
  fun i hi _ => h cs[i] (List.getElem_mem hi)

-- ── Closed texts ──────────────────────────────────────────────────────────────────

theorem trimmed_enclose (cs : List Char) : Text.Trimmed ('[' :: (cs ++ [']'])) :=
  Text.trimmed_of_ends (by decide) (by decide) cs

/-- **Brackets around a balanced text make a closed one.** -/
theorem closed_enclose {cs : List Char} (h : Balanced cs) : Closed ('[' :: (cs ++ [']'])) := by
  refine ⟨trimmed_enclose cs, ?_, ?_⟩
  · show depthAfter 1 (cs ++ [']']) = some 0
    rw [depthAfter_append, h.depthAfter]
    rfl
  · refine uncut_cons.mpr ⟨fun _ => by decide, ?_⟩
    rintro e he
    obtain rfl : 1 = e := Option.some.inj he
    exact (h.uncut_inside 0).append fun e _ =>
      uncut_plain (List.forall_mem_singleton.mpr (by decide)) e

theorem closed_plain {cs : List Char}
    (h : ∀ c ∈ cs, Text.isBlank c = false ∧ c ≠ '[' ∧ c ≠ ']' ∧ c ≠ ';') : Closed cs := by
  refine ⟨⟨?_, ?_⟩, ?_, ?_⟩
  · exact fun c hc => (h c (List.mem_of_mem_head? hc)).1
  · exact fun c hc => (h c (List.mem_of_mem_getLast? hc)).1
  · exact balanced_plain fun c hc => ⟨(h c hc).2.1, (h c hc).2.2.1⟩
  · exact uncut_plain (fun c hc => decide_eq_false (h c hc).2.2.2) 0

-- ── Literals ──────────────────────────────────────────────────────────────────────

/-- The trimmed text starts with an opening bracket. -/
def Opens (raw : String) : Prop := (Text.trim raw).toList.head? = some '['

/-- The trimmed text ends with a closing bracket. -/
def Closes (raw : String) : Prop := (Text.trim raw).toList.getLast? = some ']'

instance (raw : String) : Decidable (Opens raw) :=
  inferInstanceAs (Decidable (_ = some '['))

instance (raw : String) : Decidable (Closes raw) :=
  inferInstanceAs (Decidable (_ = some ']'))

/-- A text that opens and closes has two brackets, not one for both. -/
theorem exists_enclosed {raw : String} (hopens : Opens raw) (hcloses : Closes raw) :
    ∃ cs, (Text.trim raw).toList = '[' :: (cs ++ [']']) := by
  rw [Opens] at hopens
  rw [Closes] at hcloses
  obtain ⟨front, hfront⟩ := List.getLast?_eq_some_iff.mp hcloses
  cases front with
  | nil =>
      rw [hfront] at hopens
      exact absurd hopens (by decide)
  | cons c cs =>
      rw [hfront, List.cons_append, List.head?_cons] at hopens
      obtain rfl := Option.some.inj hopens
      exact ⟨cs, hfront⟩

/-- Two brackets enclose one text. -/
theorem eq_of_enclosed {raw : String} {cs ds : List Char}
    (h : (Text.trim raw).toList = '[' :: (cs ++ [']']))
    (h' : (Text.trim raw).toList = '[' :: (ds ++ [']'])) : cs = ds :=
  List.append_cancel_right (List.cons.inj (h.symm.trans h')).2

/-- **Two brackets enclose what stands between them.** -/
theorem inner_of_enclosed {raw : String} {cs : List Char}
    (h : (Text.trim raw).toList = '[' :: (cs ++ [']'])) : inner raw = .ok (some cs) := by
  have hlast : ('[' :: (cs ++ [']'])).getLast? = some ']' := by
    rw [← List.cons_append, List.getLast?_concat]
  rw [Text.toList_trim] at h
  unfold inner
  rw [h]
  dsimp only
  rw [hlast]
  simp

/-- **A text without either bracket is no literal.** -/
theorem inner_of_plain {raw : String} (hopens : ¬Opens raw) (hcloses : ¬Closes raw) :
    inner raw = .ok none := by
  rw [Opens, Text.toList_trim] at hopens
  rw [Closes, Text.toList_trim] at hcloses
  unfold inner
  simp only [beq_eq_false_iff_ne.mpr hopens, beq_eq_false_iff_ne.mpr hcloses]

/-- **One bracket without the other is refused.** -/
theorem inner_of_lone {raw : String} (h : ¬(Opens raw ↔ Closes raw)) :
    inner raw = .error (.malformedLiteral raw) := by
  rw [Opens, Closes, Text.toList_trim] at h
  unfold inner
  by_cases hopens : (Text.trimChars raw.toList).head? = some '['
  · have hcloses : (Text.trimChars raw.toList).getLast? ≠ some ']' := by
      intro hcloses
      exact h (iff_of_true hopens hcloses)
    simp only [beq_iff_eq.mpr hopens, beq_eq_false_iff_ne.mpr hcloses]
  · have hcloses : (Text.trimChars raw.toList).getLast? = some ']' := by
      by_contra hcloses
      exact h (iff_of_false hopens hcloses)
    simp only [beq_eq_false_iff_ne.mpr hopens, beq_iff_eq.mpr hcloses]

/-- **A text is of one of three kinds**: two brackets enclose something, there is neither, or one is
    alone. -/
theorem inner_cases (raw : String) :
    (Opens raw ∧ Closes raw
      ∧ ∃ cs, (Text.trim raw).toList = '[' :: (cs ++ [']']) ∧ inner raw = .ok (some cs))
    ∨ (¬Opens raw ∧ ¬Closes raw ∧ inner raw = .ok none)
    ∨ (¬(Opens raw ↔ Closes raw) ∧ inner raw = .error (.malformedLiteral raw)) := by
  by_cases hlone : Opens raw ↔ Closes raw
  · by_cases hopens : Opens raw
    · have hcloses := hlone.mp hopens
      obtain ⟨cs, hcs⟩ := exists_enclosed hopens hcloses
      exact .inl ⟨hopens, hcloses, cs, hcs, inner_of_enclosed hcs⟩
    · have hcloses := mt hlone.mpr hopens
      exact .inr (.inl ⟨hopens, hcloses, inner_of_plain hopens hcloses⟩)
  · exact .inr (.inr ⟨hlone, inner_of_lone hlone⟩)

/-- What is enclosed stands between two brackets. -/
theorem enclosed_of_inner {raw : String} {cs : List Char} (h : inner raw = .ok (some cs)) :
    (Text.trim raw).toList = '[' :: (cs ++ [']']) := by
  rcases inner_cases raw with ⟨-, -, ds, hds, hinner⟩ | ⟨-, -, hinner⟩ | ⟨-, hinner⟩
  · obtain rfl := Option.some.inj (Except.ok.inj (hinner.symm.trans h))
    exact hds
  · cases hinner.symm.trans h
  · cases hinner.symm.trans h

/-- Nothing else is refused. -/
theorem error_of_inner {raw : String} {e : Error} (h : inner raw = .error e) :
    e = .malformedLiteral raw := by
  rcases inner_cases raw with ⟨-, -, cs, -, hinner⟩ | ⟨-, -, hinner⟩ | ⟨-, hinner⟩
  · cases hinner.symm.trans h
  · cases hinner.symm.trans h
  · exact (Except.error.inj (hinner.symm.trans h)).symm

end ParamStore.Literal
