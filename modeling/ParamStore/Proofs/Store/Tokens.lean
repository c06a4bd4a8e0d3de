import ParamStore.Proofs.Codec.Shape
import ParamStore.Proofs.Store.Answers
import ParamStore.Proofs.Text.Runs

/-!
# Tokens — what a look-up of a list reads

A look-up of a list reads the runs between the separators of its caller, trimmed, the blank ones left
    out, and judges them one by one: there is a value for each of them, or the first one that
    fails tells why. Nothing else of the text counts. Separators next to others or at an end and
    blanks next to a separator or at an end are not seen; and as the text of a default is
    read just as a stored one is, it makes no difference whether it was written back.

* **`tokens_eq_kept`** — the tokens of a text are what is kept of its runs.
* **`JudgesEach`** — texts that are read and judged one by one; `judgesEach_readValid` is the look-up's
  way to do so.
* **`found_after_consult`** — a look-up reads the same text the second time.
* **`getList_reads_runs`** — all that the answer depends on.
-/

namespace ParamStore

-- ── Tokens ────────────────────────────────────────────────────────────────────────

namespace Literal

/-- The tokens of a text are its pieces, trimmed, the blank ones left out. -/
theorem tokens_eq (separators raw : String) : tokens separators raw
    = (Text.kept (Text.pieces (fun c => separators.toList.contains c) raw.toList)).map
        String.ofList := by
  rw [tokens, Text.map_trim_split, Text.kept, List.filter_map]
  refine congrArg _ (List.filter_congr fun piece _ => ?_)
  show (!(String.ofList piece).isEmpty) = !piece.isEmpty
  cases piece with
  | nil => rfl
  | cons c piece => simp

/-- **The tokens of a text are what is kept of its runs.** -/
theorem tokens_eq_kept {separators raw : String} {runs : List (List Char)}
    (h : Text.Runs (fun c => separators.toList.contains c) raw.toList runs) :
    tokens separators raw = (Text.kept runs).map String.ofList := by
  rw [tokens_eq, ← Text.kept_filter, ← h.eq_pieces]

/-- **Texts that are equal up to loose characters have the same tokens.** -/
theorem tokens_congr {separators raw raw' : String}
    (h : Relation.EqvGen (Text.Loosened fun c => separators.toList.contains c) raw.toList
      raw'.toList) : tokens separators raw = tokens separators raw' := by
  rw [tokens_eq, tokens_eq, Text.kept_pieces_eq h]

end Literal

namespace Store

variable {α : Type} [Codec α]

-- ── Texts judged one by one ───────────────────────────────────────────────────────

/-- The text is read as the value, and this is accepted. -/
def Passes (validator : Validator α) (text : String) (value : α) : Prop :=
  Codec.read text = .ok value ∧ validator.accepts value = true

/-- The text cannot be read, or what is read is turned down under the key. -/
def Fails (key : String) (validator : Validator α) (text : String) (e : Error) : Prop :=
  (Codec.read text : Except Error α) = .error e
    ∨ ∃ value, Codec.read text = .ok value ∧ validator.accepts value = false
      ∧ e = .rejected key validator.describe

/-- What comes of reading and judging texts in order: a value for each of them if all pass, or else
    the refusal of the first one that fails. -/
structure JudgesEach (key : String) (validator : Validator α) (texts : List String)
    (outcome : Except Error (List α)) : Prop where
  granted : (∃ values, outcome = .ok values)
    ↔ ∀ text ∈ texts, ∃ value, Passes validator text value
  values (values : List α) : outcome = .ok values
    ↔ List.Forall₂ (Passes validator) texts values
  refusal (e : Error) : outcome = .error e ↔ ∃ front text back, texts = front ++ text :: back
    ∧ (∀ earlier ∈ front, ∃ value, Passes validator earlier value)
    ∧ Fails key validator text e

omit [Codec α] in
theorem judge_eq_error_iff {key : String} {validator : Validator α} {r : Except Error α}
    {e : Error} : judge key validator r = .error e
      ↔ r = .error e ∨ ∃ value, r = .ok value ∧ validator.accepts value = false
        ∧ e = .rejected key validator.describe := by
  cases r with
  | error e' => simp [judge]
  | ok value =>
      rw [judge, validate]
      cases haccepts : validator.accepts value with
      | true =>
          refine iff_of_false (by simp) ?_
          rintro (hread | ⟨same, hsame, hrejects, -⟩)
          · cases hread
          · obtain rfl := Except.ok.inj hsame
            rw [haccepts] at hrejects
            cases hrejects
      | false =>
          constructor
          · intro h
            exact .inr ⟨value, rfl, haccepts, (Except.error.inj h).symm⟩
          · rintro (hread | ⟨_, -, -, rfl⟩)
            · cases hread
            · rfl

/-- Reading and judging is one reader. -/
theorem readValid_eq_mapM (key : String) (validator : Validator α) (texts : List String) :
    readValid key validator texts
      = texts.mapM fun text => judge key validator (Codec.read text) := by
  induction texts with
  | nil => rfl
  | cons text texts ih =>
      rw [readValid_cons, mapM_cons_eq]
      cases judge key validator (Codec.read text) with
      | error e => rfl
      | ok value => exact congrArg (Except.map (value :: ·)) ih

/-- There are values for all texts exactly if there is one for each. -/
theorem exists_forall₂_iff {validator : Validator α} {texts : List String} :
    (∃ values, List.Forall₂ (Passes validator) texts values)
      ↔ ∀ text ∈ texts, ∃ value, Passes validator text value := by
  induction texts with
  | nil => exact iff_of_true ⟨[], .nil⟩ fun _ htext => absurd htext List.not_mem_nil
  | cons text texts ih =>
      rw [List.forall_mem_cons, ← ih]
      constructor
      · rintro ⟨_, hvalues⟩
        obtain ⟨value, values, hvalue, hrest, -⟩ := List.forall₂_cons_left_iff.mp hvalues
        exact ⟨⟨value, hvalue⟩, values, hrest⟩
      · rintro ⟨⟨value, hvalue⟩, values, hrest⟩
        exact ⟨value :: values, .cons hvalue hrest⟩

/-- **A look-up of a list judges its texts one by one.** -/
theorem judgesEach_readValid (key : String) (validator : Validator α) (texts : List String) :
    JudgesEach key validator texts (readValid key validator texts) where
  granted := (exists_congr fun _ => readValid_eq_ok_iff).trans exists_forall₂_iff
  values _ := readValid_eq_ok_iff
  refusal e := by
    rw [readValid_eq_mapM, mapM_eq_error_iff]
    simp only [judge_eq_ok_iff, judge_eq_error_iff]
    rfl

-- ── The second time ───────────────────────────────────────────────────────────────

/-- **What a look-up finds is what it finds the second time**, the default's text standing in for
    what is absent. -/
theorem found_after_consult {s : Store} (h : s.tree.WellFormed) (r : Request) :
    ((s.consult r).2.1.tree.get? r.key).getD r.default = (s.tree.get? r.key).getD r.default := by
  rw [consult_tree_eq h]
  by_cases hwrites : s.writesBack r.key r.default = true
  · rw [if_pos hwrites]
    obtain ⟨habsent, hstored⟩ := Bool.and_eq_true_iff.mp hwrites
    have hnone : s.tree.get? r.key = none := by
      simpa [Tree.hasKey] using (Bool.and_eq_true_iff.mp habsent).2
    rw [Tree.get?_set_self hstored, hnone]
    rfl
  · rw [if_neg hwrites]

theorem found_after_getList {s : Store} (h : s.tree.WellFormed) (key : String) (default : α)
    (separators : String) (validator : Validator α) :
    ((s.getList key default separators validator).store.tree.get? key).getD (Codec.encode default)
      = (s.tree.get? key).getD (Codec.encode default) := by
  rw [getList_store]
  exact found_after_consult h (.unplaced key (Codec.encode default) validator.name)

/-- **A look-up of a list reads runs and nothing else.** With the stored text, or that of the default
    if there is none: the text has its runs between separators in one way, and what is kept of
    them is read and judged one by one. Texts that are equal up to loose characters are
    answered alike, wherever they stand; and the same look-up made again, on the store
    that it left, says the same. -/
theorem getList_reads_runs {s : Store} (h : s.Reachable) (key : String) (default : α)
    (separators : String) (validator : Validator α) :
    let raw := (s.tree.get? key).getD (Codec.encode default)
    let cut : Char → Bool := fun c => separators.toList.contains c
    let answer := s.getList key default separators validator
    (∃ runs, (∀ others, Text.Runs cut raw.toList others ↔ others = runs)
      ∧ JudgesEach key validator ((Text.kept runs).map String.ofList) answer.result)
    ∧ (∀ (s' : Store) (default' : α),
      Relation.EqvGen (Text.Loosened cut) raw.toList
          ((s'.tree.get? key).getD (Codec.encode default')).toList →
        (s'.getList key default' separators validator).result = answer.result)
    ∧ (answer.store.getList key default separators validator).result = answer.result := by
  intro raw cut answer
  have hanswer : answer.result = readValid key validator (Literal.tokens separators raw) :=
    getList_result s key default separators validator
  refine ⟨⟨_, fun others => Text.runs_iff, ?runs⟩, ?loose, ?again⟩
  case runs =>
    rw [hanswer, Literal.tokens_eq_kept (Text.runs_iff.mpr rfl)]
    exact judgesEach_readValid key validator _
  case loose =>
    intro s' default' hloose
    rw [hanswer, getList_result, Literal.tokens_congr hloose]
  case again => rw [hanswer, getList_result, found_after_getList h.tree.wellFormed]

/-- A default between whose separators there are blanks and nothing, at a store that keeps its
    defaults; the same with a separator more at its end; and a stored text whose second token
    is none of the type. -/
theorem getList_reads_runs_flags :
    let keeping := new { Options.quiet with recordDefaults := true }
    let stored := (empty.set "v" ";yes; maybe,perhaps" false).state
    let first := keeping.getList "v" " a;, b c ;;" ";," .any
    keeping.Reachable ∧ stored.Reachable
      ∧ first.result = .ok ["a", "b c"]
      ∧ first.store.tree.get? "v" = some " a;, b c ;;"
      ∧ (first.store.getList "v" " a;, b c ;;" ";," .any).result = .ok ["a", "b c"]
      ∧ (∀ s' : Store, s'.tree.get? "v" = some " a;, b c ;;;" → ∀ default : String,
        (s'.getList "v" default ";," .any).result = .ok ["a", "b c"])
      ∧ (stored.getList "v" true ";," .any).result
        = .error (.unreadable "maybe" "bool" "expected true/false, 1/0, yes/no or on/off") := by
  intro keeping stored first
  have hkeeping : keeping.Reachable := .ofTree .empty _
  have hstored : stored.Reachable := .set (.ofTree .empty .quiet) "v" ";yes; maybe,perhaps" false
  have hfirst : first.result = .ok ["a", "b c"] := by decide +kernel
  obtain ⟨-, hloose, hagain⟩ := getList_reads_runs hkeeping "v" " a;, b c ;;" ";," .any
  obtain ⟨⟨runs, hruns, heach⟩, -⟩ := getList_reads_runs hstored "v" true ";," .any
  refine ⟨hkeeping, hstored, hfirst, by decide +kernel, hagain.trans hfirst, ?_, ?_⟩
  · intro s' hs' default
    have hinsert := @Text.Loosened.insert (fun c => ";,".toList.contains c) " a;, b c ;;".toList []
      ';' (.inr (by simp)) (.inl (by decide))
    have hmore : " a;, b c ;;".toList ++ [';'] = " a;, b c ;;;".toList := by decide +kernel
    rw [List.append_nil, hmore] at hinsert
    have habsent : keeping.tree.get? "v" = none := by decide +kernel
    refine (hloose s' default ?_).trans hfirst
    rw [habsent, hs']
    exact .rel _ _ hinsert
  · have htaken := (hruns ["yes".toList, " maybe".toList, "perhaps".toList]).mp
      (Text.runs_iff.mpr (by decide +kernel))
    refine (heach.refusal _).mpr ⟨["yes"], "maybe", ["perhaps"], ?_, ?_, ?_⟩
    · rw [← htaken]
      decide +kernel
    · exact List.forall_mem_singleton.mpr ⟨true, by decide +kernel, rfl⟩
    · exact .inl (by decide +kernel)

end Store

end ParamStore
