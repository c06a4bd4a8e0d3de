import Mathlib.Data.List.Forall2
import ParamStore.Proofs.Store.Consult

/-!
# Answers — what a look-up says

The plain look-ups and those with a default go different ways, and the second change the store on
    their way, yet a stored text is read and judged alike in both: the answer is the same, whatever
    the default, the call site and the options. They differ on an absent key only. There the
    first refuse, and the second judge the default, as it is and not by its text.

* **`judge`** — a read value put before the validator; `get_of_stored`,
  `getRequested_of_stored` and `getRequested_of_absent` say what each family judges.
* **`readValid_eq_ok_iff`** — a list of answers, text by text.
* **`getters_agree`** — the two families, what they hand out, and when they refuse.
-/

namespace ParamStore.Store

variable {α : Type}

-- ── Judging ───────────────────────────────────────────────────────────────────────

/-- What was read, if the validator accepts it; a refusal to read stays what it is. -/
def judge (key : String) (validator : Validator α) : Except Error α → Except Error α
  | .ok value => validate key validator value
  | .error e => .error e

/-- **A value that passes is the value that was read**, and accepted. -/
theorem judge_eq_ok_iff {key : String} {validator : Validator α} {r : Except Error α} {a : α} :
    judge key validator r = .ok a ↔ r = .ok a ∧ validator.accepts a = true := by
  cases r with
  | error e => simp [judge]
  | ok value =>
      rw [judge, validate]
      split
      · next haccepts =>
          constructor
          · intro h
            obtain rfl := Except.ok.inj h
            exact ⟨rfl, haccepts⟩
          · exact And.left
      · next hrejects =>
          refine iff_of_false (by simp) ?_
          rintro ⟨h, haccepts⟩
          obtain rfl := Except.ok.inj h
          exact hrejects haccepts

/-- Whatever is handed out is accepted by the validator. -/
def Accepted (validator : Validator α) (r : Except Error α) : Prop :=
  ∀ a, r = .ok a → validator.accepts a = true

theorem accepted_judge (key : String) (validator : Validator α) (r : Except Error α) :
    Accepted validator (judge key validator r) :=
  fun _ h => (judge_eq_ok_iff.mp h).2

-- ── The two families ──────────────────────────────────────────────────────────────

section Getters

variable [Codec α]

theorem get_of_stored {s : Store} {key raw : String} (h : s.tree.get? key = some raw)
    (validator : Validator α) (shape : Shape) :
    s.get key validator shape = judge key validator (Codec.decode raw shape) := by
  rw [get, h]
  dsimp only
  cases (Codec.decode raw shape : Except Error α) with
  | ok value => rfl
  | error e => rfl

theorem get_of_absent {s : Store} {key : String} (h : s.tree.get? key = none)
    (validator : Validator α) (shape : Shape) :
    s.get key validator shape = .error (.missingKey key) := by
  rw [get, h]

theorem accepted_get (s : Store) (key : String) (validator : Validator α) (shape : Shape) :
    Accepted validator (s.get key validator shape) := by
  cases h : s.tree.get? key with
  | none =>
      rw [get_of_absent h]
      exact fun _ hok => nomatch hok
  | some raw =>
      rw [get_of_stored h]
      exact accepted_judge key validator _

omit [Codec α] in
/-- The request of a look-up has its key. -/
theorem requestOf_key (key default : String) (validator : Validator α) (site : Option CallSite) :
    (requestOf key default validator site).key = key := by
  cases site with
  | none => rfl
  | some site => rfl

/-- **A look-up judges what is stored, or else the default as it is.** -/
theorem getRequested_result (s : Store) (key : String) (default : α) (validator : Validator α)
    (shape : Shape) (site : Option CallSite) :
    (s.getRequested key default validator shape site).result
      = judge key validator (match s.tree.get? key with
        | some raw => Codec.decode raw shape
        | none => .ok default) := by
  have hfound : (s.consult (requestOf key (Codec.encode default) validator site)).1
      = s.tree.get? key := by
    rw [consult_found, requestOf_key]
  rw [getRequested]
  dsimp only
  rw [hfound]
  cases s.tree.get? key with
  | none => rfl
  | some raw =>
      dsimp only
      cases (Codec.decode raw shape : Except Error α) with
      | ok value => rfl
      | error e => rfl

theorem getRequested_of_stored {s : Store} {key raw : String} (h : s.tree.get? key = some raw)
    (default : α) (validator : Validator α) (shape : Shape) (site : Option CallSite) :
    (s.getRequested key default validator shape site).result
      = judge key validator (Codec.decode raw shape) := by
  rw [getRequested_result, h]

theorem getRequested_of_absent {s : Store} {key : String} (h : s.tree.get? key = none)
    (default : α) (validator : Validator α) (shape : Shape) (site : Option CallSite) :
    (s.getRequested key default validator shape site).result = validate key validator default := by
  rw [getRequested_result, h]
  rfl

-- ── Lists of answers ──────────────────────────────────────────────────────────────

/-- The first text is read and judged before the others. -/
theorem readValid_cons (key : String) (validator : Validator α) (text : String)
    (texts : List String) :
    readValid key validator (text :: texts)
      = match judge key validator (Codec.read text) with
        | .error e => .error e
        | .ok value => (readValid key validator texts).map (value :: ·) := by
  rw [readValid]
  cases (Codec.read text : Except Error α) with
  | error e => rfl
  | ok value => rfl

/-- **Values for texts**: each is read from its own text and accepted. -/
theorem readValid_eq_ok_iff {key : String} {validator : Validator α} {texts : List String}
    {values : List α} :
    readValid key validator texts = .ok values
      ↔ List.Forall₂ (fun text value => Codec.read text = .ok value
          ∧ validator.accepts value = true) texts values := by
  induction texts generalizing values with
  | nil =>
      rw [readValid, List.forall₂_nil_left_iff, Except.ok.injEq, eq_comm]
  | cons text texts ih =>
      rw [readValid_cons, List.forall₂_cons_left_iff]
      cases hfirst : judge key validator (Codec.read text) with
      | error e =>
          refine iff_of_false (fun h => nomatch h) ?_
          rintro ⟨value, _, hvalue, -, -⟩
          rw [judge_eq_ok_iff.mpr hvalue] at hfirst
          exact nomatch hfirst
      | ok first =>
          dsimp only
          constructor
          · intro h
            obtain ⟨rest, hrest, rfl⟩ := exists_of_map_eq_ok h
            exact ⟨first, rest, judge_eq_ok_iff.mp hfirst, ih.mp hrest, rfl⟩
          · rintro ⟨value, rest, hvalue, hrest, rfl⟩
            obtain rfl : value = first :=
              Except.ok.inj ((judge_eq_ok_iff.mpr hvalue).symm.trans hfirst)
            rw [ih.mpr hrest]
            rfl

/-- Every value of such a list is accepted. -/
theorem accepted_of_readValid {key : String} {validator : Validator α} {texts : List String}
    {values : List α} (h : readValid key validator texts = .ok values) :
    ∀ value ∈ values, validator.accepts value = true := by
  replace h := readValid_eq_ok_iff.mp h
  induction h with
  | nil => exact fun _ hvalue => absurd hvalue List.not_mem_nil
  | cons hfirst _ ih => exact List.forall_mem_cons.mpr ⟨hfirst.2, ih⟩

/-- No text of such a list is unreadable. -/
theorem readable_of_readValid {key : String} {validator : Validator α} {texts : List String}
    {values : List α} (h : readValid key validator texts = .ok values) :
    ∀ text ∈ texts, ∃ value : α, Codec.read text = .ok value := by
  replace h := readValid_eq_ok_iff.mp h
  induction h with
  | nil => exact fun _ htext => absurd htext List.not_mem_nil
  | cons hfirst _ ih => exact List.forall_mem_cons.mpr ⟨⟨_, hfirst.1⟩, ih⟩

/-- A list is read from the tokens of what is stored, or else of the default's text. -/
theorem getList_result (s : Store) (key : String) (default : α) (separators : String)
    (validator : Validator α) :
    (s.getList key default separators validator).result
      = readValid key validator
        (Literal.tokens separators ((s.tree.get? key).getD (Codec.encode default))) := by
  rw [getList]
  dsimp only
  rw [consult_found]
  rfl

-- ── Agreement ─────────────────────────────────────────────────────────────────────

/-- **The two families agree.** On a stored key they give the same answer, whatever the default, the call
    site and the options. On an absent one, and a text that names no place is such a key, the
    plain look-up refuses with the key as it was given, and the other judges the default. Whatever
    is handed out is accepted by the validator, and what is stored but cannot be read is
    refused for that, also as a token of a list; the default does not step in. -/
theorem getters_agree (s : Store) (key : String) (validator : Validator α) (shape : Shape) :
    (∀ raw, s.tree.get? key = some raw →
      ∀ (o : Options) (default : α) (site : Option CallSite),
        ({ s with options := o }.getRequested key default validator shape site).result
          = s.get key validator shape)
    ∧ (s.tree.get? key = none →
      s.get key validator shape = .error (.missingKey key)
      ∧ ∀ (o : Options) (default : α) (site : Option CallSite),
        ({ s with options := o }.getRequested key default validator shape site).result
          = if validator.accepts default then .ok default
            else .error (.rejected key validator.describe))
    ∧ (Path.segments? key = none → s.tree.get? key = none)
    ∧ Accepted validator (s.get key validator shape)
    ∧ (∀ (default : α) (site : Option CallSite),
      Accepted validator (s.getRequested key default validator shape site).result)
    ∧ (∀ (default : α) (separators : String) (values : List α),
      (s.getList key default separators validator).result = .ok values →
        ∀ value ∈ values, validator.accepts value = true)
    ∧ (∀ raw e, s.tree.get? key = some raw → (Codec.decode raw shape : Except Error α) = .error e →
      s.get key validator shape = .error e
      ∧ ∀ (default : α) (site : Option CallSite),
        (s.getRequested key default validator shape site).result = .error e)
    ∧ ∀ raw, s.tree.get? key = some raw → ∀ (default : α) (separators : String),
      (s.getList key default separators validator).result
          = readValid key validator (Literal.tokens separators raw)
        ∧ ((∃ token ∈ Literal.tokens separators raw, ∃ e,
            (Codec.read token : Except Error α) = .error e) →
          ∃ e, (s.getList key default separators validator).result = .error e) := by
  refine ⟨?stored, ?absent, fun hinvalid => Tree.get?_eq_none hinvalid _,
    accepted_get s key validator shape, ?accepted,
    ?list, ?unreadable, ?tokens⟩
  case stored =>
    intro raw hraw o default site
    have hraw' : ({ s with options := o } : Store).tree.get? key = some raw := hraw
    rw [get_of_stored hraw, getRequested_of_stored hraw']
  case absent =>
    intro habsent
    refine ⟨get_of_absent habsent validator shape, fun o default site => ?_⟩
    have habsent' : ({ s with options := o } : Store).tree.get? key = none := habsent
    rw [getRequested_of_absent habsent', validate]
  case accepted =>
    intro default site
    rw [getRequested_result]
    exact accepted_judge key validator _
  case list =>
    intro default separators values hvalues
    rw [getList_result] at hvalues
    exact accepted_of_readValid hvalues
  case unreadable =>
    intro raw e hraw he
    refine ⟨?_, fun default site => ?_⟩
    · rw [get_of_stored hraw, he, judge]
    · rw [getRequested_of_stored hraw, he, judge]
  case tokens =>
    intro raw hraw default separators
    rw [getList_result, hraw, Option.getD_some]
    refine ⟨rfl, ?_⟩
    rintro ⟨token, htoken, e, he⟩
    cases hresult : readValid key validator (Literal.tokens separators raw) with
    | error e => exact ⟨e, rfl⟩
    | ok values =>
        obtain ⟨value, hvalue⟩ := readable_of_readValid hresult token htoken
        rw [he] at hvalue
        cases hvalue

end Getters

/-- A truth value and a text that is none: the first is found under all options and with all defaults,
    the second is refused with all defaults, also as a token of a list; and a key that names no
    place is missing. -/
theorem getters_agree_flags :
    let s := ((empty.set "b" "yes" false).state.set "c" "maybe" false).state
    let unreadable :=
      Error.unreadable "maybe" "bool" "expected true/false, 1/0, yes/no or on/off"
    s.tree.get? "b" = some "yes" ∧ s.tree.get? "c" = some "maybe"
      ∧ s.get "b" .any .any = .ok true
      ∧ (∀ (o : Options) (default : Bool) (site : Option CallSite),
        ({ s with options := o }.getRequested "b" default .any .any site).result = .ok true)
      ∧ (∀ (default : Bool) (site : Option CallSite),
        (s.getRequested "c" default .any .any site).result = .error unreadable)
      ∧ (∀ default : Bool, ∃ e, (s.getList "c" default ";" .any).result = .error e)
      ∧ Path.segments? "a..b" = none
      ∧ s.get "a..b" (.any : Validator Bool) .any = .error (.missingKey "a..b")
      ∧ ∀ (o : Options) (default : Bool) (site : Option CallSite),
        ({ s with options := o }.getRequested "a..b" default .none .any site).result
          = .error (.rejected "a..b" "ValidateNone: no value is valid") := by
  intro s unreadable
  have hb : s.tree.get? "b" = some "yes" := by decide +kernel
  have hc : s.tree.get? "c" = some "maybe" := by decide +kernel
  have hplain : s.get "b" .any .any = .ok true := by decide +kernel
  have hread : (Codec.decode "maybe" .any : Except Error Bool) = .error unreadable := by
    decide +kernel
  have htokens : "maybe" ∈ Literal.tokens ";" "maybe" := by decide +kernel
  have hinvalid : Path.segments? "a..b" = none := by decide +kernel
  obtain ⟨hstored, -⟩ := getters_agree (α := Bool) s "b" .any .any
  obtain ⟨-, -, -, -, -, -, hrefused, hlist⟩ := getters_agree (α := Bool) s "c" .any .any
  obtain ⟨-, habsent, hnone, -⟩ := getters_agree (α := Bool) s "a..b" .none .any
  obtain ⟨-, hmissing, -⟩ := getters_agree (α := Bool) s "a..b" .any .any
  exact ⟨hb, hc, hplain, fun o default site => (hstored _ hb o default site).trans hplain,
    (hrefused _ _ hc hread).2,
    fun default => (hlist _ hc default ";").2 ⟨"maybe", htokens, unreadable, hread⟩, hinvalid,
    (hmissing (hnone hinvalid)).1, (habsent (hnone hinvalid)).2⟩

end ParamStore.Store
