import ParamStore.Tree.Merge
import ParamStore.Proofs.Tree.WellFormed

/-!
# Changes of a tree — what one step keeps, and that a refusal leaves no trace

A change goes down a way of sub-trees, opens those that are missing, and works at the end. The
    only thing that can stop it on the way is a value in the place of a sub-tree; below an
    opened sub-tree nothing can, because it is empty. That is why a change that refuses has
    opened nothing: what it refuses for was there before.

* **`within_result`** — the answer: the way is blocked, or the end of the way decides.
* **`within_wellFormed`**, **`set_wellFormed`** — changes keep a tree well-formed.
* **`within_state_of_error`**, **`set_state_of_error`** — a refused change leaves the tree as it was.
* **`nodeAt?_within`**, **`valueAt?_within_of_not_prefix`** — what is found along a free way afterwards, and
  that off the way everything stays.
* **`KeptBySet`** — what storing a value keeps; **`setAll_keeps`**, **`fill_keeps`** — runs of changes
  keep it as well.
-/

namespace ParamStore.Tree

-- ── One level ─────────────────────────────────────────────────────────────────────

@[simp] theorem values_withValues (t : Tree) (vs : KeyMap String) :
    (t.withValues vs).values = vs := rfl
@[simp] theorem subs_withValues (t : Tree) (vs : KeyMap String) :
    (t.withValues vs).subs = t.subs := rfl
@[simp] theorem values_withSubs (t : Tree) (ss : KeyMap Tree) :
    (t.withSubs ss).values = t.values := rfl
@[simp] theorem subs_withSubs (t : Tree) (ss : KeyMap Tree) : (t.withSubs ss).subs = ss := rfl

/-- Putting back the sub-trees that are there changes nothing. -/
theorem withSubs_subs (t : Tree) : t.withSubs t.subs = t := node_values_subs t

namespace WellFormed

/-- A value may be stored under any name that is no sub-tree's. -/
theorem insertValue {t : Tree} (h : t.WellFormed) {name : String} (hname : Path.IsName name)
    (hfree : name ∉ t.subs.names) (value : String) :
    (t.withValues (t.values.insert name value)).WellFormed := by
  have l := h.level
  refine .intro ⟨?_, l.subs_named, ?_, KeyMap.insert_ascending l.values_ascending _ _,
    l.subs_ascending⟩ fun _ _ hsub => h.child hsub
  · intro key hkey
    rcases KeyMap.mem_names_insert.mp hkey with rfl | hold
    · exact hname
    · exact l.values_named key hold
  · intro key hkey
    rcases KeyMap.mem_names_insert.mp hkey with rfl | hold
    · exact hfree
    · exact l.disjoint key hold

/-- A value may be dropped. -/
theorem eraseValue {t : Tree} (h : t.WellFormed) (name : String) :
    (t.withValues (t.values.erase name)).WellFormed := by
  have l := h.level
  refine .intro ⟨?_, l.subs_named, ?_, KeyMap.erase_ascending l.values_ascending _,
    l.subs_ascending⟩ fun _ _ hsub => h.child hsub
  · exact fun key hkey => l.values_named key (KeyMap.mem_names_erase.mp hkey).2
  · exact fun key hkey => l.disjoint key (KeyMap.mem_names_erase.mp hkey).2

/-- A well-formed sub-tree may be put under any name that is no value's. -/
theorem insertSub {t : Tree} (h : t.WellFormed) {name : String} (hname : Path.IsName name)
    (hfree : name ∉ t.values.names) {sub : Tree} (hsub : sub.WellFormed) :
    (t.withSubs (t.subs.insert name sub)).WellFormed := by
  have l := h.level
  refine .intro ⟨l.values_named, ?_, ?_, l.values_ascending,
    KeyMap.insert_ascending l.subs_ascending _ _⟩ ?_
  · intro key hkey
    rcases KeyMap.mem_names_insert.mp hkey with rfl | hold
    · exact hname
    · exact l.subs_named key hold
  · intro key hkey hkey'
    rcases KeyMap.mem_names_insert.mp hkey' with rfl | hold
    · exact hfree hkey
    · exact l.disjoint key hkey hold
  · intro key found hfound
    rw [subs_withSubs, KeyMap.find?_insert] at hfound
    split at hfound
    · obtain rfl := Option.some.inj hfound
      exact hsub
    · exact h.child hfound

/-- The sub-tree under a name, opened if it is missing, is well-formed. -/
theorem opened {t : Tree} (h : t.WellFormed) (name : String) :
    ((t.subs.find? name).getD empty).WellFormed := by
  cases hsub : t.subs.find? name with
  | none => exact wellFormed_empty
  | some sub => exact h.child hsub

end WellFormed

-- ── The way down ──────────────────────────────────────────────────────────────────

/-- A value is in the place of a sub-tree on the way. -/
def blocked : List String → Tree → Bool
  | [], _ => false
  | name :: rest, t => t.values.contains name || blocked rest ((t.subs.find? name).getD empty)

theorem blocked_empty (parents : List String) : blocked parents empty = false := by
  induction parents with
  | nil => rfl
  | cons name rest ih => exact ih

/-- A way that is there in full is free: its names are sub-trees, so none is a value. -/
theorem WellFormed.blocked_of_nodeAt? {t node : Tree} (h : t.WellFormed) {parents : List String}
    (hnode : t.nodeAt? parents = some node) : blocked parents t = false := by
  induction parents generalizing t with
  | nil => rfl
  | cons name rest ih =>
      rw [nodeAt?_cons] at hnode
      obtain ⟨sub, hsub, hrest⟩ := Option.bind_eq_some_iff.mp hnode
      have hfree : t.values.contains name = false := by
        refine Bool.eq_false_iff.mpr fun hvalue => ?_
        exact h.level.disjoint name (KeyMap.contains_iff.mp hvalue) (KeyMap.mem_names_of_find? hsub)
      show (t.values.contains name || blocked rest ((t.subs.find? name).getD empty)) = false
      rw [hfree, hsub]
      exact ih (h.child hsub) hrest

/-- The end of a way, opened if it is missing, is found by opening name after name. -/
theorem nodeAt?_getD_cons (name : String) (rest : List String) (t : Tree) :
    (t.nodeAt? (name :: rest)).getD empty
      = (((t.subs.find? name).getD empty).nodeAt? rest).getD empty := by
  rw [nodeAt?_cons]
  cases t.subs.find? name with
  | some sub => rfl
  | none => cases rest <;> rfl

section Within

variable {α : Type} {full : String} {act : Tree → Attempt Tree α}

/-- **A change is refused on the way, or answers as it does at the end of the way.** -/
theorem within_result (parents : List String) (t : Tree) :
    (within full act parents t).result
      = if blocked parents t then .error (.pathConflict full)
        else (act ((t.nodeAt? parents).getD empty)).result := by
  induction parents generalizing t with
  | nil => rfl
  | cons name rest ih =>
      rw [nodeAt?_getD_cons]
      unfold within blocked
      by_cases hvalue : t.values.contains name = true
      · simp [hvalue, Attempt.refuse]
      · simp [hvalue, ih]

/-- **A change on a free way leaves at its end what it makes of the end.** -/
theorem nodeAt?_within {parents : List String} {t : Tree} (h : blocked parents t = false)
    (rest : List String) : (within full act parents t).state.nodeAt? (parents ++ rest)
      = (act ((t.nodeAt? parents).getD empty)).state.nodeAt? rest := by
  induction parents generalizing t with
  | nil => rfl
  | cons name parents ih =>
      rw [nodeAt?_getD_cons]
      obtain ⟨hfree, hrest⟩ := Bool.or_eq_false_iff.mp h
      rw [within, if_neg (by rw [hfree]; exact Bool.false_ne_true)]
      show Option.bind (KeyMap.find? name (KeyMap.insert name _ t.subs)) _ = _
      rw [KeyMap.find?_insert_self]
      exact ih hrest

/-- **A change touches nothing off its way**: where it does not lead, values stay as they are. -/
theorem valueAt?_within_of_not_prefix {parents : List String} {t : Tree} {place : List String}
    (h : ¬ parents <+: place) (name : String) :
    (within full act parents t).state.valueAt? place name = t.valueAt? place name := by
  induction parents generalizing t place with
  | nil => exact absurd (List.nil_prefix) h
  | cons p parents ih =>
      rw [within]
      split
      · rfl
      · cases place with
        | nil => rfl
        | cons q place =>
            rw [valueAt?_cons, valueAt?_cons]
            dsimp only [subs_withSubs]
            by_cases hq : q = p
            · subst hq
              have hrest : ¬ parents <+: place := fun hp => h (List.cons_prefix_cons.mpr ⟨rfl, hp⟩)
              rw [KeyMap.find?_insert_self, Option.bind_some, ih hrest]
              cases t.subs.find? q with
              | some sub => rfl
              | none => exact valueAt?_empty place name
            · rw [KeyMap.find?_insert_other hq]

/-- **A change keeps a tree well-formed** if it does so at the end of the way. -/
theorem within_wellFormed {parents : List String} (hparents : ∀ p ∈ parents, Path.IsName p)
    {t : Tree} (ht : t.WellFormed)
    (hact : (act ((t.nodeAt? parents).getD empty)).state.WellFormed) :
    (within full act parents t).state.WellFormed := by
  induction parents generalizing t with
  | nil => exact hact
  | cons name rest ih =>
      rw [nodeAt?_getD_cons] at hact
      rw [within]
      split
      · exact ht
      · next hvalue =>
          have hfree : name ∉ t.values.names := fun hmem => hvalue (KeyMap.contains_iff.mpr hmem)
          have hrest := ih (fun p hp => hparents p (List.mem_cons_of_mem _ hp)) (ht.opened name) hact
          exact ht.insertSub (hparents name List.mem_cons_self) hfree hrest

/-- **A refused change leaves the tree as it was**, if that holds at the end of the way and
    nothing is refused in an empty sub-tree. -/
theorem within_state_of_error {t : Tree} (ht : t.WellFormed)
    (hkeep : ∀ node e, (act node).result = .error e → (act node).state = node)
    (hfresh : ∀ e, (act empty).result ≠ .error e) {parents : List String} {e : Error}
    (h : (within full act parents t).result = .error e) :
    (within full act parents t).state = t := by
  induction parents generalizing t with
  | nil => exact hkeep t e h
  | cons name rest ih =>
      rw [within] at h ⊢
      split
      · rfl
      · next hvalue =>
          rw [if_neg hvalue] at h
          dsimp only at h ⊢
          cases hsub : t.subs.find? name with
          | some sub =>
              rw [hsub] at h
              rw [Option.getD_some, ih (ht.child hsub) h,
                KeyMap.insert_of_find? ht.level.subs_ascending hsub, withSubs_subs]
          | none =>
              -- the rest of the way is opened here, and nothing in it can refuse
              rw [hsub, Option.getD_none, within_result, blocked_empty] at h
              rw [nodeAt?_empty_getD] at h
              exact absurd h (hfresh e)

end Within

-- ── Storing a value ───────────────────────────────────────────────────────────────

section Set

variable {full name value : String} {overwrite : Bool}

theorem setLocal_wellFormed {t : Tree} (h : t.WellFormed) (hname : Path.IsName name) :
    (setLocal full name value overwrite t).state.WellFormed := by
  rw [setLocal]
  split
  · exact h
  · next hsub =>
      split
      · exact h
      · exact h.insertValue hname (fun hmem => hsub (KeyMap.contains_iff.mpr hmem)) value

theorem setLocal_state_of_error (t : Tree) (e : Error)
    (h : (setLocal full name value overwrite t).result = .error e) :
    (setLocal full name value overwrite t).state = t := by
  rw [setLocal] at h ⊢
  split
  · rfl
  · next hsub =>
      rw [if_neg hsub] at h
      split
      · rfl
      · next hvalue =>
          rw [if_neg hvalue] at h
          exact nomatch h

/-- An empty level takes every value. -/
theorem setLocal_empty_ne_error (e : Error) :
    (setLocal full name value overwrite empty).result ≠ .error e := by
  intro h
  exact nomatch h

/-- **Storing a value keeps a tree well-formed**, also when it is refused. -/
theorem set_wellFormed {t : Tree} (h : t.WellFormed) (key value : String) (overwrite : Bool) :
    (t.set key value overwrite).state.WellFormed := by
  rw [set]
  cases hkey : Path.splitLast key with
  | error e => exact h
  | ok found =>
      obtain ⟨parents, name⟩ := found
      have hnames := Path.isName_of_segments? (Path.splitLast_eq_ok_iff.mp hkey)
      refine within_wellFormed (fun p hp => hnames p (List.mem_append_left _ hp)) h ?_
      exact setLocal_wellFormed (h.endOf parents) (hnames name (by simp))

/-- **A refused value leaves the tree as it was**: no sub-tree on the way stays open. -/
theorem set_state_of_error {t : Tree} (h : t.WellFormed) {key value : String} {overwrite : Bool}
    {e : Error} (he : (t.set key value overwrite).result = .error e) :
    (t.set key value overwrite).state = t := by
  rw [set] at he ⊢
  cases hkey : Path.splitLast key with
  | error e => rfl
  | ok found =>
      obtain ⟨parents, name⟩ := found
      rw [hkey] at he
      dsimp only at he ⊢
      exact within_state_of_error h setLocal_state_of_error setLocal_empty_ne_error he

end Set

-- ── Runs of changes ───────────────────────────────────────────────────────────────

/-- A property that a tree keeps when a value is stored, also where the value is refused. -/
def KeptBySet (P : Tree → Prop) : Prop :=
  ∀ (t : Tree) (key value : String) (overwrite : Bool), P t → P (t.set key value overwrite).state

theorem keptBySet_wellFormed : KeptBySet WellFormed :=
  fun _ key value overwrite h => set_wellFormed h key value overwrite

/-- A run over two lists is a run over the first and one over the second from where that ends. -/
theorem setAll_append (overwrite : Bool) (pairs more : List (String × String)) (t : Tree) :
    setAll overwrite (pairs ++ more) t
      = (setAll overwrite pairs t).andThen fun _ next => setAll overwrite more next := by
  induction pairs generalizing t with
  | nil => rfl
  | cons pair rest ih =>
      obtain ⟨key, value⟩ := pair
      rw [List.cons_append, setAll, setAll, Attempt.andThen_assoc]
      congr 1
      funext _ next
      exact ih next

theorem setAll_singleton (overwrite : Bool) (key value : String) (t : Tree) :
    setAll overwrite [(key, value)] t = t.set key value overwrite := by
  rw [setAll]
  exact Attempt.andThen_pure _

section Runs

variable {P : Tree → Prop} (hP : KeptBySet P) {t : Tree}

include hP

/-- **Storing several values keeps what storing one keeps**, also when one of them is refused. -/
theorem setAll_keeps (h : P t) (overwrite : Bool) (pairs : List (String × String)) :
    P (setAll overwrite pairs t).state := by
  induction pairs generalizing t with
  | nil => exact h
  | cons pair rest ih =>
      obtain ⟨key, value⟩ := pair
      have hstep := hP t key value overwrite h
      rw [setAll]
      cases hresult : (t.set key value overwrite).result with
      | ok _ =>
          rw [Attempt.andThen_of_ok hresult]
          exact ih hstep
      | error e =>
          rw [Attempt.andThen_of_error hresult]
          dsimp only
          exact hstep

theorem ofPairs_keeps (hempty : P empty) {pairs : List (String × String)}
    (h : ofPairs pairs = .ok t) : P t := by
  unfold ofPairs at h
  dsimp only at h
  split at h
  · obtain rfl := Except.ok.inj h
    exact setAll_keeps hP hempty false pairs
  · exact nomatch h

/-- Storing what is absent keeps what storing a value keeps. -/
theorem fill_keeps (h : P t) (pairs : List (String × String)) : P (fill pairs t).2 := by
  induction pairs generalizing t with
  | nil => exact h
  | cons pair rest ih =>
      obtain ⟨key, value⟩ := pair
      rw [fill]
      split
      · exact ih h
      · dsimp only
        exact ih (hP t key value false h)

end Runs

end ParamStore.Tree
