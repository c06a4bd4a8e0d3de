import ParamStore.Proofs.Tree.Change

/-!
# Laying a tree over another — what may object, and what comes of it

Two trees cross at a place that is a value in one and a sub-tree in the other, and double at one
    that is a value in both. A tree fits over another if they cross nowhere and, unless values
    may be replaced, double nowhere. The check before a merge goes through both trees level by
    level and so does the overlay, but neither sees the other's recursion; here both are
    related to the views, in which they meet.

* **`Fits`** — nothing objects; `fits_iff` says it level by level.
* **`checkMerge_eq_ok_iff`** — the check passes exactly what fits.
* **`checkMerge_error`** — what it objects to is there, at the place that it shows.
* **`valueAt?_overlay`**, **`isSome_nodeAt?_overlay`** — the views after laying a tree over another.
* **`overlay_wellFormed`** — what fits leaves a well-formed tree.
-/

namespace ParamStore.Tree

/-- A place is a value on one side and a sub-tree on the other. -/
def Crossed (a b : Tree) (parents : List String) (name : String) : Prop :=
  ((a.valueAt? parents name).isSome = true ∧ (b.nodeAt? (parents ++ [name])).isSome = true)
    ∨ ((a.nodeAt? (parents ++ [name])).isSome = true ∧ (b.valueAt? parents name).isSome = true)

/-- A place is a value on both sides. -/
def Doubled (a b : Tree) (parents : List String) (name : String) : Prop :=
  (a.valueAt? parents name).isSome = true ∧ (b.valueAt? parents name).isSome = true

/-- Nothing objects to laying the second tree over the first. -/
structure Fits (overwrite : Bool) (a b : Tree) : Prop where
  uncrossed : ∀ parents name, ¬ Crossed a b parents name
  undoubled : overwrite = true ∨ ∀ parents name, ¬ Doubled a b parents name

-- ── Objections level by level ─────────────────────────────────────────────────────

/-- A name at the root is a sub-tree exactly if a way of one step leads there. -/
theorem isSome_nodeAt?_singleton {t : Tree} {name : String} :
    (t.nodeAt? [name]).isSome = true ↔ name ∈ t.subs.names := by
  rw [← KeyMap.find?_isSome_iff, nodeAt?_cons]
  cases t.subs.find? name <;> simp

/-- At the root, trees cross in a name that is a value here and a sub-tree there. -/
theorem crossed_nil {a b : Tree} {name : String} :
    Crossed a b [] name ↔ (name ∈ a.values.names ∧ name ∈ b.subs.names)
      ∨ (name ∈ a.subs.names ∧ name ∈ b.values.names) := by
  rw [Crossed]
  rw [List.nil_append, isSome_nodeAt?_singleton, isSome_nodeAt?_singleton, valueAt?_nil,
    valueAt?_nil, KeyMap.find?_isSome_iff, KeyMap.find?_isSome_iff]

/-- Below a name, trees cross where the two sub-trees of this name do. -/
theorem crossed_cons {a b : Tree} {p : String} {parents : List String} {name : String} :
    Crossed a b (p :: parents) name ↔ ∃ own theirs, a.subs.find? p = some own
      ∧ b.subs.find? p = some theirs ∧ Crossed own theirs parents name := by
  unfold Crossed
  rw [List.cons_append, nodeAt?_cons, nodeAt?_cons, valueAt?_cons, valueAt?_cons]
  cases a.subs.find? p <;> cases b.subs.find? p <;> simp

theorem doubled_nil {a b : Tree} {name : String} :
    Doubled a b [] name ↔ name ∈ a.values.names ∧ name ∈ b.values.names := by
  rw [Doubled]
  rw [valueAt?_nil, valueAt?_nil, KeyMap.find?_isSome_iff, KeyMap.find?_isSome_iff]

theorem doubled_cons {a b : Tree} {p : String} {parents : List String} {name : String} :
    Doubled a b (p :: parents) name ↔ ∃ own theirs, a.subs.find? p = some own
      ∧ b.subs.find? p = some theirs ∧ Doubled own theirs parents name := by
  unfold Doubled
  rw [valueAt?_cons, valueAt?_cons]
  cases a.subs.find? p <;> cases b.subs.find? p <;> simp

/-- **Fitting, level by level**: the names of the level do not object, and sub-trees of the same
    name fit. -/
theorem fits_iff {overwrite : Bool} {a b : Tree} :
    Fits overwrite a b ↔
      (∀ name ∈ b.values.names,
        name ∉ a.subs.names ∧ (name ∈ a.values.names → overwrite = true))
      ∧ ∀ name theirs, b.subs.find? name = some theirs → name ∉ a.values.names
        ∧ ∀ own, a.subs.find? name = some own → Fits overwrite own theirs := by
  constructor
  · rintro ⟨huncrossed, hundoubled⟩
    refine ⟨fun name hb => ⟨fun ha => ?_, fun ha => ?_⟩, fun name theirs hb => ⟨fun ha => ?_, ?_⟩⟩
    · exact huncrossed [] name (crossed_nil.mpr (Or.inr ⟨ha, hb⟩))
    · exact hundoubled.resolve_right fun h => h [] name (doubled_nil.mpr ⟨ha, hb⟩)
    · exact huncrossed [] name
        (crossed_nil.mpr (Or.inl ⟨ha, KeyMap.mem_names_of_find? hb⟩))
    · intro own ha
      refine ⟨fun parents key h => huncrossed (name :: parents) key ?_, ?_⟩
      · exact crossed_cons.mpr ⟨own, theirs, ha, hb, h⟩
      · refine hundoubled.imp_right fun h parents key hd => h (name :: parents) key ?_
        exact doubled_cons.mpr ⟨own, theirs, ha, hb, hd⟩
  · rintro ⟨hvalues, hsubs⟩
    refine ⟨fun parents name h => ?_, ?_⟩
    · cases parents with
      | nil =>
          rcases crossed_nil.mp h with ⟨ha, hb⟩ | ⟨ha, hb⟩
          · obtain ⟨theirs, hfind⟩ := KeyMap.exists_find?_of_mem_names hb
            exact (hsubs name theirs hfind).1 ha
          · exact (hvalues name hb).1 ha
      | cons p parents =>
          obtain ⟨own, theirs, ha, hb, hcrossed⟩ := crossed_cons.mp h
          exact ((hsubs p theirs hb).2 own ha).uncrossed parents name hcrossed
    · cases overwrite with
      | true => exact Or.inl rfl
      | false =>
          refine Or.inr fun parents name h => ?_
          cases parents with
          | nil =>
              obtain ⟨ha, hb⟩ := doubled_nil.mp h
              exact Bool.false_ne_true ((hvalues name hb).2 ha)
          | cons p parents =>
              obtain ⟨own, theirs, ha, hb, hdoubled⟩ := doubled_cons.mp h
              have hfits := (hsubs p theirs hb).2 own ha
              exact (hfits.undoubled.resolve_left Bool.false_ne_true) parents name hdoubled

theorem fits_empty (overwrite : Bool) (b : Tree) : Fits overwrite empty b := by
  refine fits_iff.mpr ⟨fun name _ => ⟨List.not_mem_nil, fun h => absurd h List.not_mem_nil⟩,
    fun name theirs _ => ⟨List.not_mem_nil, fun own h => nomatch h⟩⟩

-- ── The check ─────────────────────────────────────────────────────────────────────

section Check

variable {overwrite : Bool} {path : String} {a : Tree}

/-- The values of a level pass if none is a sub-tree and none is replaced without leave. -/
theorem checkValues_eq_ok_iff {vs : KeyMap String} :
    checkValues overwrite path a vs = .ok () ↔ ∀ name ∈ vs.names,
      name ∉ a.subs.names ∧ (name ∈ a.values.names → overwrite = true) := by
  induction vs with
  | nil => simp [checkValues, KeyMap.names]
  | cons entry rest ih =>
      obtain ⟨name, value⟩ := entry
      have hnames : KeyMap.names ((name, value) :: rest) = name :: KeyMap.names rest := rfl
      rw [checkValues]
      rw [hnames, List.forall_mem_cons, ← ih, ← KeyMap.contains_iff, ← KeyMap.contains_iff]
      cases a.subs.contains name <;> cases a.values.contains name <;> cases overwrite <;> simp

/-- A value that is objected to is a sub-tree, or a value already. -/
theorem checkValues_error {vs : KeyMap String} {e : Error}
    (h : checkValues overwrite path a vs = .error e) :
    ∃ name ∈ vs.names,
      (name ∈ a.subs.names ∧ e = .pathConflict (Path.join path name))
      ∨ (overwrite = false ∧ name ∈ a.values.names ∧ e = .duplicateKey (Path.join path name)) := by
  induction vs with
  | nil => exact nomatch h
  | cons entry rest ih =>
      obtain ⟨name, value⟩ := entry
      rw [checkValues] at h
      split at h
      · next hsub =>
          obtain rfl := Except.error.inj h
          exact ⟨name, List.mem_cons_self, Or.inl ⟨KeyMap.contains_iff.mp hsub, rfl⟩⟩
      · split at h
        · next hvalue =>
            obtain ⟨hcontains, hover⟩ := Bool.and_eq_true_iff.mp hvalue
            obtain rfl := Except.error.inj h
            exact ⟨name, List.mem_cons_self, Or.inr
              ⟨Bool.not_eq_true' _ ▸ hover, KeyMap.contains_iff.mp hcontains, rfl⟩⟩
        · obtain ⟨key, hmem, hkey⟩ := ih h
          exact ⟨key, List.mem_cons_of_mem _ hmem, hkey⟩

/-- Sub-trees pass if none is a value and those that are there already pass. -/
theorem checkSubs_eq_ok_iff {ss : List (String × Tree)} :
    checkSubs overwrite path a ss = .ok () ↔ ∀ name theirs, (name, theirs) ∈ ss →
      name ∉ a.values.names ∧ ∀ own, a.subs.find? name = some own →
        checkMerge overwrite (Path.join path name) own theirs = .ok () := by
  induction ss with
  | nil => simp [checkSubs]
  | cons entry rest ih =>
      obtain ⟨name, theirs⟩ := entry
      have hsplit : (∀ key sub, (key, sub) ∈ (name, theirs) :: rest →
            key ∉ a.values.names ∧ ∀ own, a.subs.find? key = some own →
              checkMerge overwrite (Path.join path key) own sub = .ok ())
          ↔ (name ∉ a.values.names ∧ ∀ own, a.subs.find? name = some own →
              checkMerge overwrite (Path.join path name) own theirs = .ok ())
            ∧ checkSubs overwrite path a rest = .ok () := by
        rw [ih]
        simp only [List.mem_cons, Prod.mk.injEq, or_imp, forall_and, and_imp, forall_eq,
          forall_eq_apply_imp_iff]
        tauto
      rw [hsplit, ← KeyMap.contains_iff, checkSubs]
      cases a.values.contains name with
      | true => simp
      | false =>
          cases hfind : a.subs.find? name with
          | none => simp
          | some own =>
              cases hcheck : checkMerge overwrite (Path.join path name) own theirs <;>
                simp [hcheck]

/-- A sub-tree that is objected to is a value, or holds what is objected to. -/
theorem checkSubs_error {ss : List (String × Tree)} {e : Error}
    (h : checkSubs overwrite path a ss = .error e) :
    ∃ name theirs, (name, theirs) ∈ ss
      ∧ ((name ∈ a.values.names ∧ e = .pathConflict (Path.join path name))
        ∨ ∃ own, a.subs.find? name = some own
          ∧ checkMerge overwrite (Path.join path name) own theirs = .error e) := by
  induction ss with
  | nil => simp [checkSubs] at h
  | cons entry rest ih =>
      obtain ⟨name, theirs⟩ := entry
      have hlater : checkSubs overwrite path a rest = .error e →
          ∃ key sub, (key, sub) ∈ (name, theirs) :: rest
            ∧ ((key ∈ a.values.names ∧ e = .pathConflict (Path.join path key))
              ∨ ∃ own, a.subs.find? key = some own
                ∧ checkMerge overwrite (Path.join path key) own sub = .error e) := by
        intro hrest
        obtain ⟨key, sub, hmem, hkey⟩ := ih hrest
        exact ⟨key, sub, List.mem_cons_of_mem _ hmem, hkey⟩
      rw [checkSubs] at h
      split at h
      · next hvalue =>
          obtain rfl := Except.error.inj h
          exact ⟨name, theirs, List.mem_cons_self,
            Or.inl ⟨KeyMap.contains_iff.mp hvalue, rfl⟩⟩
      · split at h
        · exact hlater h
        · next own hfind =>
            split at h
            · next e' hcheck =>
                obtain rfl := Except.error.inj h
                exact ⟨name, theirs, List.mem_cons_self, Or.inr ⟨own, hfind, hcheck⟩⟩
            · exact hlater h

/-- A tree passes if its values pass and then its sub-trees do. -/
theorem checkMerge_eq (b : Tree) :
    checkMerge overwrite path a b = match checkValues overwrite path a b.values with
      | .error e => .error e
      | .ok _ => checkSubs overwrite path a b.subs := by
  cases b
  rw [checkMerge]
  rfl

/-- **The check passes exactly the trees that fit.** -/
theorem checkMerge_eq_ok_iff {b : Tree} (hb : b.WellFormed) :
    checkMerge overwrite path a b = .ok () ↔ Fits overwrite a b := by
  induction hb generalizing a path with
  | @intro b level _ ih =>
      have hboth : checkMerge overwrite path a b = .ok () ↔
          checkValues overwrite path a b.values = .ok ()
            ∧ checkSubs overwrite path a b.subs = .ok () := by
        rw [checkMerge_eq]
        cases checkValues overwrite path a b.values <;> simp
      rw [hboth, fits_iff, checkValues_eq_ok_iff, checkSubs_eq_ok_iff]
      refine and_congr_right fun _ => ?_
      constructor
      · intro h name theirs hfind
        obtain ⟨hfree, hown⟩ := h name theirs (KeyMap.mem_of_find? hfind)
        exact ⟨hfree, fun own ha => (ih name theirs hfind).mp (hown own ha)⟩
      · intro h name theirs hmem
        have hfind := KeyMap.find?_of_mem level.subs_ascending hmem
        obtain ⟨hfree, hown⟩ := h name theirs hfind
        exact ⟨hfree, fun own ha => (ih name theirs hfind).mpr (hown own ha)⟩

/-- **What the check objects to is there**: a place where the trees cross, or one where they double
    and there is no leave. The objection shows the place below the path it was given. -/
theorem checkMerge_error {b : Tree} (hb : b.WellFormed) {e : Error}
    (h : checkMerge overwrite path a b = .error e) :
    ∃ parents name,
      (Crossed a b parents name
        ∧ e = .pathConflict ((parents ++ [name]).foldl Path.join path))
      ∨ (overwrite = false ∧ Doubled a b parents name
        ∧ e = .duplicateKey ((parents ++ [name]).foldl Path.join path)) := by
  induction hb generalizing a path with
  | @intro b level _ ih =>
      rw [checkMerge_eq] at h
      split at h
      · next e' hvalues =>
          obtain rfl := Except.error.inj h
          obtain ⟨name, hb, hname⟩ := checkValues_error hvalues
          refine ⟨[], name, ?_⟩
          rcases hname with ⟨ha, rfl⟩ | ⟨hover, ha, rfl⟩
          · exact Or.inl ⟨crossed_nil.mpr (Or.inr ⟨ha, hb⟩), rfl⟩
          · exact Or.inr ⟨hover, doubled_nil.mpr ⟨ha, hb⟩, rfl⟩
      · obtain ⟨name, theirs, hmem, hname⟩ := checkSubs_error h
        have hfind := KeyMap.find?_of_mem level.subs_ascending hmem
        rcases hname with ⟨ha, rfl⟩ | ⟨own, ha, hcheck⟩
        · have hb := KeyMap.mem_names_of_find? hfind
          exact ⟨[], name, Or.inl ⟨crossed_nil.mpr (Or.inl ⟨ha, hb⟩), rfl⟩⟩
        · obtain ⟨parents, key, hkey⟩ := ih name theirs hfind hcheck
          refine ⟨name :: parents, key, ?_⟩
          rcases hkey with ⟨hcrossed, rfl⟩ | ⟨hover, hdoubled, rfl⟩
          · exact Or.inl ⟨crossed_cons.mpr ⟨own, theirs, ha, hfind, hcrossed⟩, rfl⟩
          · exact Or.inr ⟨hover, doubled_cons.mpr ⟨own, theirs, ha, hfind, hdoubled⟩, rfl⟩

end Check

-- ── The overlay ───────────────────────────────────────────────────────────────────

theorem values_overlay (a b : Tree) : (a.overlay b).values = a.values.insertAll b.values := by
  cases b
  rw [overlay]
  rfl

theorem subs_overlay (a b : Tree) : (a.overlay b).subs = overlaySubs a.subs b.subs := by
  cases b
  rw [overlay]
  rfl

theorem overlaySubs_ascending {base : KeyMap Tree} (h : base.Ascending)
    (ss : List (String × Tree)) : (overlaySubs base ss).Ascending := by
  induction ss generalizing base with
  | nil => simpa [overlaySubs] using h
  | cons entry rest ih =>
      obtain ⟨name, theirs⟩ := entry
      rw [overlaySubs]
      exact ih (KeyMap.insert_ascending h _ _)

/-- **An incoming sub-tree is laid over the one of its name**, over an empty one if there is none;
    the other sub-trees stay. -/
theorem find?_overlaySubs {ss : KeyMap Tree} (hss : ss.Ascending) (base : KeyMap Tree)
    (key : String) :
    (overlaySubs base ss).find? key = match ss.find? key with
      | none => base.find? key
      | some theirs => some (((base.find? key).getD empty).overlay theirs) := by
  induction ss generalizing base with
  | nil => rw [overlaySubs]; rfl
  | cons entry rest ih =>
      obtain ⟨name, theirs⟩ := entry
      obtain ⟨hbelow, hrest⟩ := KeyMap.ascending_cons_iff.mp hss
      rw [overlaySubs, ih hrest, KeyMap.find?_insert]
      by_cases hkey : key = name
      · subst hkey
        rw [KeyMap.find?_eq_none_of_below hbelow]
        simp [KeyMap.find?]
      · simp [KeyMap.find?, hkey]

/-- **A value after laying a tree over another** is the incoming one, or else the old one. -/
theorem valueAt?_overlay {b : Tree} (hb : b.WellFormed) (a : Tree) (parents : List String)
    (name : String) :
    (a.overlay b).valueAt? parents name = (b.valueAt? parents name).or (a.valueAt? parents name) := by
  induction hb generalizing a parents with
  | @intro b level _ ih =>
      cases parents with
      | nil =>
          rw [valueAt?_nil, values_overlay, KeyMap.find?_insertAll level.values_ascending]
          rfl
      | cons p parents =>
          rw [valueAt?_cons, valueAt?_cons, valueAt?_cons, subs_overlay,
            find?_overlaySubs level.subs_ascending]
          cases hfind : b.subs.find? p with
          | none => rfl
          | some theirs =>
              dsimp only [Option.bind_some]
              rw [ih p theirs hfind]
              cases a.subs.find? p with
              | none => rw [Option.getD_none, valueAt?_empty]; rfl
              | some own => rfl

/-- **A sub-tree is there after laying a tree over another** exactly if it was on either side. -/
theorem isSome_nodeAt?_overlay {b : Tree} (hb : b.WellFormed) (a : Tree) (path : List String) :
    ((a.overlay b).nodeAt? path).isSome = ((a.nodeAt? path).isSome || (b.nodeAt? path).isSome) := by
  induction hb generalizing a path with
  | @intro b level _ ih =>
      cases path with
      | nil => rfl
      | cons p path =>
          rw [nodeAt?_cons, nodeAt?_cons, nodeAt?_cons, subs_overlay,
            find?_overlaySubs level.subs_ascending]
          cases hfind : b.subs.find? p with
          | none => simp
          | some theirs =>
              dsimp only [Option.bind_some]
              rw [ih p theirs hfind]
              cases a.subs.find? p with
              | some own => rfl
              | none =>
                  -- the sub-tree is opened: all that is in it is what comes in
                  cases path with
                  | nil => simp
                  | cons q path => rw [Option.getD_none, nodeAt?_empty_cons]; rfl

/-- A value of the first level after laying a tree over another is one of either side. -/
theorem mem_names_values_overlay {a b : Tree} (hb : b.Level) {name : String} :
    name ∈ (a.overlay b).values.names ↔ name ∈ b.values.names ∨ name ∈ a.values.names := by
  rw [values_overlay, ← KeyMap.find?_isSome_iff, KeyMap.find?_insertAll hb.values_ascending,
    Option.isSome_or, Bool.or_eq_true, KeyMap.find?_isSome_iff, KeyMap.find?_isSome_iff]

/-- A sub-tree after laying a tree over another was there and nothing came in under its name, or
    what came in was laid over it. -/
theorem find?_subs_overlay_cases {a b : Tree} (hb : b.Level) {name : String} {sub : Tree}
    (h : (a.overlay b).subs.find? name = some sub) :
    (a.subs.find? name = some sub ∧ name ∉ b.subs.names)
      ∨ ∃ theirs, b.subs.find? name = some theirs
        ∧ sub = ((a.subs.find? name).getD empty).overlay theirs := by
  rw [subs_overlay, find?_overlaySubs hb.subs_ascending] at h
  cases hfind : b.subs.find? name with
  | none =>
      rw [hfind] at h
      exact Or.inl ⟨h, KeyMap.find?_eq_none_iff.mp hfind⟩
  | some theirs =>
      rw [hfind] at h
      exact Or.inr ⟨theirs, rfl, (Option.some.inj h).symm⟩

/-- What fits leaves a sound level. -/
theorem overlay_level {overwrite : Bool} {a b : Tree} (ha : a.Level) (hb : b.Level)
    (h : Fits overwrite a b) : (a.overlay b).Level := by
  obtain ⟨hvalues, hsubs⟩ := fits_iff.mp h
  refine ⟨?_, ?_, ?_, ?_, ?_⟩
  · intro name hname
    exact ((mem_names_values_overlay hb).mp hname).elim (hb.values_named name) (ha.values_named name)
  · intro name hname
    obtain ⟨sub, hfind⟩ := KeyMap.exists_find?_of_mem_names hname
    rcases find?_subs_overlay_cases hb hfind with ⟨hold, -⟩ | ⟨theirs, hnew, -⟩
    · exact ha.subs_named name (KeyMap.mem_names_of_find? hold)
    · exact hb.subs_named name (KeyMap.mem_names_of_find? hnew)
  · intro name hname hname'
    obtain ⟨sub, hfind⟩ := KeyMap.exists_find?_of_mem_names hname'
    -- new value or old one, against an old sub-tree or a new one
    rcases (mem_names_values_overlay hb).mp hname with hv | hv <;>
      rcases find?_subs_overlay_cases hb hfind with ⟨hold, -⟩ | ⟨theirs, hnew, -⟩
    · exact (hvalues name hv).1 (KeyMap.mem_names_of_find? hold)
    · exact hb.disjoint name hv (KeyMap.mem_names_of_find? hnew)
    · exact ha.disjoint name hv (KeyMap.mem_names_of_find? hold)
    · exact (hsubs name theirs hnew).1 hv
  · rw [values_overlay]
    exact KeyMap.insertAll_ascending ha.values_ascending _
  · rw [subs_overlay]
    exact overlaySubs_ascending ha.subs_ascending _

/-- **What fits leaves a well-formed tree.** -/
theorem overlay_wellFormed {overwrite : Bool} {a b : Tree} (ha : a.WellFormed)
    (hb : b.WellFormed) (h : Fits overwrite a b) : (a.overlay b).WellFormed := by
  induction hb generalizing a with
  | @intro b level _ ih =>
      obtain ⟨-, hsubs⟩ := fits_iff.mp h
      refine .intro (overlay_level ha.level level h) fun name sub hfind => ?_
      rcases find?_subs_overlay_cases level hfind with ⟨hold, -⟩ | ⟨theirs, hnew, rfl⟩
      · exact ha.child hold
      · refine ih name theirs hnew (ha.opened name) ?_
        cases hown : a.subs.find? name with
        | none => exact fits_empty overwrite theirs
        | some own => exact (hsubs name theirs hnew).2 own hown

end ParamStore.Tree
