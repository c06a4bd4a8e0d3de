import ParamStore.Format.File
import ParamStore.Proofs.Store.Arguments
import ParamStore.Proofs.Store.Reachable
import ParamStore.Proofs.Tree.Filling

/-!
# Precedence — arguments, what is there, and the parameter file

Three sources meet in one tree. Arguments are looked at as a whole and then replace what is there,
    the last one of several for one place; what the parameter file adds is decided against the
    tree as the arguments have left it. The arguments name places, all of them, so the only
    thing that storing them can be refused for is a conflict of paths; and the file is named by
    that tree, which may have the name from an argument or from before. What a file holds is for
    the reader of files to say.

* **`Tree.lastGiven`**, **`Tree.get?_setAll`** — the last pair for a place counts, before what is
  there.
* **`Store.readOptions_ok`**, **`Store.readOptions_error`** — the ways in which reading arguments ends.
* **`Store.options_take_precedence`** — the values afterwards, and the refusals.
-/

namespace ParamStore

namespace Tree

/-- The value of the last pair whose key names the place of a key. -/
def lastGiven (pairs : List (String × String)) (key : String) : Option String :=
  (pairs.reverse.find? fun pair => Path.segments? pair.1 = Path.segments? key).map Prod.snd

/-- One more pair in front counts where no other does. -/
theorem lastGiven_cons (pair : String × String) (rest : List (String × String)) (key : String) :
    lastGiven (pair :: rest) key = (lastGiven rest key).or
      (if Path.segments? pair.1 = Path.segments? key then some pair.2 else none) := by
  rw [lastGiven, List.reverse_cons, List.find?_append, Option.map_or, List.find?_singleton]
  by_cases h : Path.segments? pair.1 = Path.segments? key
  · rw [if_pos h, if_pos (decide_eq_true h)]
    rfl
  · rw [if_neg h, if_neg (by simpa using h)]
    rfl

/-- **Joinable pairs gather to the last value given for each place.** -/
theorem get?_gathered {overwrite : Bool} {pairs : List (String × String)}
    (h : Joinable overwrite pairs) (key : String) :
    (gathered pairs).get? key = lastGiven pairs key := by
  induction pairs with
  | nil => exact get?_empty key
  | cons pair rest ih =>
      rw [gathered, get?_overlay h.tail.gathered_wellFormed, ih h.tail,
        get?_ofPair (h.named pair List.mem_cons_self), lastGiven_cons]

/-- **The values after a run that may replace others**: the last one given for the place, or else
    the old one. -/
theorem get?_setAll {t : Tree} (ht : t.WellFormed) {pairs : List (String × String)}
    {overwrite : Bool} (h : (setAll overwrite pairs t).succeeds = true) (key : String) :
    (setAll overwrite pairs t).state.get? key = (lastGiven pairs key).or (t.get? key) := by
  have hjoinable := ((setAll_succeeds_iff pairs ht).mp h).1
  rw [setAll_state ht h, get?_overlay hjoinable.gathered_wellFormed, get?_gathered hjoinable]

end Tree

namespace Store

-- ── The ways in which reading arguments ends ──────────────────────────────────────

/-- The tree of the parameter file that a tree names; empty if it names none. -/
def namedFile (files : FileReader) (t : Tree) : Except Error Tree :=
  match t.get? paramfileKey with
  | none => .ok .empty
  | some file => readTree files file

/-- Once the arguments are stored, the file decides: it cannot be read, or it fills the tree. -/
theorem readOptions_eq {s : Store} {args : List String} {pairs : List (String × String)}
    (hparse : Argument.parse args = .ok pairs)
    (hset : (Tree.setAll true pairs s.tree).result = .ok ()) (files : FileReader) :
    s.readOptions files args
      = let first := (Tree.setAll true pairs s.tree).state
        match namedFile files first with
        | .error e => .refuse e { s with tree := first }
        | .ok file => .pure () { s with tree := (first.fillMissing file).2 } := by
  have hempty : ∀ t : Tree, (t.fillMissing .empty).2 = t := by
    intro t
    have hnothing : Tree.collect "" .empty = [] := rfl
    rw [Tree.fillMissing, Tree.flatten, hnothing, List.mergeSort_nil, Tree.fill]
  rw [readOptions, hparse]
  dsimp only
  rw [Attempt.andThen_of_ok ((onTree_result s _).trans hset), namedFile, onTree]
  dsimp only
  cases hname : (Tree.setAll true pairs s.tree).state.get? paramfileKey with
  | none =>
      dsimp only
      rw [hempty]
  | some file =>
      cases readTree files file with
      | error e => rfl
      | ok tree => rfl

/-- **The three ways in which reading arguments is refused**: for a token, before anything is stored;
    for a conflict of paths at one of the keys; or for the file, once all are stored. -/
theorem readOptions_error {s : Store} {files : FileReader} {args : List String} {e : Error}
    (h : (s.readOptions files args).result = .error e) :
    (Argument.parse args = .error e ∧ (∃ token ∈ args, e = .invalidArgument token)
        ∧ (s.readOptions files args).state = s)
      ∨ ∃ pairs, Argument.parse args = .ok pairs
        ∧ (((Tree.setAll true pairs s.tree).result = .error e
            ∧ ∃ pair ∈ pairs, e = .pathConflict pair.1)
          ∨ ((Tree.setAll true pairs s.tree).result = .ok ()
            ∧ namedFile files (Tree.setAll true pairs s.tree).state = .error e)) := by
  have hsound := Argument.parse_sound args
  cases hparse : Argument.parse args with
  | error e' =>
      rw [hparse] at hsound
      have hrefused : s.readOptions files args = .refuse e' s := by rw [readOptions, hparse]
      rw [hrefused] at h ⊢
      obtain rfl := Except.error.inj h
      exact Or.inl ⟨rfl, hsound, rfl⟩
  | ok pairs =>
      rw [hparse] at hsound
      refine Or.inr ⟨pairs, rfl, ?_⟩
      cases hset : (Tree.setAll true pairs s.tree).result with
      | error e' =>
          rw [readOptions, hparse] at h
          dsimp only at h
          rw [Attempt.andThen_of_error ((onTree_result s _).trans hset)] at h
          obtain rfl := Except.error.inj h
          exact Or.inl ⟨rfl, Tree.setAll_true_error hsound hset⟩
      | ok _ =>
          rw [readOptions_eq hparse hset] at h
          dsimp only at h
          cases hfile : namedFile files (Tree.setAll true pairs s.tree).state with
          | error e' =>
              rw [hfile] at h
              exact Or.inr ⟨rfl, congrArg _ (Except.error.inj h)⟩
          | ok file =>
              rw [hfile] at h
              cases h

/-- If reading arguments is not refused, the tokens are arguments, they are stored, and the file,
    if one is named, is read. -/
theorem readOptions_ok {s : Store} {files : FileReader} {args : List String}
    (h : (s.readOptions files args).result = .ok ()) :
    ∃ pairs file, Argument.parse args = .ok pairs
      ∧ (Tree.setAll true pairs s.tree).result = .ok ()
      ∧ namedFile files (Tree.setAll true pairs s.tree).state = .ok file
      ∧ (s.readOptions files args).state.tree
        = ((Tree.setAll true pairs s.tree).state.fillMissing file).2 := by
  cases hparse : Argument.parse args with
  | error e =>
      rw [readOptions, hparse] at h
      cases h
  | ok pairs =>
      cases hset : (Tree.setAll true pairs s.tree).result with
      | error e =>
          rw [readOptions, hparse] at h
          dsimp only at h
          rw [Attempt.andThen_of_error ((onTree_result s _).trans hset)] at h
          cases h
      | ok _ =>
          rw [readOptions_eq hparse hset] at h ⊢
          dsimp only at h ⊢
          cases hfile : namedFile files (Tree.setAll true pairs s.tree).state with
          | error e =>
              rw [hfile] at h
              cases h
          | ok file => exact ⟨pairs, file, rfl, hset, hfile, rfl⟩

-- ── The values afterwards ─────────────────────────────────────────────────────────

/-- Which of three sources each value comes from, once arguments have been stored over a tree and a
    file has been added to what that left. -/
structure Settled (pairs : List (String × String)) (before file after : Tree) : Prop where
  given : ∀ key value, Tree.lastGiven pairs key = some value → after.get? key = some value
  kept : ∀ key value, Tree.lastGiven pairs key = none → before.get? key = some value →
    after.get? key = some value
  added : ∀ key, Tree.lastGiven pairs key = none → before.get? key = none →
    ¬ (Tree.setAll true pairs before).state.Obstructed key → after.get? key = file.get? key
  skipped : ∀ key, (Tree.setAll true pairs before).state.Obstructed key → after.get? key = none

theorem namedFile_wellFormed {files : FileReader} {t file : Tree}
    (h : namedFile files t = .ok file) : file.WellFormed := by
  rw [namedFile] at h
  split at h
  · obtain rfl := Except.ok.inj h
    exact Tree.wellFormed_empty
  · exact (Tree.Reachable.readTree h).wellFormed

/-- A tree that is filled after arguments were stored in it is settled. -/
theorem settled_of_stored {pairs : List (String × String)} {before file : Tree}
    (hbefore : before.WellFormed) (hfile : file.WellFormed)
    (hset : (Tree.setAll true pairs before).result = .ok ()) :
    Settled pairs before file ((Tree.setAll true pairs before).state.fillMissing file).2 := by
  have hfirst := Tree.setAll_keeps Tree.keptBySet_wellFormed hbefore true pairs
  have hvalues := Tree.get?_setAll hbefore (Attempt.succeeds_iff.mpr hset)
  -- what has a value after the arguments is free, and keeps it
  have hkept : ∀ key value, (Tree.setAll true pairs before).state.get? key = some value →
      ((Tree.setAll true pairs before).state.fillMissing file).2.get? key = some value := by
    intro key value hvalue
    have hfree : ¬ (Tree.setAll true pairs before).state.Obstructed key := by
      intro hobstructed
      rw [hobstructed.get?_eq_none hfirst] at hvalue
      cases hvalue
    rw [Tree.get?_fillMissing_of_free hfirst hfile hfree, hvalue, Option.some_or]
  refine ⟨?_, ?_, ?_, ?_⟩
  · intro key value hgiven
    exact hkept key value (by rw [hvalues, hgiven, Option.some_or])
  · intro key value hgiven hold
    exact hkept key value (by rw [hvalues, hgiven, Option.none_or, hold])
  · intro key hgiven hold hfree
    rw [Tree.get?_fillMissing_of_free hfirst hfile hfree, hvalues, hgiven, hold, Option.none_or,
      Option.none_or]
  · intro key hobstructed
    exact Tree.get?_fillMissing_of_obstructed hfirst hfile hobstructed

/-- **Arguments come before what is there, and this before the parameter file**, whatever the reader of
    files finds. If reading them is not refused, every key has the last value given for its place,
    or else its old one, or else that of the file which the tree names after the arguments,
    unless its place is obstructed by then. If it is refused, that is for a token, with the store
    as it was, or for a conflict of paths at a key that is given, or for the file. -/
theorem options_take_precedence {s : Store} (h : s.Reachable) (files : FileReader)
    (args : List String) :
    ((s.readOptions files args).result = .ok () →
      ∃ pairs file, Argument.parse args = .ok pairs
        ∧ (Tree.setAll true pairs s.tree).result = .ok ()
        ∧ namedFile files (Tree.setAll true pairs s.tree).state = .ok file
        ∧ Settled pairs s.tree file (s.readOptions files args).state.tree)
    ∧ ∀ e, (s.readOptions files args).result = .error e →
      (Argument.parse args = .error e ∧ (∃ token ∈ args, e = .invalidArgument token)
        ∧ (s.readOptions files args).state = s)
      ∨ ∃ pairs, Argument.parse args = .ok pairs
        ∧ (((Tree.setAll true pairs s.tree).result = .error e
            ∧ ∃ pair ∈ pairs, e = .pathConflict pair.1)
          ∨ ((Tree.setAll true pairs s.tree).result = .ok ()
            ∧ namedFile files (Tree.setAll true pairs s.tree).state = .error e)) := by
  refine ⟨fun hok => ?_, fun e he => readOptions_error he⟩
  obtain ⟨pairs, file, hparse, hset, hfile, htree⟩ := readOptions_ok hok
  refine ⟨pairs, file, hparse, hset, hfile, ?_⟩
  rw [htree]
  exact settled_of_stored h.tree.wellFormed (namedFile_wellFormed hfile) hset

/-- A key given twice, one that was there before, and a file with a key that is free and one below a
    value; then a token without a key, and a key below a value. -/
theorem options_take_precedence_paramfile :
    let d := Directory.ofFiles [("p.ini", "x = file\ns.y = file\n[k]\nbelow = file\n")]
    let files := d.tables
    let s := (empty.set "k" "old" false).state
    let after := (s.readOptions files ["--paramfile=p.ini", "x=1", " x = 2"]).state.tree
    s.Reachable ∧ after.get? "x" = some "2" ∧ after.get? "k" = some "old"
      ∧ after.get? "s.y" = some "file" ∧ after.get? "k.below" = none
      ∧ (s.readOptions files ["x=1", "k"]).state = s
      ∧ (s.readOptions files ["x=1", "k.y=2"]).result = .error (.pathConflict "k.y") := by
  intro d files s after
  have hs : s.Reachable := .set (.ofTree .empty .quiet) "k" "old" false
  have hok : (s.readOptions files ["--paramfile=p.ini", "x=1", " x = 2"]).result = .ok () := by
    decide +kernel
  have hpairs : Argument.parse ["--paramfile=p.ini", "x=1", " x = 2"]
      = .ok [("paramfile", "p.ini"), ("x", "1"), ("x", "2")] := by decide +kernel
  obtain ⟨pairs, file, hparse, -, hfile, hsettled⟩ := (options_take_precedence hs files _).1 hok
  obtain rfl := Except.ok.inj (hpairs.symm.trans hparse)
  have hread : (namedFile files (Tree.setAll true [("paramfile", "p.ini"), ("x", "1"), ("x", "2")]
      s.tree).state).map (·.get? "s.y") = .ok (some "file") := by decide +kernel
  rw [hfile] at hread
  refine ⟨hs, ?_, ?_, ?_, ?_, ?_, ?_⟩
  · exact hsettled.given "x" "2" (by decide +kernel)
  · exact hsettled.kept "k" "old" (by decide +kernel) (by decide +kernel)
  · rw [hsettled.added "s.y" (by decide +kernel) (by decide +kernel) (by decide +kernel)]
    exact Except.ok.inj hread
  · exact hsettled.skipped "k.below" (by decide +kernel)
  · have hrefused : (s.readOptions files ["x=1", "k"]).result = .error (.invalidArgument "k") := by
      decide +kernel
    rcases (options_take_precedence hs files _).2 _ hrefused with ⟨-, -, hstate⟩ | ⟨pairs, hparse, -⟩
    · exact hstate
    · cases hparse
  · decide +kernel

end Store

end ParamStore
