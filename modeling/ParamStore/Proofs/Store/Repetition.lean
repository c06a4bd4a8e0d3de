import ParamStore.Proofs.Codec.Shape
import ParamStore.Proofs.Store.Answers

/-!
# Asking again — a look-up repeated on a store that keeps its defaults

The first look-up of an absent key answers with the default as it is, whatever shape is asked for, and
    leaves the default's text under the key. The same look-up made again reads this text, and a
    text is read under the shape. So the two answers are about one value exactly if the shape
    leaves the text of the default as it is: always for a scalar, and for the others if
    nothing is requested or what the default has.

* **`getAgain`** — the look-up on the store that it leaves.
* **`getRequested_stores`** — what the first look-up leaves under the key.
* **`repeated_lookup`** — both answers, and the shapes under which they never differ.
* **`cut_default_differs`** — a shape under which they do.
-/

namespace ParamStore.Store

variable {α : Type} [Codec α]

/-- A look-up made again, on the store that it left the first time. -/
def getAgain (s : Store) (key : String) (default : α) (validator : Validator α) (shape : Shape)
    (site : Option CallSite) : Outcome α :=
  (s.getRequested key default validator shape site).store.getRequested key default validator shape
    site

/-- A store that keeps its defaults stores the text of the default of an absent key. -/
theorem consult_tree_of_absent {s : Store} {r : Request} (hkeeps : s.options.recordDefaults = true)
    (habsent : s.tree.get? r.key = none) :
    (s.consult r).2.1.tree = (s.tree.set r.key r.default false).state := by
  rw [consult_of_absent habsent]
  dsimp only
  rw [recordDefault_tree]
  exact if_pos hkeeps

/-- **After the first look-up the default's text is found under the key**, if the key can hold it. -/
theorem getRequested_stores {s : Store} {key : String} {default : α}
    (hkeeps : s.options.recordDefaults = true) (habsent : s.tree.get? key = none)
    (hholds : (s.tree.set key (Codec.encode default) false).succeeds = true)
    (validator : Validator α) (shape : Shape) (site : Option CallSite) :
    (s.getRequested key default validator shape site).store.tree.get? key
      = some (Codec.encode default) := by
  have hkey := requestOf_key key (Codec.encode default) validator site
  have hdefault : (requestOf key (Codec.encode default) validator site).default
      = Codec.encode default := by
    cases site <;> rfl
  rw [getRequested_store, consult_tree_of_absent hkeeps (by rw [hkey, habsent]), hkey, hdefault]
  exact Tree.get?_set_self hholds

/-- **What a look-up says the first and the second time.** The first answer is the default and the
    second what its text is read as under the shape, both judged by the validator. No
    validator and no call site tell them apart exactly if the shape leaves the default's text
    as it is, which is to say that it fits the default. -/
theorem repeated_lookup {s : Store} {key : String} {default : α}
    (hkeeps : s.options.recordDefaults = true) (habsent : s.tree.get? key = none)
    (hholds : (s.tree.set key (Codec.encode default) false).succeeds = true)
    (hread : Codec.read (Codec.encode default) = .ok default) (shape : Shape) :
    (∀ (validator : Validator α) (site : Option CallSite),
      (s.getRequested key default validator shape site).result = validate key validator default
      ∧ (s.getAgain key default validator shape site).result
        = judge key validator (Codec.decode (Codec.encode default) shape))
    ∧ ((∀ (validator : Validator α) (site : Option CallSite),
        (s.getAgain key default validator shape site).result
          = (s.getRequested key default validator shape site).result)
      ↔ Codec.decode (Codec.encode default) shape = .ok default)
    ∧ ∀ [Shaped α], Codec.decode (Codec.encode default) shape = .ok default
      ↔ Shaped.fits default shape := by
  have hfirst (validator : Validator α) (site : Option CallSite) :
      (s.getRequested key default validator shape site).result = validate key validator default :=
    getRequested_of_absent habsent default validator shape site
  have hsecond (validator : Validator α) (site : Option CallSite) :
      (s.getAgain key default validator shape site).result
        = judge key validator (Codec.decode (Codec.encode default) shape) :=
    getRequested_of_stored (getRequested_stores hkeeps habsent hholds validator shape site)
      default validator shape site
  refine ⟨fun validator site => ⟨hfirst validator site, hsecond validator site⟩, ⟨?_, ?_⟩,
    Shaped.decode_iff hread shape⟩
  · -- the validator that accepts all values shows what was read
    intro hsame
    have hany := hsame .any none
    rw [hfirst, hsecond] at hany
    exact (judge_eq_ok_iff.mp hany).1
  · intro hfits validator site
    rw [hfirst, hsecond, hfits]
    rfl

/-- A list of three texts, asked for again with its own length and with none. -/
theorem repeated_lookup_list :
    let s := new { Options.quiet with recordDefaults := true }
    let default := ["1", "2", "3"]
    s.options.recordDefaults = true ∧ s.tree.get? "v" = none
      ∧ (s.tree.set "v" (Codec.encode default) false).succeeds = true
      ∧ Codec.read (Codec.encode default) = .ok default
      ∧ ∀ (validator : Validator (List String)) (site : Option CallSite),
        (s.getAgain "v" default validator (.vector 3) site).result
            = (s.getRequested "v" default validator (.vector 3) site).result
          ∧ (s.getAgain "v" default validator .any site).result
            = (s.getRequested "v" default validator .any site).result := by
  intro s default
  have habsent : s.tree.get? "v" = none := by decide +kernel
  have hholds : (s.tree.set "v" (Codec.encode default) false).succeeds = true := by
    decide +kernel
  have hread : Codec.read (Codec.encode default) = .ok default := by decide +kernel
  obtain ⟨-, hown, hfits⟩ := repeated_lookup rfl habsent hholds hread (.vector 3)
  obtain ⟨-, hnone, hfits'⟩ := repeated_lookup rfl habsent hholds hread .any
  exact ⟨rfl, habsent, hholds, hread, fun validator site =>
    ⟨hown.mpr (hfits.mpr (.inr rfl)) validator site,
      hnone.mpr (hfits'.mpr (.inl rfl)) validator site⟩⟩

/-- **A default that the shape cuts is another value the second time**, and one that is too short for
    the shape is refused then. -/
theorem cut_default_differs :
    let s := new { Options.quiet with recordDefaults := true }
    let default := ["1", "2", "3"]
    s.options.recordDefaults = true ∧ s.tree.get? "v" = none
      ∧ (s.tree.set "v" (Codec.encode default) false).succeeds = true
      ∧ Codec.read (Codec.encode default) = .ok default
      ∧ (s.getRequested "v" default .any (.vector 2) none).result = .ok ["1", "2", "3"]
      ∧ (s.getAgain "v" default .any (.vector 2) none).result = .ok ["1", "2"]
      ∧ (s.getRequested "v" default .any (.vector 4) none).result = .ok ["1", "2", "3"]
      ∧ (s.getAgain "v" default .any (.vector 4) none).result
        = .error (.unreadable "[1; 2; 3]" "vector" "expected at least 4 entries, found 3") := by
  decide +kernel

end ParamStore.Store
