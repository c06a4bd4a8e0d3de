import ParamStore.Proofs.Tree.Filling

/-!
# Normal form — a path is its segments, however it is spelled

A path may be spelled with blanks around it and around each of its segments. Cutting it drops them, and
    joining what is left with dots spells the path without them: cutting that again gives the same
    segments, so one spelling in normal form stands for all the others, and the lists of names are
    all that paths can be. A tree is asked and changed by segments only. Two spellings of one path
    find the same, store the same, and are refused for the same cause; what differs is the key
    that a refusal shows.

* **`findSub?_congr`**, **`hasSub_congr`** — what two spellings of one path find.
* **`within_state_congr`**, **`set_congr`** — what a change under each of them does.
* **`paths_have_normal_form`** — the normal form, and that a tree does not see more than it.
-/

namespace ParamStore.Tree

-- ── Queries ───────────────────────────────────────────────────────────────────────

section Same

variable {key key' : String} (h : Path.segments? key = Path.segments? key')

include h

theorem hasKey_congr (t : Tree) : t.hasKey key = t.hasKey key' := by
  rw [hasKey, hasKey, get?_congr h]

/-- Paths with the same segments lead to the same sub-tree. -/
theorem findSub?_congr (t : Tree) : t.findSub? key = t.findSub? key' := by
  rw [findSub?, findSub?, h]

theorem hasSub_congr (t : Tree) : t.hasSub key = t.hasSub key' := by
  rw [hasSub, hasSub, findSub?_congr h]

end Same

-- ── Changes ───────────────────────────────────────────────────────────────────────

/-- **The path that a refusal shows is not in the tree**: on the same way, changes that leave the same at
    its end leave the same tree. -/
theorem within_state_congr {α : Type} {full full' : String} {act act' : Tree → Attempt Tree α}
    (h : ∀ t, (act t).state = (act' t).state) (parents : List String) (t : Tree) :
    (within full act parents t).state = (within full' act' parents t).state := by
  induction parents generalizing t with
  | nil => exact h t
  | cons name rest ih =>
      rw [within, within]
      by_cases hvalue : t.values.contains name = true
      · rw [if_pos hvalue, if_pos hvalue]
        rfl
      · rw [if_neg hvalue, if_neg hvalue]
        dsimp only
        rw [ih]

theorem setLocal_state_congr (full full' name value : String) (overwrite : Bool) (t : Tree) :
    (setLocal full name value overwrite t).state
      = (setLocal full' name value overwrite t).state := by
  rw [setLocal, setLocal]
  split
  · rfl
  · split
    · rfl
    · rfl

/-- **Keys with the same segments store the same**, and are refused for the same cause. -/
theorem set_congr {key key' : String} (h : Path.segments? key = Path.segments? key') (t : Tree)
    (value : String) (overwrite : Bool) :
    (t.set key value overwrite).state = (t.set key' value overwrite).state
      ∧ Alike (t.set key value overwrite).result (t.set key' value overwrite).result := by
  rcases segments?_cases key with hnone | ⟨parents, name, hkey⟩
  · rw [set_of_unnamed hnone, set_of_unnamed (h ▸ hnone)]
    exact ⟨rfl, .error rfl⟩
  · have hkey' : Path.segments? key' = some (parents ++ [name]) := h ▸ hkey
    constructor
    · rw [set, set, Path.splitLast_eq_ok_iff.mpr hkey, Path.splitLast_eq_ok_iff.mpr hkey']
      exact within_state_congr (setLocal_state_congr key key' name value overwrite) parents t
    · exact (set_alike hkey t value overwrite).trans (set_alike hkey' t value overwrite).symm

-- ── The normal form ───────────────────────────────────────────────────────────────

/-- **Paths have one normal form**, which is their segments joined with dots. The segments of a path are
    names, at least one, and their joined path has the same segments; every list of names, at least
    one, is what its joined path is cut into; and a tree sees nothing of a path but its segments:
    two paths with the same segments find the same, and storing a value under either of them leaves
    the same tree, with success or with a refusal of one kind. -/
theorem paths_have_normal_form :
    (∀ path parts, Path.split path = .ok parts → parts ≠ [] ∧ (∀ p ∈ parts, Path.IsName p)
      ∧ Path.split (Path.text parts) = .ok parts)
    ∧ (∀ parts, parts ≠ [] → (∀ p ∈ parts, Path.IsName p) →
      Path.split (Path.text parts) = .ok parts)
    ∧ ∀ key key' parts, Path.split key = .ok parts → Path.split key' = .ok parts → ∀ t : Tree,
      t.get? key = t.get? key' ∧ t.hasKey key = t.hasKey key'
      ∧ t.hasSub key = t.hasSub key' ∧ t.findSub? key = t.findSub? key'
      ∧ ∀ value overwrite,
        (t.set key value overwrite).state = (t.set key' value overwrite).state
        ∧ Alike (t.set key value overwrite).result (t.set key' value overwrite).result := by
  refine ⟨?_, fun parts => Path.split_text, ?_⟩
  · intro path parts hsplit
    have hparts := Path.split_eq_ok_iff.mp hsplit
    have hne := Path.segments?_ne_nil hparts
    have hnames := Path.isName_of_segments? hparts
    exact ⟨hne, hnames, Path.split_text hne hnames⟩
  · intro key key' parts hsplit hsplit' t
    have h : Path.segments? key = Path.segments? key' :=
      (Path.split_eq_ok_iff.mp hsplit).trans (Path.split_eq_ok_iff.mp hsplit').symm
    exact ⟨get?_congr h t, hasKey_congr h t, hasSub_congr h t, findSub?_congr h t, set_congr h t⟩

/-- A key with blanks of three kinds in its spelling, the two names that it is made of, and a tree with a
    value there, which is found, may be replaced, and may not be doubled. -/
theorem paths_have_normal_form_blanks :
    let spelled := "\u3000a .\tb c\u00a0"
    let plain := "a.b c"
    let parts := ["a", "b c"]
    let t := (empty.set plain "1" false).state
    (Path.split spelled = .ok parts ∧ parts ≠ [] ∧ (∀ p ∈ parts, Path.IsName p)
      ∧ Path.split (Path.text parts) = .ok parts)
    ∧ ((∀ p ∈ ["é", "x y"], Path.IsName p) ∧ Path.split "é.x y" = .ok ["é", "x y"])
    ∧ (Path.split plain = .ok parts ∧ t.get? spelled = some "1" ∧ t.hasSub spelled = false
      ∧ (t.set spelled "2" true).state = (t.set plain "2" true).state
      ∧ ∃ e, (t.set spelled "2" false).result = .error e ∧ e.SameKind (.duplicateKey plain)) := by
  intro spelled plain parts t
  have hspelled : Path.split spelled = .ok parts := by decide +kernel
  have hplain : Path.split plain = .ok parts := by decide +kernel
  have hnames : ∀ p ∈ ["é", "x y"], Path.IsName p := by decide +kernel
  obtain ⟨hcut, hjoined, hsame⟩ := paths_have_normal_form
  obtain ⟨hget, -, hsub, -, hset⟩ := hsame spelled plain parts hspelled hplain t
  have hrefused : (t.set plain "2" false).result = .error (.duplicateKey plain) := by
    decide +kernel
  have htext : Path.text ["é", "x y"] = "é.x y" := by decide +kernel
  refine ⟨⟨hspelled, hcut spelled parts hspelled⟩, ⟨hnames, ?_⟩, hplain, ?_, ?_,
    (hset "2" true).1, ?_⟩
  · rw [← htext]
    exact hjoined _ (by simp) hnames
  · rw [hget]
    decide +kernel
  · rw [hsub]
    decide +kernel
  · have halike := (hset "2" false).2
    rw [hrefused] at halike
    cases hresult : (t.set spelled "2" false).result with
    | ok _ =>
        rw [hresult] at halike
        cases halike
    | error e =>
        rw [hresult] at halike
        cases halike with
        | error hkind => exact ⟨e, rfl, hkind⟩

end ParamStore.Tree
