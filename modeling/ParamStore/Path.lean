import ParamStore.Text.Blank
import ParamStore.Error

/-!
# Paths — dotted texts that name places in a tree

A path text is cut at its dots; blanks around the text and around every segment are dropped.
    A text with an empty segment names no place. Segments are what a tree is searched by, so
    two texts with the same segments name the same place.

* **`segments?`** — the segments of a text, if it names a place.
* **`split`**, **`splitLast`** — the same with a refusal that shows the text as given.
* **`join`** — a parent and a name as one text.
-/

namespace ParamStore.Path

/-- The segments of a path text; none for an empty text or an empty segment. -/
def segments? (path : String) : Option (List String) :=
  let whole := Text.trim path
  if whole.isEmpty then none
  else
    let parts := (Text.split (· = '.') whole).map Text.trim
    if parts.any String.isEmpty then none else some parts

/-- The segments of a path text, or a refusal of the text as given. -/
def split (path : String) : Except Error (List String) :=
  match segments? path with
  | some parts => .ok parts
  | none => .error (.invalidKey path)

/-- The last of some segments and those before it. -/
def unsnoc : List String → Option (List String × String)
  | [] => none
  | [name] => some ([], name)
  | parent :: rest => (unsnoc rest).map fun found => (parent :: found.1, found.2)

/-- The parent segments and the name of the place. -/
def splitLast (path : String) : Except Error (List String × String) :=
  match split path with
  | .error e => .error e
  | .ok parts =>
    match unsnoc parts with
    | some found => .ok found
    | none => .error (.invalidKey path)

/-- A parent and a name with a dot between them; an empty parent leaves the name. -/
def join (parent name : String) : String :=
  if parent.isEmpty then name else parent ++ "." ++ name

/-- Segments as one text. -/
def text (parts : List String) : String := parts.foldl join ""

-- ── The last segment ──────────────────────────────────────────────────────────────

/-- **Cutting off the last segment loses nothing.** -/
theorem unsnoc_append (parents : List String) (name : String) :
    unsnoc (parents ++ [name]) = some (parents, name) := by
  induction parents with
  | nil => rfl
  | cons p ps ih =>
      cases ps with
      | nil => rfl
      | cons q qs =>
          have step : unsnoc (p :: ((q :: qs) ++ [name])) =
              (unsnoc ((q :: qs) ++ [name])).map fun found => (p :: found.1, found.2) := rfl
          rw [List.cons_append, step, ih]
          rfl

/-- What is cut off and what is left make up the segments. -/
theorem eq_of_unsnoc {parts parents : List String} {name : String}
    (h : unsnoc parts = some (parents, name)) : parts = parents ++ [name] := by
  rcases List.eq_nil_or_concat parts with rfl | ⟨init, last, rfl⟩
  · simp [unsnoc] at h
  · rw [List.concat_eq_append, unsnoc_append] at h
    injection h with h
    injection h with h1 h2
    rw [List.concat_eq_append, h1, h2]

end ParamStore.Path
