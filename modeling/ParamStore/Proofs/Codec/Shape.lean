import Mathlib.Data.List.Forall2
import ParamStore.Proofs.Codec.Block
import ParamStore.Proofs.Codec.Causes

/-!
# Shapes that fit — when a request leaves a value as it is

A text that is read as a value without a request may be read as another value, or not at all, under a
    shape: a vector is cut to the requested size, a matrix to its upper left block, and a
    request for more than there is refuses the text. Which shapes leave the value as it is can
    be said of the value alone. A scalar is the same under every shape; a list asks for no
    size or its own; a matrix for no rows or its own, and no columns or its own.

* **`Shaped`** — a type that says which shapes fit a value, with the law that exactly these read it
  from each of its texts; all scalars, lists, lists of fixed length and matrices are.
* **`readAll_eq_ok_iff`**, **`readAll_eq_error_iff`** — texts that are read one by one;
  **`ReadsEach`** is both, and `mapM_eq_error_iff` the second for any reader.
* **`length_of_entryTokens`**, **`size_of_blockTokens`** — what a request fixes.
* **`entryTokens_length`**, **`blockTokens_of_fits`** — requests for what is there anyway.
-/

namespace ParamStore

/-- A type that says which shapes fit a value: exactly these read it from a text that is read as this
    value when nothing is requested. -/
class Shaped (α : Type) [Codec α] where
  /-- The shape requests nothing or what the value has. -/
  fits : α → Shape → Prop
  decode_iff {raw : String} {a : α} (h : Codec.read raw = .ok a) (shape : Shape) :
    Codec.decode raw shape = .ok a ↔ fits a shape

-- ── Scalars ───────────────────────────────────────────────────────────────────────

/-- Every shape fits the values of a codec that does not look at it. -/
@[reducible] def Shaped.ofShapeless {α : Type} [Codec α]
    (h : ∀ raw shape, (Codec.decode raw shape : Except Error α) = Codec.read raw) : Shaped α where
  fits _ _ := True
  decode_iff hread shape := by
    rw [h, hread]
    exact iff_of_true rfl trivial

instance : Shaped String := .ofShapeless fun _ _ => rfl
instance : Shaped Bool := .ofShapeless fun _ _ => by simp only [Codec.read, Codec.decode]
instance : Shaped Char := .ofShapeless fun _ _ => rfl
instance (k : Number.IntKind) : Shaped (Number.Ranged k) := .ofShapeless fun _ _ => rfl
instance (f : Number.BinaryFormat) : Shaped (Number.Binary f) := .ofShapeless fun _ _ => rfl

-- ── Texts read one by one ─────────────────────────────────────────────────────────

section Entries

variable {α : Type} [Codec α] {texts : List String}

/-- **Values for texts**: each is read from its own text. -/
theorem readAll_eq_ok_iff {xs : List α} : readAll texts = .ok xs
    ↔ List.Forall₂ (fun text value => Codec.read text = .ok value) texts xs := by
  induction texts generalizing xs with
  | nil =>
      rw [List.forall₂_nil_left_iff]
      exact ⟨fun h => (Except.ok.inj h).symm, fun h => congrArg Except.ok h.symm⟩
  | cons text texts ih =>
      rw [readAll_cons, List.forall₂_cons_left_iff]
      cases hread : (Codec.read text : Except Error α) with
      | error e =>
          refine iff_of_false (by simp) ?_
          rintro ⟨value, _, hvalue, -, -⟩
          exact absurd hvalue (by simp)
      | ok value =>
          constructor
          · intro h
            cases hrest : (readAll texts : Except Error (List α)) with
            | error e =>
                rw [hrest] at h
                cases h
            | ok values =>
                rw [hrest] at h
                exact ⟨value, values, rfl, ih.mp hrest, (Except.ok.inj h).symm⟩
          · rintro ⟨_, values, hvalue, hvalues, rfl⟩
            obtain rfl := Except.ok.inj hvalue
            rw [ih.mpr hvalues]
            rfl

omit [Codec α] in
/-- **A refusal is that of the first text that is refused**, whatever the texts are read by. -/
theorem mapM_eq_error_iff {read : String → Except Error α} {e : Error} :
    texts.mapM read = .error e
      ↔ ∃ front text back, texts = front ++ text :: back
        ∧ (∀ earlier ∈ front, ∃ value, read earlier = .ok value) ∧ read text = .error e := by
  induction texts with
  | nil =>
      refine iff_of_false (by simp [pure, Except.pure]) ?_
      rintro ⟨front, text, back, hnil, -⟩
      exact absurd hnil.symm (by simp)
  | cons first texts ih =>
      rw [mapM_cons_eq]
      cases hread : read first with
      | error e' =>
          constructor
          · intro h
            obtain rfl := Except.error.inj h
            exact ⟨[], first, texts, rfl, fun _ hmem => absurd hmem List.not_mem_nil, hread⟩
          · rintro ⟨front, text, back, heq, hfront, htext⟩
            cases front with
            | nil =>
                obtain ⟨rfl, -⟩ := List.cons.inj heq
                obtain rfl := Except.error.inj (hread.symm.trans htext)
                rfl
            | cons earlier front =>
                obtain ⟨rfl, -⟩ := List.cons.inj heq
                obtain ⟨value, hvalue⟩ := hfront first List.mem_cons_self
                rw [hread] at hvalue
                cases hvalue
      | ok value =>
          have hstep : (texts.mapM read).map (value :: ·) = .error e
              ↔ texts.mapM read = .error e := by
            cases texts.mapM read with
            | error _ => exact Iff.rfl
            | ok _ => exact iff_of_false (by simp [Except.map]) (by simp)
          refine hstep.trans (ih.trans ?_)
          constructor
          · rintro ⟨front, text, back, rfl, hfront, htext⟩
            exact ⟨first :: front, text, back, rfl,
              List.forall_mem_cons.mpr ⟨⟨value, hread⟩, hfront⟩, htext⟩
          · rintro ⟨front, text, back, heq, hfront, htext⟩
            cases front with
            | nil =>
                obtain ⟨rfl, -⟩ := List.cons.inj heq
                rw [hread] at htext
                cases htext
            | cons earlier front =>
                obtain ⟨rfl, rfl⟩ := List.cons.inj heq
                exact ⟨front, text, back, rfl, (List.forall_mem_cons.mp hfront).2, htext⟩

theorem readAll_eq_error_iff {e : Error} : (readAll texts : Except Error (List α)) = .error e
    ↔ ∃ front text back, texts = front ++ text :: back
      ∧ (∀ earlier ∈ front, ∃ value : α, Codec.read earlier = .ok value)
      ∧ (Codec.read text : Except Error α) = .error e :=
  mapM_eq_error_iff

/-- What comes of reading texts in order: a value for each of them, or the refusal of the first one
    that is refused. -/
structure ReadsEach (texts : List String) (outcome : Except Error (List α)) : Prop where
  values (xs : List α) : outcome = .ok xs
    ↔ List.Forall₂ (fun text value => Codec.read text = .ok value) texts xs
  refusal (e : Error) : outcome = .error e ↔ ∃ front text back, texts = front ++ text :: back
    ∧ (∀ earlier ∈ front, ∃ value : α, Codec.read earlier = .ok value)
    ∧ (Codec.read text : Except Error α) = .error e

/-- **Texts are read one by one**, each on its own. -/
theorem readsEach_readAll (texts : List String) :
    ReadsEach texts (readAll texts : Except Error (List α)) :=
  ⟨fun _ => readAll_eq_ok_iff, fun _ => readAll_eq_error_iff⟩

/-- There is a value for each text. -/
theorem length_of_readAll {xs : List α} (h : readAll texts = .ok xs) :
    xs.length = texts.length := (readAll_eq_ok_iff.mp h).length_eq.symm

end Entries

-- ── Entries of a vector ───────────────────────────────────────────────────────────

namespace Literal

/-- A requested size is the number of entries. -/
theorem length_of_entryTokens {raw : String} {size : Nat} {texts : List String}
    (h : entryTokens raw size = .ok texts) : size = 0 ∨ texts.length = size := by
  by_cases hsize : size = 0
  · exact .inl hsize
  · refine .inr ?_
    unfold entryTokens at h
    split at h
    · exact nomatch h
    · dsimp only at h
      rw [if_neg hsize] at h
      obtain rfl := Except.ok.inj h
      exact List.length_replicate
    · dsimp only at h
      rw [if_neg hsize] at h
      split at h
      · exact nomatch h
      · next henough =>
          obtain rfl := Except.ok.inj h
          exact List.length_take_of_le (Nat.not_lt.mp henough)

/-- **A request for as many entries as there are changes nothing.** -/
theorem entryTokens_length {raw : String} {texts : List String}
    (h : entryTokens raw 0 = .ok texts) : entryTokens raw texts.length = .ok texts := by
  unfold entryTokens at h ⊢
  split at h
  · exact nomatch h
  · dsimp only at h ⊢
    rw [if_pos rfl] at h
    obtain rfl := Except.ok.inj h
    -- a blank text has no entry, and any other one is its own only entry
    split
    · rfl
    · rfl
  · dsimp only at h ⊢
    rw [if_neg (Nat.not_lt_zero _), if_pos rfl] at h
    obtain rfl := Except.ok.inj h
    rw [if_neg (Nat.lt_irrefl _), List.take_length, ite_self]

-- ── Blocks of a matrix ────────────────────────────────────────────────────────────

/-- **Requested numbers of rows and columns are those of the block.** -/
theorem size_of_blockTokens {raw : String} {rows cols : Nat} {block : Block}
    (h : blockTokens raw rows cols = .ok block) :
    (rows = 0 ∨ block.rows = rows) ∧ (cols = 0 ∨ block.cols = cols) := by
  have hrequested : ∀ count all, count = 0 ∨ requested count all = count := by
    intro count all
    exact (Nat.eq_zero_or_pos count).imp_right fun hpos => requested_of_pos hpos all
  rcases blockTokens_cases h with ⟨-, rfl⟩ | ⟨cs, -, -, rfl⟩
  · dsimp only
    omega
  · exact ⟨hrequested rows _, hrequested cols _⟩

theorem requested_of_fits {count all : Nat} (h : count = 0 ∨ count = all) :
    requested count all = all := by
  rcases h with rfl | rfl
  · exact requested_zero all
  · rw [requested, ite_self]

/-- **A request for the rows and columns that there are changes nothing.** -/
theorem blockTokens_of_fits {raw : String} {rows cols : Nat} {block : Block}
    (h : blockTokens raw 0 0 = .ok block) (hrows : rows = 0 ∨ rows = block.rows)
    (hcols : cols = 0 ∨ cols = block.cols) : blockTokens raw rows cols = .ok block := by
  rcases blockTokens_cases h with ⟨hinner, rfl⟩ | ⟨cs, hinner, hgranted, rfl⟩
  · -- a text without brackets fills one row and one column
    have hrow : max rows 1 = max 0 1 := by
      dsimp only at hrows
      omega
    have hcol : max cols 1 = max 0 1 := by
      dsimp only at hcols
      omega
    rw [blockTokens_of_plain hinner, hrow, hcol]
  · have hwidth := granted_zero_iff.mp hgranted
    dsimp only at hrows hcols
    rw [requested_zero] at hrows
    by_cases hne : rowTokens cs = []
    · -- there is nothing to ask for
      rw [hne] at hrows hcols
      obtain rfl : rows = 0 := hrows.elim id id
      obtain rfl : cols = 0 := hcols.elim id id
      exact h
    · have hall := takenWidth_of_width hwidth hne
      rw [hall, requested_zero] at hcols
      have hgranted' : ¬Refused rows cols (rowTokens cs) :=
        granted_of_width hwidth (by omega) (by omega)
      rw [blockTokens_of_granted hinner hgranted', taken, taken, hall, hall,
        requested_of_fits hrows, requested_of_fits hcols, requested_zero, requested_zero]

end Literal

-- ── Lists and matrices ────────────────────────────────────────────────────────────

section Entries

variable {α : Type} [Codec α]

/-- A list is read from its entry texts, cut to the requested size. -/
theorem decode_list_eq_ok_iff {raw : String} {shape : Shape} {xs : List α} :
    Codec.decode raw shape = .ok xs
      ↔ ∃ texts, Literal.entryTokens raw shape.size = .ok texts ∧ readAll texts = .ok xs := by
  simp only [Codec.decode]
  cases Literal.entryTokens raw shape.size with
  | error e => simp
  | ok texts => simp

instance : Shaped (List α) where
  fits xs shape := shape.size = 0 ∨ shape.size = xs.length
  decode_iff {raw xs} hread shape := by
    obtain ⟨texts, htokens, hvalues⟩ := decode_list_eq_ok_iff.mp hread
    rw [decode_list_eq_ok_iff]
    constructor
    · rintro ⟨texts', htokens', hvalues'⟩
      refine (Literal.length_of_entryTokens htokens').imp_right fun hsize => ?_
      rw [← hsize, length_of_readAll hvalues']
    · rintro (hsize | hsize)
      · exact ⟨texts, by rw [hsize]; exact htokens, hvalues⟩
      · rw [hsize, length_of_readAll hvalues]
        exact ⟨texts, Literal.entryTokens_length htokens, hvalues⟩

instance {n : Nat} : Shaped (FixedList α n) where
  fits _ shape := shape.size = 0 ∨ shape.size = n
  decode_iff {raw xs} hread shape := by
    constructor
    · intro h
      refine Decidable.byContradiction fun hshape => ?_
      simp only [Codec.decode, if_pos (not_or.mp hshape)] at h
      exact nomatch h
    · intro hshape
      -- the length of the type is what is requested of the list in either case
      rw [← hread]
      have hnone : ¬(Shape.any.size ≠ 0 ∧ Shape.any.size ≠ n) := fun hany => hany.1 rfl
      have hfits : ¬(shape.size ≠ 0 ∧ shape.size ≠ n) := fun hne => hshape.elim hne.1 hne.2
      simp only [Codec.read, Codec.decode, if_neg hnone, if_neg hfits]

/-- A matrix is read from a block of entry texts and has its rows and columns. -/
theorem decode_matrix_eq_ok_iff {raw : String} {shape : Shape} {m : Matrix α} :
    Codec.decode raw shape = .ok m
      ↔ ∃ block, Literal.blockTokens raw shape.size shape.cols = .ok block
        ∧ ∃ entries, readAll block.texts = .ok entries
          ∧ Matrix.ofEntries block.rows block.cols entries = .ok m := by
  simp only [Codec.decode]
  cases Literal.blockTokens raw shape.size shape.cols with
  | error e => simp
  | ok block =>
      dsimp only
      cases hvalues : (readAll block.texts : Except Error (List α)) with
      | error e => simp [hvalues]
      | ok entries => simp [hvalues]

instance : Shaped (Matrix α) where
  fits m shape :=
    (shape.size = 0 ∨ shape.size = m.rows) ∧ (shape.cols = 0 ∨ shape.cols = m.cols)
  decode_iff {raw m} hread shape := by
    obtain ⟨block, htokens, entries, hvalues, hbuilt⟩ := decode_matrix_eq_ok_iff.mp hread
    obtain ⟨hrows, hcols, -⟩ := Matrix.ofEntries_eq_ok_iff.mp hbuilt
    rw [decode_matrix_eq_ok_iff, hrows, hcols]
    constructor
    · rintro ⟨block', htokens', entries', -, hbuilt'⟩
      obtain ⟨hrows', hcols', -⟩ := Matrix.ofEntries_eq_ok_iff.mp hbuilt'
      obtain ⟨hsize, hwidth⟩ := Literal.size_of_blockTokens htokens'
      omega
    · rintro ⟨hsize, hwidth⟩
      exact ⟨block, Literal.blockTokens_of_fits htokens hsize hwidth, entries, hvalues, hbuilt⟩

end Entries

end ParamStore
