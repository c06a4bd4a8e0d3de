import ParamStore.Proofs.Codec.Block
import ParamStore.Proofs.Codec.Parts

/-!
# Extents — a text is no shorter than what is read from it

The entries of a literal are made of the characters between its brackets, each of which is used once
    at most. So no entry is longer than the text, and since no word is empty, the rows of a
    literal have no more words than it has characters. A text whose characters can be counted has
    therefore no block whose places cannot, and the number of texts in a block is always the one
    that its matrix asks for.

* **`flatten_cutFrom_sublist`**, **`flatMap_wordRows_sublist`** — what a cut and the rows leave of
  a literal.
* **`length_le_of_mem_entryTokens`**, **`length_le_of_mem_blockTokens`** — texts of entries.
* **`counted_of_granted`**, **`length_of_blockTokens_eq`** — numbers of entries.
-/

namespace ParamStore.Literal

open Number (capacity wrapped wrapped_of_lt)

-- ── What is left of a literal ─────────────────────────────────────────────────────

/-- **The parts of a cut together are what is left of the text.** -/
theorem flatten_cutFrom_sublist (separates : Char → Bool) (d : Nat) (cs : List Char) :
    (cutFrom separates d cs).flatten.Sublist cs := by
  induction cs generalizing d with
  | nil => exact .slnil
  | cons c cs ih =>
      rcases stops_or_passes separates d c with ⟨hopen, hclose, rfl, hc⟩ | hpasses
      · rw [cutFrom_cons_of_stops hopen hclose hc]
        exact (ih 0).cons c
      · obtain ⟨part, more, hcut⟩ :=
          List.exists_cons_of_ne_nil (cutFrom_ne_nil separates (shift d c) cs)
        have hrest := ih (shift d c)
        rw [hcut] at hrest
        rw [cutFrom_cons_of_passes hpasses, hcut]
        exact hrest.cons_cons c

/-- **An entry of a literal is made of characters that stand between its brackets**, in their order. -/
theorem sublist_of_mem_entriesOf {cs : List Char} {text : String} (h : text ∈ entriesOf cs) :
    text.toList.Sublist cs := by
  have hpart : ∀ separates, ∀ part ∈ cutTop separates cs, part.Sublist cs :=
    fun separates part hmem =>
      (List.sublist_flatten_of_mem hmem).trans (flatten_cutFrom_sublist separates 0 cs)
  rw [entriesOf.eq_def] at h
  split at h
  · obtain ⟨part, hmem, rfl⟩ := List.mem_map.mp h
    rw [String.toList_ofList]
    exact hpart _ part (List.mem_of_mem_filter hmem)
  · obtain ⟨part, hmem, rfl⟩ := List.mem_map.mp h
    have hkept : part ∈ cutTop (· = ';') cs := by
      split at hmem
      · split at hmem
        · exact (List.dropLast_sublist _).subset hmem
        · exact hmem
      · exact hmem
    rw [String.toList_ofList]
    exact (Text.trimChars_sublist part).trans (hpart _ part hkept)

/-- **The words in the rows of a literal together are what is left of it.** -/
theorem flatMap_wordRows_sublist (cs : List Char) :
    ((wordRows cs).flatten.flatMap String.toList).Sublist cs := by
  rw [wordRows, ← List.flatMap_def, List.flatMap_assoc]
  refine (List.Sublist.flatMap_right _ fun part _ => Text.flatMap_words_sublist part).trans ?_
  refine (List.filter_sublist.flatMap _).trans ?_
  rw [Text.split, List.flatMap_map]
  simp only [String.toList_ofList]
  rw [List.flatMap_id']
  exact Text.flatten_pieces_sublist _ cs

theorem sublist_of_mem_wordRows {cs : List Char} {word : String}
    (h : word ∈ (wordRows cs).flatten) : word.toList.Sublist cs := by
  have hpart : word.toList.Sublist ((wordRows cs).flatten.flatMap String.toList) :=
    List.sublist_flatten_of_mem (List.mem_map_of_mem h)
  exact hpart.trans (flatMap_wordRows_sublist cs)

/-- Texts that are not empty are no more than they have characters together. -/
theorem length_le_length_flatMap {texts : List String} (h : ∀ text ∈ texts, text ≠ "") :
    texts.length ≤ (texts.flatMap String.toList).length := by
  induction texts with
  | nil => exact Nat.le_refl 0
  | cons text texts ih =>
      obtain ⟨hfull, hrest⟩ := List.forall_mem_cons.mp h
      have hpos : 0 < text.toList.length :=
        List.length_pos_iff.mpr fun hnil => hfull (String.toList_eq_nil_iff.mp hnil)
      have hmore := ih hrest
      rw [List.flatMap_cons, List.length_append, List.length_cons]
      omega

/-- **A literal has no more words in its rows than characters.** -/
theorem length_flatten_wordRows_le (cs : List Char) :
    (wordRows cs).flatten.length ≤ cs.length := by
  refine Nat.le_trans (length_le_length_flatMap ?_) (flatMap_wordRows_sublist cs).length_le
  intro word hword
  obtain ⟨row, hrow, hmem⟩ := List.mem_flatten.mp hword
  obtain ⟨part, -, rfl⟩ := List.mem_map.mp hrow
  exact (Text.mem_words hmem).1

/-- What a request takes of rows is what is left of them. -/
theorem flatten_taken_sublist (rows cols : Nat) (found : List (List String)) :
    (taken rows cols found).flatten.Sublist found.flatten := by
  rw [taken, ← List.flatMap_def]
  refine (List.Sublist.flatMap_right _ fun row _ => List.take_sublist _ row).trans ?_
  rw [List.flatMap_id']
  exact (List.take_sublist _ found).flatten

-- ── Texts and their characters ────────────────────────────────────────────────────

section Extent

variable {raw : String} {rows cols : Nat}

theorem length_trim_le (raw : String) : (Text.trim raw).length ≤ raw.length := by
  rw [← String.length_toList, ← String.length_toList, Text.toList_trim]
  exact (Text.trimChars_sublist raw.toList).length_le

/-- Between the brackets there are fewer characters than in the text. -/
theorem length_lt_of_inner {cs : List Char} (hinner : inner raw = .ok (some cs)) :
    cs.length < raw.length := by
  have hlength := length_trim_le raw
  rw [← String.length_toList, enclosed_of_inner hinner, List.length_cons,
    List.length_append] at hlength
  omega

theorem length_le_of_sublist {cs : List Char} (hinner : inner raw = .ok (some cs)) {text : String}
    (h : text.toList.Sublist cs) : text.length ≤ raw.length := by
  have hinside := h.length_le
  rw [String.length_toList] at hinside
  exact Nat.le_trans hinside (Nat.le_of_lt (length_lt_of_inner hinner))

/-- **Where an entry of a list comes from**: it is the trimmed text itself, or an entry of the literal. -/
theorem mem_entryTokens_cases {size : Nat} {texts : List String}
    (h : entryTokens raw size = .ok texts) {text : String} (hmem : text ∈ texts) :
    text = Text.trim raw ∨ ∃ cs, inner raw = .ok (some cs) ∧ text ∈ entriesOf cs := by
  unfold entryTokens at h
  split at h
  · cases h
  · left
    dsimp only at h
    split at h
    · obtain rfl := Except.ok.inj h
      split at hmem
      · cases hmem
      · exact List.mem_singleton.mp hmem
    · obtain rfl := Except.ok.inj h
      exact List.eq_of_mem_replicate hmem
  · next cs hinner =>
      refine .inr ⟨cs, hinner, ?_⟩
      dsimp only at h
      split at h
      · cases h
      · obtain rfl := Except.ok.inj h
        split at hmem
        · exact hmem
        · exact List.mem_of_mem_take hmem

/-- **No entry of a list is longer than the text that the list is read from.** -/
theorem length_le_of_mem_entryTokens {size : Nat} {texts : List String}
    (h : entryTokens raw size = .ok texts) : ∀ text ∈ texts, text.length ≤ raw.length := by
  intro text hmem
  rcases mem_entryTokens_cases h hmem with rfl | ⟨cs, hinner, hentry⟩
  · exact length_trim_le raw
  · exact length_le_of_sublist hinner (sublist_of_mem_entriesOf hentry)

/-- **No entry of a matrix is longer than the text that the matrix is read from.** -/
theorem length_le_of_mem_blockTokens {block : Block} (h : blockTokens raw rows cols = .ok block) :
    ∀ text ∈ block.texts, text.length ≤ raw.length := by
  intro text hmem
  rcases blockTokens_cases h with ⟨-, rfl⟩ | ⟨cs, hinner, -, rfl⟩
  · exact List.eq_of_mem_replicate hmem ▸ length_trim_le raw
  · have hword := (flatten_taken_sublist rows cols (rowTokens cs)).subset hmem
    rw [rowTokens_eq] at hword
    exact length_le_of_sublist hinner (sublist_of_mem_wordRows hword)

variable (hraw : raw.length < capacity)

include hraw

/-- **The places that are taken of a literal can be counted**, if its characters can. -/
theorem counted_of_granted {cs : List Char} (hinner : inner raw = .ok (some cs))
    (h : ¬Refused rows cols (rowTokens cs)) :
    requested rows (rowTokens cs).length * takenWidth rows cols (rowTokens cs) < capacity := by
  rw [← length_flatten_taken h]
  have htaken := (flatten_taken_sublist rows cols (rowTokens cs)).length_le
  have hwords := length_flatten_wordRows_le cs
  rw [← rowTokens_eq] at hwords
  have hinside := length_lt_of_inner hinner
  omega

/-- **A block has as many texts as its matrix asks for.** -/
theorem length_of_blockTokens_eq {block : Block} (h : blockTokens raw rows cols = .ok block) :
    block.texts.length = wrapped (block.rows * block.cols) := by
  rcases blockTokens_cases h with ⟨-, rfl⟩ | ⟨cs, hinner, hgranted, rfl⟩
  · exact List.length_replicate
  · have hcount := counted_of_granted hraw hinner hgranted
    exact (length_of_blockTokens h hcount).trans (wrapped_of_lt hcount).symm

end Extent

end ParamStore.Literal
