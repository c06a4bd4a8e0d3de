/-!
# Blanks — which characters separate words, and what surrounds a text

Every rule of the store that ignores space ignores the same set: the 25 characters with the
    Unicode property White_Space. Trimming and cutting are defined on lists of characters,
    where they can be reasoned about, and lifted to strings.

* **`isBlank`** — the set itself.
* **`trim`** — a text without the blanks at its two ends.
* **`pieces`** — a text cut at every character of a class; `pieces_ne_nil` says that there is
  always at least one piece.
* **`words`** — the runs between blanks, none of them empty.
-/

namespace ParamStore.Text

/-- The characters with the Unicode property White_Space. -/
def isBlank (c : Char) : Bool :=
  let n := c.toNat
  (0x9 ≤ n && n ≤ 0xD) || n == 0x20 || n == 0x85 || n == 0xA0 || n == 0x1680
    || (0x2000 ≤ n && n ≤ 0x200A) || n == 0x2028 || n == 0x2029 || n == 0x202F
    || n == 0x205F || n == 0x3000

/-- What follows the leading blanks. -/
def trimStart (cs : List Char) : List Char := cs.dropWhile isBlank

/-- What precedes the trailing blanks. -/
def trimEnd (cs : List Char) : List Char := (cs.reverse.dropWhile isBlank).reverse

/-- Both ends freed from blanks. -/
def trimChars (cs : List Char) : List Char := trimEnd (trimStart cs)

/-- The text without the blanks at its two ends. -/
def trim (s : String) : String := String.ofList (trimChars s.toList)

/-- The text cut at every character of the class; a cut at an end leaves an empty piece there. -/
def pieces (cut : Char → Bool) : List Char → List (List Char)
  | [] => [[]]
  | c :: cs =>
    if cut c then [] :: pieces cut cs
    else match pieces cut cs with
      | [] => [[c]]
      | piece :: more => (c :: piece) :: more

/-- `pieces` on a string. -/
def split (cut : Char → Bool) (s : String) : List String :=
  (pieces cut s.toList).map String.ofList

/-- The runs of characters between blanks. -/
def words (s : String) : List String :=
  (split isBlank s).filter (fun w => !w.isEmpty)

/-- The part before the first character of the class and the part after it, if there is one. -/
def cutOnce (cut : Char → Bool) : List Char → Option (List Char × List Char)
  | [] => none
  | c :: cs =>
    if cut c then some ([], cs)
    else (cutOnce cut cs).map fun halves => (c :: halves.1, halves.2)

/-- `cutOnce` on a string. -/
def splitOnce (cut : Char → Bool) (s : String) : Option (String × String) :=
  (cutOnce cut s.toList).map fun halves => (String.ofList halves.1, String.ofList halves.2)

-- ── What trimming and cutting leave ───────────────────────────────────────────────

/-- A leading character that is no blank stays. -/
theorem trimStart_cons {c : Char} (h : isBlank c = false) (cs : List Char) :
    trimStart (c :: cs) = c :: cs := by
  simp [trimStart, h]

/-- **There is always a piece**: even the empty text has one, the empty piece. -/
theorem pieces_ne_nil (cut : Char → Bool) (cs : List Char) : pieces cut cs ≠ [] := by
  cases cs with
  | nil => simp [pieces]
  | cons c cs =>
      unfold pieces
      split
      · simp
      · split <;> simp

/-- A text without a cutting character is its own single piece. -/
theorem pieces_of_uncut (cut : Char → Bool) (cs : List Char) (h : ∀ c ∈ cs, cut c = false) :
    pieces cut cs = [cs] := by
  induction cs with
  | nil => rfl
  | cons c cs ih =>
      have hc : cut c = false := h c (by simp)
      have hcs : pieces cut cs = [cs] := ih fun d hd => h d (by simp [hd])
      simp [pieces, hc, hcs]

end ParamStore.Text
