import ParamStore.Proofs.Path.Names
import ParamStore.Store.Ingest

/-!
# Arguments — tokens and the keys and values they stand for

An argument takes one token or two, and how many only shows in the first of them: whether it has an
    equals sign, once the dashes in front are gone. So a list of tokens has to be read from the
    front, and a token that is taken for a value is not looked at. A key that names a place, has no
    blank around it, no dash in front and no equals sign in it survives every way of writing it, and
    so does its value: any text after a key in a token of its own, and any without blanks around it
    after an equals sign.

* **`Given`** — a key, a value, and a way to write them as tokens.
* **`parse_joined`**, **`parse_apart`** — what one token, or two, at the front come to.
* **`parse_sound`** — tokens are refused for one of them, or all their keys name places.
* **`arguments_read_back`** — every list of given arguments is read back, and what else can happen.
-/

namespace ParamStore.Argument

-- ── What tokens may come to ───────────────────────────────────────────────────────

/-- What some tokens may come to: a refusal of one of them, or pairs whose keys name places. -/
def Sound (args : List String) : Except Error (List (String × String)) → Prop
  | .error e => ∃ token ∈ args, e = .invalidArgument token
  | .ok pairs => ∀ pair ∈ pairs, Path.segments? pair.1 ≠ none

/-- A checked key names a place; what is refused is the token. -/
theorem checkedKey_eq_ok {key token checked : String} (h : checkedKey key token = .ok checked) :
    Path.segments? checked ≠ none := by
  rw [checkedKey] at h
  cases hsegments : Path.segments? (Text.trim key) with
  | none =>
      rw [hsegments] at h
      cases h
  | some parts =>
      rw [hsegments] at h
      obtain rfl := Except.ok.inj h
      rw [hsegments]
      exact Option.some_ne_none parts

theorem checkedKey_eq_error {key token : String} {e : Error}
    (h : checkedKey key token = .error e) : e = .invalidArgument token := by
  rw [checkedKey] at h
  split at h
  · cases h
  · exact (Except.error.inj h).symm

/-- A pair in front of what the later tokens come to. -/
theorem Sound.cons {args rest : List String} {r : Except Error (List (String × String))}
    (h : Sound rest r) (hrest : rest ⊆ args) {pair : String × String}
    (hpair : Path.segments? pair.1 ≠ none) : Sound args (r.map (pair :: ·)) := by
  cases r with
  | error e =>
      obtain ⟨token, htoken, he⟩ := h
      exact ⟨token, hrest htoken, he⟩
  | ok pairs => exact List.forall_mem_cons.mpr ⟨hpair, h⟩

/-- **Tokens are refused for one of them, or all their keys name places.** -/
theorem parse_sound (args : List String) : Sound args (parse args) := by
  fun_induction parse args with
  | case1 => exact fun _ h => absurd h List.not_mem_nil
  | case2 token rest key value _ e hchecked =>
      exact ⟨token, List.mem_cons_self, checkedKey_eq_error hchecked⟩
  | case3 token rest key value _ checked hchecked ih =>
      exact ih.cons (List.subset_cons_self token rest) (checkedKey_eq_ok hchecked)
  | case4 token rest => exact ⟨token, List.mem_cons_self, rfl⟩
  | case5 token => exact ⟨token, List.mem_cons_self, rfl⟩
  | case6 token _ _ value rest e hchecked =>
      exact ⟨token, List.mem_cons_self, checkedKey_eq_error hchecked⟩
  | case7 token _ _ value rest key hchecked ih =>
      refine ih.cons ?_ (checkedKey_eq_ok hchecked)
      exact fun _ h => List.mem_cons_of_mem _ (List.mem_cons_of_mem _ h)

-- ── Written arguments ─────────────────────────────────────────────────────────────

/-- How a key and a value are written: as one token with two dashes, one or none in front, or as two
    tokens. -/
inductive Form where
  | twoDashes
  | oneDash
  | bare
  | apart
deriving DecidableEq

/-- A key and a value, and how they are written. -/
structure Given where
  key : String
  value : String
  form : Form

namespace Given

/-- The tokens of an argument. -/
def tokens : Given → List String
  | ⟨key, value, .twoDashes⟩ => ["--" ++ (key ++ "=" ++ value)]
  | ⟨key, value, .oneDash⟩ => ["-" ++ (key ++ "=" ++ value)]
  | ⟨key, value, .bare⟩ => [key ++ "=" ++ value]
  | ⟨key, value, .apart⟩ => ["--" ++ key, value]

/-- What the argument stands for. -/
def pair (g : Given) : String × String := (g.key, g.value)

end Given

/-- A key that can be written as an argument. -/
structure IsKey (key : String) : Prop where
  named : Path.segments? key ≠ none
  trimmed : Text.trim key = key
  unsplit : '=' ∉ key.toList
  undashed : key.toList.head? ≠ some '-'

instance (key : String) : Decidable (IsKey key) :=
  decidable_of_iff (Path.segments? key ≠ none ∧ Text.trim key = key ∧ '=' ∉ key.toList
      ∧ key.toList.head? ≠ some '-')
    ⟨fun h => ⟨h.1, h.2.1, h.2.2.1, h.2.2.2⟩, fun h => ⟨h.1, h.2, h.3, h.4⟩⟩

/-- The argument can be written in its form: a value in a token of its own may be any text, one after
    an equals sign has no blanks around it. -/
structure Given.Writable (g : Given) : Prop where
  key : IsKey g.key
  value : g.form ≠ .apart → Text.trim g.value = g.value

instance (g : Given) : Decidable g.Writable :=
  decidable_of_iff (IsKey g.key ∧ (g.form ≠ .apart → Text.trim g.value = g.value))
    ⟨fun h => ⟨h.1, h.2⟩, fun h => ⟨h.1, h.2⟩⟩

section Tokens

variable {key value token : String}

theorem IsKey.ne_empty (h : IsKey key) : key ≠ "" := by
  rintro rfl
  exact h.named rfl

theorem IsKey.uncut (h : IsKey key) : ∀ c ∈ key.toList, decide (c = '=') = false := by
  intro c hc
  refine decide_eq_false ?_
  rintro rfl
  exact h.unsplit hc

theorem IsKey.checkedKey (h : IsKey key) (token : String) : checkedKey key token = .ok key := by
  obtain ⟨parts, hparts⟩ := Option.ne_none_iff_exists'.mp h.named
  rw [Argument.checkedKey, h.trimmed, hparts]

/-- Dashes in front of a text without one are dropped, and no more. -/
theorem undashed_append {dashes text : String} (hdashes : dashes.toList.all (· = '-') = true)
    (htext : text.toList.head? ≠ some '-') : undashed (dashes ++ text) = text := by
  have hall := List.all_eq_true.mp hdashes
  have hrest : text.toList.dropWhile (fun c => decide (c = '-')) = text.toList := by
    cases hlist : text.toList with
    | nil => rfl
    | cons c cs =>
        rw [hlist, List.head?_cons] at htext
        have hc : ¬ decide (c = '-') = true := by
          intro heq
          exact htext (congrArg some (of_decide_eq_true heq))
        exact List.dropWhile_cons_of_neg hc
  rw [undashed, String.toList_append, List.dropWhile_append_of_pos hall, hrest, String.ofList_toList]

/-- What follows a key does not change what is in front. -/
theorem IsKey.head?_joined (h : IsKey key) (value : String) :
    (key ++ "=" ++ value).toList.head? ≠ some '-' := by
  have hne : key.toList ≠ [] := fun hnil => h.ne_empty (String.toList_eq_nil_iff.mp hnil)
  rw [String.toList_append, String.toList_append, List.append_assoc,
    List.head?_append_of_ne_nil _ hne]
  exact h.undashed

/-- **A token with an equals sign is an argument by itself.** The first sign counts, so the value may
    have others. -/
theorem parse_joined (hkey : IsKey key) (hvalue : Text.trim value = value)
    (htoken : undashed token = key ++ "=" ++ value) (rest : List String) :
    parse (token :: rest) = (parse rest).map ((key, value) :: ·) := by
  have hlist : (key ++ "=" ++ value).toList = key.toList ++ '=' :: value.toList := by simp
  have hsplit : Text.splitOnce (fun c => decide (c = '=')) (undashed token) = some (key, value) := by
    rw [Text.splitOnce, htoken, hlist, Text.cutOnce_append hkey.uncut (decide_eq_true rfl)]
    simp
  rw [parse.eq_def]
  dsimp only
  rw [hsplit]
  dsimp only
  rw [hkey.checkedKey]
  dsimp only
  rw [hvalue]

/-- **A token with dashes and without an equals sign takes the next one for its value**, whatever that
    looks like. -/
theorem parse_apart (hkey : IsKey key) (htoken : undashed token = key) (hdashes : token ≠ key)
    (value : String) (rest : List String) :
    parse (token :: value :: rest) = (parse rest).map ((key, value) :: ·) := by
  have hsplit : Text.splitOnce (fun c => decide (c = '=')) (undashed token) = none := by
    rw [Text.splitOnce, htoken, Text.cutOnce_of_uncut hkey.uncut]
    rfl
  rw [parse.eq_def]
  dsimp only
  rw [hsplit]
  dsimp only
  rw [htoken, if_neg hdashes.symm, hkey.checkedKey]

end Tokens

/-- The tokens of an argument in front of others come to its key and value. -/
theorem parse_tokens_append {g : Given} (h : g.Writable) (rest : List String) :
    parse (g.tokens ++ rest) = (parse rest).map (g.pair :: ·) := by
  obtain ⟨key, value, form⟩ := g
  obtain ⟨hkey, hvalue⟩ := h
  have hjoined := hkey.head?_joined value
  cases form with
  | twoDashes =>
      exact parse_joined hkey (hvalue (by simp)) (undashed_append (by decide) hjoined) rest
  | oneDash =>
      exact parse_joined hkey (hvalue (by simp)) (undashed_append (by decide) hjoined) rest
  | bare =>
      have htoken : undashed ("" ++ (key ++ "=" ++ value)) = key ++ "=" ++ value :=
        undashed_append (by decide) hjoined
      rw [String.empty_append] at htoken
      exact parse_joined hkey (hvalue (by simp)) htoken rest
  | apart =>
      have hdashes : "--" ++ key ≠ key := by
        intro heq
        have hlength := congrArg (fun text => text.toList.length) heq
        simp only [String.toList_append, List.length_append] at hlength
        exact absurd hlength (by simp)
      exact parse_apart hkey (undashed_append (by decide) hkey.undashed) hdashes value rest

/-- **Arguments are read back in order from the tokens they are written as.** -/
theorem parse_tokens {given : List Given} (h : ∀ g ∈ given, g.Writable) :
    parse (given.flatMap Given.tokens) = .ok (given.map Given.pair) := by
  induction given with
  | nil => rfl
  | cons g given ih =>
      obtain ⟨hg, hgiven⟩ := List.forall_mem_cons.mp h
      rw [List.flatMap_cons, parse_tokens_append hg, ih hgiven]
      rfl

/-- **Every way of writing arguments is read back**, in any mixture. And whatever the tokens are, they
    come to pairs whose keys all name places, or one of them is refused as it is. -/
theorem arguments_read_back :
    (∀ given : List Given, (∀ g ∈ given, g.Writable) →
      parse (given.flatMap Given.tokens) = .ok (given.map Given.pair))
    ∧ ∀ tokens : List String,
      (∃ pairs, parse tokens = .ok pairs ∧ ∀ pair ∈ pairs, Path.segments? pair.1 ≠ none)
      ∨ ∃ token ∈ tokens, parse tokens = .error (.invalidArgument token) := by
  refine ⟨fun given h => parse_tokens h, fun tokens => ?_⟩
  have hsound := parse_sound tokens
  cases hparse : parse tokens with
  | ok pairs =>
      rw [hparse] at hsound
      exact Or.inl ⟨pairs, rfl, hsound⟩
  | error e =>
      rw [hparse] at hsound
      obtain ⟨token, htoken, rfl⟩ := hsound
      exact Or.inr ⟨token, htoken, rfl⟩

/-- All four forms in one list: a value with an equals sign, an empty one, and values in tokens of
    their own that look like arguments. -/
theorem arguments_read_back_mixed :
    let given : List Given := [⟨"a.b", "x=1", .twoDashes⟩, ⟨"c", "--d=2", .apart⟩, ⟨"d", "", .oneDash⟩,
      ⟨"e", " - ", .apart⟩, ⟨"f g", "-", .bare⟩]
    (∀ g ∈ given, g.Writable)
      ∧ parse ["--a.b=x=1", "--c", "--d=2", "-d=", "--e", " - ", "f g=-"]
        = .ok [("a.b", "x=1"), ("c", "--d=2"), ("d", ""), ("e", " - "), ("f g", "-")] := by
  intro given
  have hwritable : ∀ g ∈ given, g.Writable := by decide +kernel
  exact ⟨hwritable, arguments_read_back.1 given hwritable⟩

end ParamStore.Argument
