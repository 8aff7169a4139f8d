import StoryWorld.Proofs.Accessors
import StoryWorld.Proofs.Spaced

/-!
What single tokens are made of.

Each kind of token has its values, and each token its source: the value, or for a string the value
between two quotes of a kind that is not in it. What the scan takes for a token is a value of its
kind, and its source stands there. Conversely every source of a value is taken for that token, if
nothing or a blank follows.
-/

namespace StoryWorld.Token

/-! ### Values and sources -/

/-- The values that tokens of a kind have. -/
inductive IsValue : TokenKind → List Char → Prop
  | lparen : IsValue .lparen ['(']
  | rparen : IsValue .rparen [')']
  | compare (op : ComparisonOp) : IsValue .compare op.sign
  | arithmetic (op : ArithmeticOp) : IsValue .arithmetic [op.sign]
  | string {quote s} (hquote : quote = '\x22' ∨ quote = '\x27') (free : quote ∉ s) :
    IsValue .string s
  | whole {s} (ne : s ≠ []) (all : ∀ c ∈ s, Text.isDigit c = true) : IsValue .number s
  | decimal {whole fraction} (hwhole : ∀ c ∈ whole, Text.isDigit c = true) (ne : fraction ≠ [])
    (hfraction : ∀ c ∈ fraction, Text.isDigit c = true) :
    IsValue .number (whole ++ '.' :: fraction)
  | word {c s} (start : Segment.startsIdentifier c = true)
    (more : ∀ d ∈ s, continuesWord d = true) : IsValue (wordKind (c :: s)) (c :: s)

/-- The texts that a token of a kind with a value can stand for: the value itself, or for a string
the value between two quotes of one kind, which is not in it. -/
inductive Source : TokenKind → List Char → List Char → Prop
  | plain {kind value} (h : kind ≠ .string) : Source kind value value
  | quoted {quote value} (hquote : quote = '\x22' ∨ quote = '\x27') (free : quote ∉ value) :
    Source .string value (quote :: (value ++ [quote]))

/-- How many characters a token stands for. -/
def width (t : Token) : Nat :=
  if t.kind = .string then t.value.length + 2 else t.value.length

theorem Source.length_eq {t : Token} {word : List Char} (h : Source t.kind t.value word) :
    word.length = t.width := by
  obtain ⟨kind, value, position⟩ := t
  cases h with
  | plain h => exact (if_neg h).symm
  | quoted => simp [width]

/-! ### Numerals -/

variable {s rest value : List Char} {c : Char} {kind : TokenKind} {l : Lexeme}

theorem numeral?_sound {digits : List Char} (h : numeral? s = some digits) :
    IsValue .number digits ∧ ∃ tail, s = digits ++ tail := by
  have hs := (List.takeWhile_append_dropWhile (p := Text.isDigit) (l := s)).symm
  have hall : ∀ d ∈ s.takeWhile Text.isDigit, Text.isDigit d = true :=
    fun d hd => List.mem_takeWhile_imp hd
  have hwhole : ∀ {tail}, s.dropWhile Text.isDigit = tail →
      (if (s.takeWhile Text.isDigit).isEmpty then none else some (s.takeWhile Text.isDigit)) =
        some digits → IsValue .number digits ∧ ∃ tail, s = digits ++ tail := by
    intro tail htail h
    split_ifs at h with hempty
    cases h
    exact ⟨.whole (by simpa using hempty) hall, _, hs⟩
  unfold numeral? at h
  split at h
  · next rest hdrop =>
    simp only at h
    split_ifs at h with hfraction hempty
    · cases h
      rw [hdrop] at hs
      refine ⟨.decimal hall (by simpa using hfraction) fun d hd => List.mem_takeWhile_imp hd,
        rest.dropWhile Text.isDigit, ?_⟩
      rw [List.append_assoc, List.cons_append, List.takeWhile_append_dropWhile]
      exact hs
    · exact hwhole hdrop (by rw [if_neg hempty]; exact h)
  · exact hwhole rfl h

/-! ### What the scan takes -/

/-- A lexeme at the start of a text: a token with a value of its kind, whose source stands there. -/
structure Starts (l : Lexeme) (s : List Char) : Prop where
  value : IsValue l.kind l.value
  source : ∃ word tail, s = word ++ tail ∧ Source l.kind l.value word ∧ l.width = word.length

/-- A token that is no string stands for its value. -/
theorem starts_plain (hv : IsValue kind value) (hk : kind ≠ .string) (tail : List Char) :
    Starts ⟨kind, value, value.length⟩ (value ++ tail) :=
  ⟨hv, value, tail, rfl, .plain hk, rfl⟩

theorem wordKind_ne_string (word : List Char) : wordKind word ≠ .string := by
  unfold wordKind
  split_ifs <;> simp

theorem starts_string (hquote : c = '\x22' ∨ c = '\x27') (h : string? c rest = some l) :
    Starts l (c :: rest) := by
  unfold string? at h
  split at h
  · cases h
  · next d tail hdrop =>
    cases h
    obtain ⟨-, hfree, hrest⟩ := Json.split_at_first hdrop
    refine ⟨.string hquote hfree, _, tail, ?_, .quoted hquote hfree, by simp⟩
    rw [List.cons_append, List.append_assoc, List.singleton_append, ← hrest]

/-- A comparison of two characters is one of those with an equals sign in second place. -/
theorem starts_long (h : rest.head?.any (isLongComparison c) = true) :
    Starts ⟨.compare, [c, '='], 2⟩ (c :: rest) := by
  cases rest with
  | nil => cases h
  | cons d rest =>
    rw [List.head?_cons, Option.any_some] at h
    simp only [isLongComparison, Bool.and_eq_true, Bool.or_eq_true, beq_iff_eq] at h
    obtain ⟨rfl, hc⟩ := h
    have hvalue : IsValue .compare [c, '='] := by
      rcases hc with ((rfl | rfl) | rfl) | rfl
      · exact .compare .eq
      · exact .compare .ne
      · exact .compare .ge
      · exact .compare .le
    exact starts_plain hvalue (by simp) rest

theorem starts_short (h : c = '>' ∨ c = '<') (rest : List Char) :
    Starts ⟨.compare, [c], 1⟩ (c :: rest) := by
  have hvalue : IsValue .compare [c] := by
    rcases h with rfl | rfl
    · exact .compare .gt
    · exact .compare .lt
  exact starts_plain hvalue (by simp) rest

theorem starts_arithmetic (h : isArithmetic c = true) (rest : List Char) :
    Starts ⟨.arithmetic, [c], 1⟩ (c :: rest) := by
  have hvalue : IsValue .arithmetic [c] := by
    simp only [isArithmetic, Bool.or_eq_true, beq_iff_eq] at h
    rcases h with ((rfl | rfl) | rfl) | rfl
    · exact .arithmetic .add
    · exact .arithmetic .sub
    · exact .arithmetic .mul
    · exact .arithmetic .div
  exact starts_plain hvalue (by simp) rest

theorem continuesWord_of_starts (h : Segment.startsIdentifier c = true) :
    continuesWord c = true := by
  simp [continuesWord, Segment.continues_of_starts h]

theorem starts_word (h : Segment.startsIdentifier c = true) (rest : List Char) :
    Starts ⟨wordKind ((c :: rest).takeWhile continuesWord), (c :: rest).takeWhile continuesWord,
      ((c :: rest).takeWhile continuesWord).length⟩ (c :: rest) := by
  have hvalue : IsValue (wordKind ((c :: rest).takeWhile continuesWord))
      ((c :: rest).takeWhile continuesWord) := by
    rw [List.takeWhile_cons_of_pos (continuesWord_of_starts h)]
    exact .word h fun d hd => List.mem_takeWhile_imp hd
  have hstarts := starts_plain hvalue (wordKind_ne_string _) ((c :: rest).dropWhile continuesWord)
  rwa [List.takeWhile_append_dropWhile] at hstarts

theorem starts_of_lexeme (h : lexeme c rest = .ok l) : Starts l (c :: rest) := by
  unfold lexeme at h
  split at h
  · next hc =>
    cases h
    subst hc
    exact starts_plain .lparen (by simp) rest
  split at h
  · next hc =>
    cases h
    subst hc
    exact starts_plain .rparen (by simp) rest
  split at h
  · next hlong =>
    cases h
    exact starts_long hlong
  split at h
  · next hshort =>
    cases h
    exact starts_short hshort rest
  split at h
  · next harithmetic =>
    cases h
    exact starts_arithmetic harithmetic rest
  split at h
  · next hquote =>
    split at h
    · next l' hstring =>
      cases h
      exact starts_string hquote hstring
    · cases h
  split at h
  · next digits hdigits =>
    cases h
    obtain ⟨hvalue, tail, htail⟩ := numeral?_sound hdigits
    rw [htail]
    exact starts_plain hvalue (by simp) tail
  split at h
  · next hstart =>
    cases h
    exact starts_word hstart rest
  split at h <;> cases h

/-! ### What is taken before a blank -/

/-- A text that goes on with nothing or with a blank. -/
def Ends (rest : List Char) : Prop := ∀ c ∈ rest.head?, Text.isBlank c = true

/-- A text is a lexeme wherever nothing or a blank follows it. -/
def Taken (kind : TokenKind) (value word : List Char) : Prop :=
  ∃ c more, word = c :: more ∧ Text.isBlank c = false ∧
    ∀ rest, Ends rest → lexeme c (more ++ rest) = .ok ⟨kind, value, word.length⟩

theorem Ends.stops (h : Ends rest) {p : Char → Bool}
    (hp : ∀ c, p c = true → Text.isBlank c = false) : Json.Stops p rest := by
  intro c hc
  rw [Bool.eq_false_iff]
  intro hpc
  have hblank := h c hc
  rw [hp c hpc] at hblank
  cases hblank

theorem taken_compare (op : ComparisonOp) : Taken .compare op.sign op.sign := by
  obtain ⟨c, more, hsign, hblank⟩ : ∃ c more, op.sign = c :: more ∧ Text.isBlank c = false := by
    cases op <;> exact ⟨_, _, rfl, by decide⟩
  refine ⟨c, more, hsign, hblank, fun rest hrest => lexeme_comparison op hsign ?_⟩
  refine hrest.stops fun d hd => ?_
  obtain rfl : d = '=' := by simpa using hd
  decide

theorem taken_arithmetic (op : ArithmeticOp) : Taken .arithmetic [op.sign] [op.sign] :=
  ⟨op.sign, [], rfl, by cases op <;> decide, fun rest _ => lexeme_arithmetic op rest⟩

theorem lexeme_quote (hquote : c = '\x22' ∨ c = '\x27') (h : string? c rest = some l) :
    lexeme c rest = .ok l := by
  have hlong : rest.head?.any (isLongComparison c) = false := by
    rcases hquote with rfl | rfl <;> exact not_isLongComparison (by decide) rest
  rcases hquote with rfl | rfl <;> simp [lexeme, hlong, isArithmetic, h]

theorem taken_string {quote : Char} (hquote : quote = '\x22' ∨ quote = '\x27')
    (hfree : quote ∉ value) : Taken .string value (quote :: (value ++ [quote])) := by
  refine ⟨quote, _, rfl, by rcases hquote with rfl | rfl <;> decide, fun rest _ => ?_⟩
  obtain ⟨htake, hdrop⟩ := Json.run_to_first hfree rest
  refine lexeme_quote hquote ?_
  rw [List.append_assoc, List.singleton_append, string?, htake, hdrop]
  simp

/-- A numeral is taken where its first character is no sign. -/
theorem taken_numeral (hc : Text.isDigit c = true ∨ c = '.') {more : List Char}
    (h : ∀ rest, Ends rest → numeral? (c :: more ++ rest) = some (c :: more)) :
    Taken .number (c :: more) (c :: more) := by
  have hsign : c ∉ signs := by
    rcases hc with hc | rfl
    · exact not_mem_signs_of_isDigit hc
    · decide
  have hblank : Text.isBlank c = false := by
    rcases hc with hc | rfl
    · exact Text.isBlank_of_isDigit hc
    · decide
  refine ⟨c, more, rfl, hblank, fun rest hrest => ?_⟩
  rw [lexeme_of_not_mem_signs hsign, ← List.cons_append, h rest hrest]

theorem numeral?_decimal {whole fraction : List Char} (hwhole : ∀ c ∈ whole, Text.isDigit c = true)
    (hne : fraction ≠ []) (hfraction : ∀ c ∈ fraction, Text.isDigit c = true)
    (hrest : Json.Stops Text.isDigit rest) :
    numeral? (whole ++ '.' :: fraction ++ rest) = some (whole ++ '.' :: fraction) := by
  have hpoint : Json.Stops Text.isDigit ('.' :: (fraction ++ rest)) := by
    intro c hc
    cases hc
    decide
  unfold numeral?
  rw [List.append_assoc, List.cons_append, Json.takeWhile_run hwhole hpoint,
    Json.dropWhile_run hwhole hpoint]
  simp [Json.takeWhile_run hfraction hrest, hne]

theorem stops_word (hrest : Ends rest) : Json.Stops continuesWord rest := by
  refine hrest.stops fun d hd => ?_
  simp only [continuesWord, Bool.or_eq_true, beq_iff_eq, Segment.isBracket] at hd
  rcases hd with (hd | rfl) | rfl | rfl
  · exact Segment.not_isBlank_of_continues hd
  · decide
  · decide
  · decide

theorem taken_word (hstart : Segment.startsIdentifier c = true)
    (hmore : ∀ d ∈ s, continuesWord d = true) :
    Taken (wordKind (c :: s)) (c :: s) (c :: s) := by
  have hcontinues := Segment.continues_of_starts hstart
  have hsign : c ∉ signs := not_mem_signs (by decide +kernel) hstart
  have hdigit := Segment.not_isDigit_of_starts hstart
  have hpoint : c ≠ '.' := by
    rintro rfl
    exact absurd hstart (by decide)
  refine ⟨c, s, rfl, Segment.not_isBlank_of_continues hcontinues, fun rest hrest => ?_⟩
  have hnumeral : numeral? (c :: (s ++ rest)) = none := by
    unfold numeral?
    rw [List.takeWhile_cons_of_neg (by simp [hdigit]),
      List.dropWhile_cons_of_neg (by simp [hdigit])]
    split
    · next heq => exact absurd (List.cons.inj heq).1 hpoint
    · rfl
  have htake : (c :: (s ++ rest)).takeWhile continuesWord = c :: s :=
    Json.takeWhile_run (List.forall_mem_cons.2 ⟨continuesWord_of_starts hstart, hmore⟩)
      (stops_word hrest)
  rw [lexeme_of_not_mem_signs hsign, hnumeral]
  simp only [hstart, if_true, htake]

/-- Every source of a value is taken for the token of that value, where nothing or a blank follows
it. -/
theorem taken_of_source (hv : IsValue kind value) {word : List Char} (hs : Source kind value word) :
    Taken kind value word := by
  cases hs with
  | quoted hquote free => exact taken_string hquote free
  | plain hk =>
    cases hv with
    | lparen => exact ⟨'(', [], rfl, by decide, fun rest _ => rfl⟩
    | rparen => exact ⟨')', [], rfl, by decide, fun rest _ => rfl⟩
    | compare op => exact taken_compare op
    | arithmetic op => exact taken_arithmetic op
    | string => exact absurd rfl hk
    | whole ne all =>
      obtain ⟨c, s, rfl⟩ := List.exists_cons_of_ne_nil ne
      refine taken_numeral (.inl (all c List.mem_cons_self)) fun rest hrest => ?_
      refine numeral?_whole ne all (hrest.stops fun d hd => ?_)
      rcases (by simpa using hd : Text.isDigit d = true ∨ d = '.') with hd | rfl
      · exact Text.isBlank_of_isDigit hd
      · decide
    | @decimal whole fraction hwhole ne hfraction =>
      have hstop : ∀ {rest}, Ends rest → Json.Stops Text.isDigit rest :=
        fun hrest => hrest.stops fun d hd => Text.isBlank_of_isDigit hd
      cases whole with
      | nil => exact taken_numeral (.inr rfl) fun rest hrest =>
          numeral?_decimal hwhole ne hfraction (hstop hrest)
      | cons c whole => exact taken_numeral (.inl (hwhole c List.mem_cons_self)) fun rest hrest =>
          numeral?_decimal hwhole ne hfraction (hstop hrest)
    | word start more => exact taken_word start more

end StoryWorld.Token
