import StoryWorld.Path.Segment
import StoryWorld.Proofs.Spelling

/-!
Which texts are segments of a path.

A segment is a text without brackets, or an identifier with an accessor in brackets: a run of
digits, or a text in quotes of either kind that does not hold its own quote. These texts and no
others are read as the segments that they denote, but for one more: behind the closing bracket of an
accessor a line feed may stand.
-/

namespace StoryWorld.Segment

/-! ### The language of segments -/

/-- An identifier: letters, digits and underscores, no digit in front. -/
def IsIdentifier (s : List Char) : Prop :=
  ∃ c rest, s = c :: rest ∧ startsIdentifier c = true ∧ ∀ d ∈ rest, continuesIdentifier d = true

/-- How the inside of an accessor is written: as a run of digits, or between two quotes of either
kind as a text that does not hold that quote. -/
inductive Index.Written : Index → List Char → Prop
  | digits {s} (ne : s ≠ []) (all : ∀ d ∈ s, Text.isDigit d = true) : Written (.digits s) s
  | quoted {quote s} (hquote : quote = '\x22' ∨ quote = '\x27') (free : quote ∉ s) :
    Written (.quoted s) (quote :: (s ++ [quote]))

/-- An identifier with an accessor behind it, whose closing bracket is the last character. -/
inductive Accessed (name : List Char) (index : Index) : List Char → Prop
  | intro {inside} (hname : IsIdentifier name) (hinside : index.Written inside) :
    Accessed name index (name ++ '[' :: (inside ++ [']']))

/-- The texts that denote a segment: names without brackets, and identifiers with an accessor. -/
inductive Denotes : List Char → Segment → Prop
  | name {s} (ne : s ≠ []) (plain : ∀ c ∈ s, isBracket c = false) :
    Denotes s ⟨String.ofList s, none⟩
  | position {name digits raw} (h : Accessed name (.digits digits) raw)
    (short : digits.length ≤ Text.numeralLimit) :
    Denotes raw ⟨String.ofList name, some (.position (Text.natOfDigits digits))⟩
  | key {name s raw} (h : Accessed name (.quoted s) raw) :
    Denotes raw ⟨String.ofList name, some (.key (String.ofList s))⟩

/-- An identifier with an accessor as it is read: a line feed may follow the closing bracket. -/
def Indexed (name : List Char) (index : Index) (raw : List Char) : Prop :=
  Accessed name index raw ∨ ∃ body, raw = body ++ ['\n'] ∧ Accessed name index body

/-! ### Reading an accessor -/

variable {name raw s : List Char} {index : Index}

theorem closes_iff : closes s = true ↔ s = [']'] ∨ s = [']', '\n'] := by
  simp [closes]

theorem index?_quote {quote : Char} (hquote : quote = '\x22' ∨ quote = '\x27') (rest : List Char) :
    index? (quote :: rest) = some index ↔
      ∃ s tail, quote ∉ s ∧ closes tail = true ∧ rest = s ++ quote :: tail ∧ index = .quoted s := by
  rw [index?, if_pos hquote]
  constructor
  · intro h
    split at h
    · next d tail hdrop =>
      obtain ⟨rfl, hfree, hrest⟩ := Json.split_at_first hdrop
      split_ifs at h with hclose
      cases h
      exact ⟨_, tail, hfree, hclose, hrest, rfl⟩
    · cases h
  · rintro ⟨s, tail, hfree, hclose, rfl, rfl⟩
    obtain ⟨htake, hdrop⟩ := Json.run_to_first hfree tail
    rw [htake, hdrop]
    exact if_pos hclose

theorem index?_digits {c : Char} (hquote : ¬ (c = '\x22' ∨ c = '\x27')) (rest : List Char) :
    index? (c :: rest) = some index ↔ ∃ s tail, s ≠ [] ∧ (∀ d ∈ s, Text.isDigit d = true) ∧
      closes tail = true ∧ c :: rest = s ++ tail ∧ index = .digits s := by
  rw [index?, if_neg hquote]
  constructor
  · intro h
    simp only at h
    split_ifs at h with hdigits
    cases h
    obtain ⟨hne, hclose⟩ := by simpa only [Bool.and_eq_true] using hdigits
    exact ⟨_, _, by simpa using hne, fun d hd => List.mem_takeWhile_imp hd, hclose,
      List.takeWhile_append_dropWhile.symm, rfl⟩
  · rintro ⟨s, tail, hne, hall, hclose, hrest, rfl⟩
    have hstop : Json.Stops Text.isDigit tail := by
      intro d hd
      rcases closes_iff.1 hclose with rfl | rfl <;> cases hd <;> decide
    rw [hrest, Json.takeWhile_run hall hstop, Json.dropWhile_run hall hstop]
    simp [hne, hclose]

/-- What is read of an accessor is how its inside is written, up to the end. -/
theorem index?_eq_some : index? s = some index ↔
    ∃ inside tail, index.Written inside ∧ closes tail = true ∧ s = inside ++ tail := by
  constructor
  · intro h
    cases s with
    | nil => cases h
    | cons c rest =>
      by_cases hquote : c = '\x22' ∨ c = '\x27'
      · obtain ⟨s, tail, hfree, hclose, rfl, rfl⟩ := (index?_quote hquote rest).1 h
        exact ⟨_, tail, .quoted hquote hfree, hclose, by simp⟩
      · obtain ⟨s, tail, hne, hall, hclose, hrest, rfl⟩ := (index?_digits hquote rest).1 h
        exact ⟨s, tail, .digits hne hall, hclose, hrest⟩
  · rintro ⟨inside, tail, hinside, hclose, rfl⟩
    cases hinside with
    | @digits s ne all =>
      obtain ⟨c, rest, rfl⟩ := List.exists_cons_of_ne_nil ne
      have hquote : ¬ (c = '\x22' ∨ c = '\x27') := by
        have hdigit := all c List.mem_cons_self
        rintro (rfl | rfl) <;> exact absurd hdigit (by decide)
      exact (index?_digits hquote _).2 ⟨_, tail, ne, all, hclose, rfl, rfl⟩
    | @quoted quote s hquote free =>
      exact (index?_quote hquote _).2 ⟨s, tail, free, hclose, by simp, rfl⟩

theorem continues_of_starts {c : Char} (h : startsIdentifier c = true) :
    continuesIdentifier c = true := by
  simp [continuesIdentifier, h]

/-- The characters of identifiers are letters, digits and the underscore. -/
theorem range_of_continues {c : Char} (h : continuesIdentifier c = true) :
    (0x30 ≤ c.toNat ∧ c.toNat ≤ 0x39) ∨ (0x41 ≤ c.toNat ∧ c.toNat ≤ 0x5a) ∨ c.toNat = 0x5f ∨
      (0x61 ≤ c.toNat ∧ c.toNat ≤ 0x7a) := by
  simp only [continuesIdentifier, startsIdentifier, Bool.or_eq_true, Bool.and_eq_true,
    decide_eq_true_iff, beq_iff_eq, Char.le_def, UInt32.le_iff_toNat_le] at h
  rcases h with ((h | h) | rfl) | h
  · exact .inr (.inr (.inr h))
  · exact .inr (.inl h)
  · exact .inr (.inr (.inl rfl))
  · exact .inl h

theorem not_isBlank_of_continues {c : Char} (h : continuesIdentifier c = true) :
    Text.isBlank c = false := by
  have hrange := range_of_continues h
  rw [Bool.eq_false_iff]
  intro hblank
  simp only [Text.isBlank, Bool.or_eq_true, Bool.and_eq_true, decide_eq_true_iff,
    beq_iff_eq] at hblank
  omega

/-- No digit of any script starts an identifier. -/
theorem not_isDigit_of_starts {c : Char} (h : startsIdentifier c = true) :
    Text.isDigit c = false := by
  have hrange := range_of_continues (continues_of_starts h)
  have hall : ∀ n < 0x80, startsIdentifier (Char.ofNat n) = true →
      Text.isDigit (Char.ofNat n) = false := by decide +kernel
  have hc := hall c.toNat (by omega)
  rw [Char.ofNat_toNat] at hc
  exact hc h

theorem IsIdentifier.continues (h : IsIdentifier s) {c : Char} (hc : c ∈ s) :
    continuesIdentifier c = true := by
  obtain ⟨d, rest, rfl, hstart, hall⟩ := h
  rcases List.mem_cons.1 hc with rfl | hc
  · exact continues_of_starts hstart
  · exact hall c hc

/-- Behind an identifier an accessor is read from the bracket on. -/
theorem indexed?_bracket (h : IsIdentifier name) (rest : List Char) :
    indexed? (name ++ '[' :: rest) = (index? rest).map fun i => (name, i) := by
  have hrun : ∀ d ∈ name, continuesIdentifier d = true := fun d hd => h.continues hd
  obtain ⟨c, s, rfl, hstart, -⟩ := h
  have hstop : Json.Stops continuesIdentifier ('[' :: rest) := by
    intro d hd
    cases hd
    decide
  have htake := Json.takeWhile_run hrun hstop
  have hdrop := Json.dropWhile_run hrun hstop
  rw [List.cons_append] at htake hdrop ⊢
  simp only [indexed?, if_pos hstart, hdrop, htake]

/-- An accessor as it is read, with the ends that an accessor can have. -/
theorem indexed_iff : Indexed name index raw ↔ ∃ inside tail, IsIdentifier name ∧
    index.Written inside ∧ closes tail = true ∧ raw = name ++ '[' :: (inside ++ tail) := by
  constructor
  · rintro (⟨hname, hinside⟩ | ⟨body, rfl, ⟨hname, hinside⟩⟩)
    · exact ⟨_, [']'], hname, hinside, rfl, rfl⟩
    · exact ⟨_, [']', '\n'], hname, hinside, rfl, by simp⟩
  · rintro ⟨inside, tail, hname, hinside, hclose, rfl⟩
    rcases closes_iff.1 hclose with rfl | rfl
    · exact .inl (.intro hname hinside)
    · exact .inr ⟨_, by simp, .intro hname hinside⟩

theorem indexed?_eq_some : indexed? raw = some (name, index) ↔ Indexed name index raw := by
  rw [indexed_iff]
  constructor
  · intro h
    unfold indexed? at h
    split at h
    · next c rest =>
      split_ifs at h with hstart
      split at h
      · next inner hdrop =>
        obtain ⟨i, hindex, heq⟩ := Option.map_eq_some_iff.1 h
        cases heq
        obtain ⟨inside, tail, hinside, hclose, rfl⟩ := index?_eq_some.1 hindex
        refine ⟨inside, tail, ?_, hinside, hclose, ?_⟩
        · rw [List.takeWhile_cons_of_pos (continues_of_starts hstart)]
          exact ⟨c, _, rfl, hstart, fun d hd => List.mem_takeWhile_imp hd⟩
        · rw [← hdrop, List.takeWhile_append_dropWhile]
      · cases h
    · cases h
  · rintro ⟨inside, tail, hname, hinside, hclose, rfl⟩
    rw [indexed?_bracket hname, index?_eq_some.2 ⟨inside, tail, hinside, hclose, rfl⟩]
    rfl

/-! ### Reading a segment -/

theorem Accessed.getLast?_eq (h : Accessed name index raw) : raw.getLast? = some ']' := by
  cases h
  simp [List.getLast?_cons]

/-- Where an accessor is, there is a bracket. -/
theorem any_isBracket_of_indexed (h : Indexed name index raw) : raw.any isBracket = true := by
  have hbracket : isBracket '[' = true := rfl
  rcases h with ⟨-, -⟩ | ⟨body, rfl, ⟨-, -⟩⟩ <;> simp [hbracket]

/-- The segment of an identifier with an accessor. An index of too many digits is not read. -/
def Index.segment (name : List Char) : Index → Outcome Segment
  | .quoted s => .ok ⟨String.ofList name, some (.key (String.ofList s))⟩
  | .digits s =>
    match Text.nat? s with
    | some n => .ok ⟨String.ofList name, some (.position n)⟩
    | none => .error .badNumeral

/-- A text with brackets is read by its accessor, or is malformed without one. -/
theorem parse_of_isBracket (hany : raw.any isBracket = true) (path : String) :
    parse raw path = match indexed? raw with
      | some i => i.2.segment i.1
      | none => refuse .malformedPath
        ("Malformed index accessor '" ++ String.ofList raw ++ "' in path: " ++ path) := by
  have hempty : raw.isEmpty = false := by
    cases raw with
    | nil => cases hany
    | cons c s => rfl
  rw [parse, hempty, hany]
  rcases indexed? raw with _ | ⟨name, s | s⟩ <;> rfl

theorem parse_of_indexed (h : Indexed name index raw) (path : String) :
    parse raw path = index.segment name := by
  rw [parse_of_isBracket (any_isBracket_of_indexed h), indexed?_eq_some.2 h]

theorem parse_plain (hne : raw ≠ []) (hplain : ∀ c ∈ raw, isBracket c = false) (path : String) :
    parse raw path = .ok ⟨String.ofList raw, none⟩ := by
  have hempty : raw.isEmpty = false := by simpa using hne
  have hany : raw.any isBracket = false := by simpa using hplain
  rw [parse, hempty, hany]
  rfl

/-- A text is a name, has an accessor behind an identifier, or is malformed. -/
theorem parse_cases (raw : List Char) (path : String) :
    (raw ≠ [] ∧ (∀ c ∈ raw, isBracket c = false) ∧
      parse raw path = .ok ⟨String.ofList raw, none⟩) ∨
    (∃ name index, Indexed name index raw ∧ parse raw path = index.segment name) ∨
    ∃ message, parse raw path = refuse .malformedPath message := by
  cases hindexed : indexed? raw with
  | some i =>
    have h := indexed?_eq_some.1 hindexed
    exact .inr (.inl ⟨i.1, i.2, h, parse_of_indexed h path⟩)
  | none =>
    cases hany : raw.any isBracket with
    | true => exact .inr (.inr ⟨_, by rw [parse_of_isBracket hany, hindexed]⟩)
    | false =>
      cases raw with
      | nil => exact .inr (.inr ⟨_, rfl⟩)
      | cons c s =>
        have hplain : ∀ d ∈ c :: s, isBracket d = false := by simpa using hany
        exact .inl ⟨List.cons_ne_nil c s, hplain, parse_plain (List.cons_ne_nil c s) hplain path⟩

/-- An accessor with a line feed behind it is read as without it. -/
theorem parse_line_feed {body : List Char} (h : Accessed name index body) (path : String) :
    parse (body ++ ['\n']) path = parse body path := by
  rw [parse_of_indexed (.inr ⟨body, rfl, h⟩), parse_of_indexed (.inl h)]

theorem parse_of_denotes {segment : Segment} (h : Denotes raw segment) (path : String) :
    parse raw path = .ok segment := by
  cases h with
  | name ne plain => exact parse_plain ne plain path
  | position h short => simp [parse_of_indexed (.inl h), Index.segment, Text.nat?, short]
  | key h => exact parse_of_indexed (.inl h) path

theorem denotes_of_segment {segment : Segment} (h : Accessed name index raw)
    (hsegment : index.segment name = .ok segment) :
    Denotes raw segment ∧ segment.accessor ≠ none := by
  cases index with
  | quoted s =>
    cases hsegment
    exact ⟨.key h, by simp⟩
  | digits s =>
    simp only [Index.segment, Text.nat?] at hsegment
    split_ifs at hsegment with hshort
    cases hsegment
    exact ⟨.position h hshort, by simp⟩

/-- What is read as a segment is what denotes it, and an identifier with an accessor that a line
feed follows is read as without it. All else is malformed, but for an index of too many digits. -/
theorem parse_accepts_iff (raw : List Char) (path : String) :
    (∀ segment, parse raw path = .ok segment ↔ Denotes raw segment ∨
      ∃ body, raw = body ++ ['\n'] ∧ segment.accessor ≠ none ∧ Denotes body segment) ∧
    ((∀ name digits, Indexed name (.digits digits) raw → digits.length ≤ Text.numeralLimit) →
      (∀ segment, parse raw path ≠ .ok segment) →
        ∃ message, parse raw path = refuse .malformedPath message) := by
  constructor
  · intro segment
    constructor
    · intro h
      rcases parse_cases raw path with ⟨hne, hplain, heq⟩ | ⟨name, index, hindexed, heq⟩ | ⟨m, heq⟩
      · rw [heq] at h
        cases h
        exact .inl (.name hne hplain)
      · rw [heq] at h
        rcases hindexed with hraw | ⟨body, rfl, hbody⟩
        · exact .inl (denotes_of_segment hraw h).1
        · obtain ⟨hdenotes, haccessor⟩ := denotes_of_segment hbody h
          exact .inr ⟨body, rfl, haccessor, hdenotes⟩
      · rw [heq] at h
        cases h
    · rintro (h | ⟨body, rfl, haccessor, h⟩)
      · exact parse_of_denotes h path
      · rw [← parse_of_denotes h path]
        cases h with
        | name => exact absurd rfl haccessor
        | position hbody | key hbody => exact parse_line_feed hbody path
  · intro hshort hnone
    rcases parse_cases raw path with ⟨-, -, heq⟩ | ⟨name, index, hindexed, heq⟩ | hmalformed
    · exact absurd heq (hnone _)
    · cases index with
      | quoted s => exact absurd heq (hnone _)
      | digits s =>
        simp only [Index.segment, Text.nat?, if_pos (hshort name s hindexed)] at heq
        exact absurd heq (hnone _)
    · exact hmalformed

/-- A key in quotes may hold brackets and points; a letter in brackets is malformed. -/
theorem parse_accepts_key :
    Denotes "stats['a].b[0']".toList ⟨"stats", some (.key "a].b[0")⟩ ∧
      ∃ message, parse "beliefs[x]".toList "p" = refuse .malformedPath message := by
  constructor
  · have hparse : parse "stats['a].b[0']".toList "p" = .ok ⟨"stats", some (.key "a].b[0")⟩ := by
      decide +kernel
    rcases ((parse_accepts_iff _ "p").1 _).1 hparse with h | ⟨body, hbody, -⟩
    · exact h
    · have hlast := congrArg List.getLast? hbody
      simp at hlast
  · refine (parse_accepts_iff _ "p").2 (fun name digits h => ?_) fun segment h => ?_
    · have hnone : indexed? "beliefs[x]".toList = none := by decide +kernel
      rw [indexed?_eq_some.2 h] at hnone
      cases hnone
    · have hrefused : (parse "beliefs[x]".toList "p").toOption = none := by decide +kernel
      rw [h] at hrefused
      cases hrefused

/-- A line feed behind the closing bracket is passed over, though no segment is denoted so. -/
theorem parse_passes_line_feed :
    parse "beliefs[0]\n".toList "p" = .ok ⟨"beliefs", some (.position 0)⟩ ∧
      ∀ segment, ¬ Denotes "beliefs[0]\n".toList segment := by
  have hlast : ∀ {name index}, ¬ Accessed name index "beliefs[0]\n".toList := by
    intro name index h
    have hbracket := h.getLast?_eq
    simp at hbracket
  refine ⟨by decide +kernel, fun segment h => ?_⟩
  generalize hraw : "beliefs[0]\n".toList = raw at h hlast
  cases h with
  | name _ plain =>
    subst hraw
    exact absurd (plain '[' (by decide)) (by decide)
  | position h | key h => exact hlast h

end StoryWorld.Segment
