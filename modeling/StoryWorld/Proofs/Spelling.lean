import Mathlib.Data.List.TakeWhile
import StoryWorld.Json.Reader

/-!
How documents are spelled.

A document is read by walking its text; here stands the grammar that the reading follows, as
derivations of the parts of a document from the characters that spell them. The two say the same:
what is read has a derivation, and whatever has one is read. So facts about texts can be proved on
derivations, where every character has its place.
-/

namespace StoryWorld.Json

/-! ### Runs of characters -/

section Runs

variable {p : Char → Bool} {s rest : List Char}

/-- What follows does not go on with a run. -/
def Stops (p : Char → Bool) (rest : List Char) : Prop := ∀ c ∈ rest.head?, p c = false

theorem Stops.mono {q : Char → Bool} (h : Stops p rest) (hq : ∀ c, q c = true → p c = true) :
    Stops q rest := by
  intro c hc
  by_contra hne
  have hp := hq c (by simpa using hne)
  rw [h c hc] at hp
  cases hp

theorem takeWhile_run (h : ∀ c ∈ s, p c = true) (hr : Stops p rest) :
    (s ++ rest).takeWhile p = s := by
  induction s with
  | nil =>
    cases rest with
    | nil => rfl
    | cons c rest => simp [hr c rfl]
  | cons c s ih =>
    rw [List.forall_mem_cons] at h
    rw [List.cons_append, List.takeWhile_cons_of_pos h.1, ih h.2]

theorem dropWhile_run (h : ∀ c ∈ s, p c = true) (hr : Stops p rest) :
    (s ++ rest).dropWhile p = rest := by
  induction s with
  | nil =>
    cases rest with
    | nil => rfl
    | cons c rest => simp [hr c rfl]
  | cons c s ih =>
    rw [List.forall_mem_cons] at h
    rw [List.cons_append, List.dropWhile_cons_of_pos h.1, ih h.2]

theorem stops_dropWhile (p : Char → Bool) (s : List Char) : Stops p (s.dropWhile p) := by
  intro c hc
  have hhead := List.head?_dropWhile_not p s
  rw [Option.mem_def.1 hc] at hhead
  exact hhead

/-- A text in which a character is found is cut at the first one. -/
theorem split_at_first {c d : Char} (h : s.dropWhile (· != c) = d :: rest) :
    d = c ∧ c ∉ s.takeWhile (· != c) ∧ s = s.takeWhile (· != c) ++ c :: rest := by
  have hstop := stops_dropWhile (· != c) s d (by rw [h]; rfl)
  obtain rfl : d = c := by simpa using hstop
  refine ⟨rfl, ?_, ?_⟩
  · intro hmem
    simpa using List.mem_takeWhile_imp hmem
  · rw [← h, List.takeWhile_append_dropWhile]

theorem run_to_first {c : Char} (h : c ∉ s) (rest : List Char) :
    (s ++ c :: rest).takeWhile (· != c) = s ∧ (s ++ c :: rest).dropWhile (· != c) = c :: rest := by
  have hall : ∀ d ∈ s, (d != c) = true := by
    intro d hd
    simpa using ne_of_mem_of_not_mem hd h
  have hstop : Stops (· != c) (c :: rest) := by
    intro d hd
    cases hd
    simp
  exact ⟨takeWhile_run hall hstop, dropWhile_run hall hstop⟩

end Runs

/-- Nothing but blanks. -/
def Blank (s : List Char) : Prop := ∀ c ∈ s, isBlank c = true

theorem blank_nil : Blank [] := fun _ h => absurd h List.not_mem_nil

theorem isBlank_iff {c : Char} : isBlank c = true ↔ c = ' ' ∨ c = '\t' ∨ c = '\n' ∨ c = '\r' := by
  simp [isBlank, or_assoc]

theorem skipBlanks_append {s : List Char} (h : Blank s) (rest : List Char) :
    skipBlanks (s ++ rest) = skipBlanks rest := by
  induction s with
  | nil => rfl
  | cons c s ih =>
    rw [Blank, List.forall_mem_cons] at h
    rw [skipBlanks, List.cons_append, List.dropWhile_cons_of_pos h.1]
    exact ih h.2

theorem skipBlanks_cons {c : Char} (h : isBlank c = false) (rest : List Char) :
    skipBlanks (c :: rest) = c :: rest := by
  rw [skipBlanks, List.dropWhile_cons_of_neg (by simp [h])]

theorem exists_blank (s : List Char) : ∃ before, Blank before ∧ s = before ++ skipBlanks s :=
  ⟨s.takeWhile isBlank, fun _ hc => List.mem_takeWhile_imp hc,
    (List.takeWhile_append_dropWhile).symm⟩

/-! ### Numerals -/

/-- A run of digits, at least one. -/
def Digits (s : List Char) : Prop := s ≠ [] ∧ ∀ c ∈ s, isDigit c = true

/-- How a fraction is spelled. -/
inductive SpellsFraction : Option (List Char) → List Char → Prop
  | none : SpellsFraction none []
  | some {digits} (h : Digits digits) : SpellsFraction (some digits) ('.' :: digits)

/-- How a sign is spelled in front of a power. -/
inductive SpellsSign : Bool → List Char → Prop
  | minus : SpellsSign true ['-']
  | plus : SpellsSign false ['+']
  | none : SpellsSign false []

/-- How a power of ten is spelled. -/
inductive SpellsExponent : Option (Bool × List Char) → List Char → Prop
  | none : SpellsExponent none []
  | some {mark below sign digits} (hmark : mark = 'e' ∨ mark = 'E') (hsign : SpellsSign below sign)
    (h : Digits digits) : SpellsExponent (some (below, digits)) (mark :: (sign ++ digits))

/-- How a numeral is spelled. -/
inductive SpellsNumeral : Numeral → List Char → Prop
  | intro {negative whole fraction exponent f e} (hwhole : Digits whole)
    (hzero : whole.head? = some '0' → whole.length = 1) (hf : SpellsFraction fraction f)
    (he : SpellsExponent exponent e) :
    SpellsNumeral ⟨negative, whole, fraction, exponent⟩
      ((if negative then ['-'] else []) ++ whole ++ f ++ e)

/-- The characters that a whole number can go on with, short of a power of ten. -/
def continuesWhole (c : Char) : Bool := isDigit c || c == '.'

/-- The characters that a numeral can go on with. -/
def continuesNumeral (c : Char) : Bool := continuesWhole c || c == 'e' || c == 'E'

theorem sign_eq {s : List Char} : ∃ used, SpellsSign (sign s).1 used ∧ s = used ++ (sign s).2 := by
  unfold sign
  split
  · exact ⟨_, .minus, rfl⟩
  · exact ⟨_, .plus, rfl⟩
  · exact ⟨[], .none, rfl⟩

theorem sign_append {below : Bool} {used : List Char} (h : SpellsSign below used) {c : Char}
    (hc : isDigit c = true) (rest : List Char) : sign (used ++ c :: rest) = (below, c :: rest) := by
  cases h with
  | minus => rfl
  | plus => rfl
  | none =>
    unfold sign
    split
    · next heq =>
      cases heq
      simp [isDigit] at hc
    · next heq =>
      cases heq
      simp [isDigit] at hc
    · rfl

theorem digits_takeWhile {s : List Char} (h : (s.takeWhile isDigit).isEmpty = false) :
    Digits (s.takeWhile isDigit) :=
  ⟨by simpa using h, fun _ hc => List.mem_takeWhile_imp hc⟩

theorem fraction?_sound {s rest : List Char} {fraction : Option (List Char)}
    (h : fraction? s = some (fraction, rest)) :
    ∃ used, SpellsFraction fraction used ∧ s = used ++ rest := by
  unfold fraction? at h
  split at h
  · next tail =>
    simp only at h
    split at h
    · cases h
    · next hdigits =>
      cases h
      refine ⟨_, .some (digits_takeWhile (by simpa using hdigits)), ?_⟩
      rw [List.cons_append, List.takeWhile_append_dropWhile]
  · cases h
    exact ⟨[], .none, rfl⟩

theorem fraction?_complete {fraction : Option (List Char)} {used rest : List Char}
    (h : SpellsFraction fraction used) (hr : Stops continuesWhole rest) :
    fraction? (used ++ rest) = some (fraction, rest) := by
  have hdigit : Stops isDigit rest := hr.mono (by simp +contextual [continuesWhole])
  cases h with
  | none =>
    unfold fraction?
    split
    · next heq =>
      rw [List.nil_append] at heq
      subst heq
      have hpoint := hr '.' rfl
      simp [continuesWhole] at hpoint
    · rfl
  | some h =>
    unfold fraction?
    simp only [List.cons_append, takeWhile_run h.2 hdigit, dropWhile_run h.2 hdigit]
    rw [if_neg (by simpa using h.1)]

theorem exponent?_sound {s rest : List Char} {exponent : Option (Bool × List Char)}
    (h : exponent? s = some (exponent, rest)) :
    ∃ used, SpellsExponent exponent used ∧ s = used ++ rest := by
  unfold exponent? at h
  split at h
  · next c tail =>
    split at h
    · next hmark =>
      simp only at h
      split at h
      · cases h
      · next hdigits =>
        cases h
        obtain ⟨used, hsign, htail⟩ := sign_eq (s := tail)
        refine ⟨_, .some hmark hsign (digits_takeWhile (by simpa using hdigits)), ?_⟩
        rw [List.cons_append, List.append_assoc, List.takeWhile_append_dropWhile, ← htail]
    · cases h
      exact ⟨[], .none, rfl⟩
  · cases h
    exact ⟨[], .none, rfl⟩

theorem exponent?_complete {exponent : Option (Bool × List Char)} {used rest : List Char}
    (h : SpellsExponent exponent used) (hr : Stops continuesNumeral rest) :
    exponent? (used ++ rest) = some (exponent, rest) := by
  have hdigit : Stops isDigit rest :=
    hr.mono (by simp +contextual [continuesNumeral, continuesWhole])
  cases h with
  | none =>
    cases rest with
    | nil => rfl
    | cons c rest =>
      have hc := hr c rfl
      simp only [continuesNumeral, Bool.or_eq_false_iff, beq_eq_false_iff_ne] at hc
      rw [List.nil_append, exponent?, if_neg (by simp [hc])]
  | some hmark hsign h =>
    obtain ⟨d, ds, rfl⟩ := List.exists_cons_of_ne_nil h.1
    rw [List.cons_append, exponent?, if_pos hmark, List.append_assoc, List.cons_append]
    rw [sign_append hsign (h.2 d List.mem_cons_self)]
    simp only [← List.cons_append, takeWhile_run h.2 hdigit, dropWhile_run h.2 hdigit]
    rfl

/-- A power of ten is not taken for a part of the number before it. -/
theorem stops_exponent {exponent : Option (Bool × List Char)} {used rest : List Char}
    (h : SpellsExponent exponent used) (hr : Stops continuesNumeral rest) :
    Stops continuesWhole (used ++ rest) := by
  cases h with
  | none => exact hr.mono (by simp +contextual [continuesNumeral])
  | some hmark _ _ =>
    intro c hc
    obtain rfl := Option.some.inj hc
    rcases hmark with rfl | rfl <;> rfl

/-- A numeral after its sign. -/
def unsigned? (negative : Bool) (s : List Char) : Option (Numeral × List Char) :=
  let whole := s.takeWhile isDigit
  if whole.isEmpty ∨ (whole.head? = some '0' ∧ whole.length ≠ 1) then none
  else
    (fraction? (s.dropWhile isDigit)).bind fun f =>
      (exponent? f.2).map fun e => (⟨negative, whole, f.1, e.1⟩, e.2)

theorem numeral?_minus (s : List Char) : numeral? ('-' :: s) = unsigned? true s := by
  simp only [numeral?, unsigned?, Option.bind_eq_bind, Option.map_eq_bind]
  rfl

theorem numeral?_of_ne {s : List Char} (h : '-' ∉ s.head?) : numeral? s = unsigned? false s := by
  unfold numeral?
  split
  next negative rest hsign =>
    split at hsign
    · exact absurd rfl h
    · cases hsign
      simp only [unsigned?, Option.bind_eq_bind, Option.map_eq_bind]
      rfl

theorem unsigned?_sound {negative : Bool} {s rest : List Char} {n : Numeral}
    (h : unsigned? negative s = some (n, rest)) :
    ∃ used, SpellsNumeral n ((if negative then ['-'] else []) ++ used) ∧ s = used ++ rest := by
  unfold unsigned? at h
  simp only at h
  split at h
  · cases h
  · next hwhole =>
    rw [not_or, not_and_or] at hwhole
    obtain ⟨⟨fraction, rest₁⟩, hf, h⟩ := Option.bind_eq_some_iff.1 h
    obtain ⟨⟨exponent, rest₂⟩, he, h⟩ := Option.map_eq_some_iff.1 h
    cases h
    obtain ⟨f, hf, hrest₁⟩ := fraction?_sound hf
    obtain ⟨e, he, hrest₂⟩ := exponent?_sound he
    refine ⟨s.takeWhile isDigit ++ f ++ e, ?_, ?_⟩
    · rw [← List.append_assoc, ← List.append_assoc]
      refine .intro (digits_takeWhile (by simpa using hwhole.1)) ?_ hf he
      intro hzero
      simpa [hzero] using hwhole.2
    · rw [List.append_assoc, List.append_assoc, ← hrest₂, ← hrest₁,
        List.takeWhile_append_dropWhile]

theorem numeral?_sound {s rest : List Char} {n : Numeral} (h : numeral? s = some (n, rest)) :
    ∃ used, SpellsNumeral n used ∧ s = used ++ rest := by
  by_cases hminus : '-' ∈ s.head?
  · obtain ⟨t, rfl⟩ : ∃ t, s = '-' :: t := by
      cases s with
      | nil => cases hminus
      | cons c t =>
        obtain rfl : c = '-' := by simpa using hminus
        exact ⟨t, rfl⟩
    obtain ⟨used, hused, rfl⟩ := unsigned?_sound (numeral?_minus t ▸ h)
    exact ⟨'-' :: used, hused, rfl⟩
  · obtain ⟨used, hused, rfl⟩ := unsigned?_sound (numeral?_of_ne hminus ▸ h)
    exact ⟨used, hused, rfl⟩

theorem numeral?_complete {n : Numeral} {used rest : List Char} (h : SpellsNumeral n used)
    (hr : Stops continuesNumeral rest) : numeral? (used ++ rest) = some (n, rest) := by
  obtain ⟨hwhole, hzero, hf, he⟩ := h
  rename_i negative whole fraction exponent f e
  have hexponent := exponent?_complete he hr
  have hpower := stops_exponent he hr
  have hfraction := fraction?_complete hf hpower
  have hstop : Stops isDigit (f ++ (e ++ rest)) := by
    cases hf with
    | none => exact hpower.mono (by simp +contextual [continuesWhole])
    | some _ =>
      intro c hc
      obtain rfl := Option.some.inj hc
      rfl
  have hunsigned : unsigned? negative (whole ++ (f ++ (e ++ rest))) =
      some (⟨negative, whole, fraction, exponent⟩, rest) := by
    unfold unsigned?
    simp only [takeWhile_run hwhole.2 hstop, dropWhile_run hwhole.2 hstop, hfraction, hexponent,
      Option.bind_some, Option.map_some]
    rw [if_neg]
    rw [not_or, not_and]
    exact ⟨by simpa using hwhole.1, fun h => not_not.2 (hzero h)⟩
  cases negative with
  | true => simpa using (numeral?_minus _).trans hunsigned
  | false =>
    have hminus : '-' ∉ (whole ++ (f ++ (e ++ rest))).head? := by
      obtain ⟨d, ds, rfl⟩ := List.exists_cons_of_ne_nil hwhole.1
      have hd := hwhole.2 d List.mem_cons_self
      rintro ⟨⟩
      simp [isDigit] at hd
    simpa using (numeral?_of_ne hminus).trans hunsigned

/-! ### Texts -/

/-- How a character is spelled between the quotes of a text: as itself, by a letter after a
backslash, or by the number of its code point, which takes two surrogates for a large one. -/
inductive SpellsChar : Char → List Char → Prop
  | plain {c} (hq : c ≠ '\x22') (hb : c ≠ '\\') (hc : 0x20 ≤ c.toNat) : SpellsChar c [c]
  | escape {e c} (h : escape? e = some c) : SpellsChar c ['\\', e]
  | numbered {a b c d n} (h : hex4? a b c d = some n) (hn : n < 0xd800 ∨ 0xe000 ≤ n) :
    SpellsChar (Char.ofNat n) ['\\', 'u', a, b, c, d]
  | paired {a b c d n a' b' c' d' low} (h : hex4? a b c d = some n)
    (hn : 0xd800 ≤ n ∧ n < 0xdc00) (hlow : hex4? a' b' c' d' = some low)
    (hl : 0xdc00 ≤ low ∧ low < 0xe000) :
    SpellsChar (Char.ofNat (0x10000 + (n - 0xd800) * 0x400 + (low - 0xdc00)))
      ['\\', 'u', a, b, c, d, '\\', 'u', a', b', c', d']

/-- How several characters are spelled, one after the other. -/
inductive SpellsChars : List Char → List Char → Prop
  | nil : SpellsChars [] []
  | cons {c cs used body} (h : SpellsChar c used) (ht : SpellsChars cs body) :
    SpellsChars (c :: cs) (used ++ body)

/-- How a text is spelled, in quotes. -/
inductive SpellsText : String → List Char → Prop
  | intro {cs body} (h : SpellsChars cs body) :
    SpellsText (String.ofList cs) ('\x22' :: (body ++ ['\x22']))

theorem numbered?_sound {n : Nat} {a b c d : Char} (hn : hex4? a b c d = some n)
    {rest rest' : List Char} {x : Char} (h : numbered? n rest = some (x, rest')) :
    ∃ used, SpellsChar x ('\\' :: 'u' :: a :: b :: c :: d :: used) ∧ rest = used ++ rest' := by
  unfold numbered? at h
  split at h
  · next hhigh =>
    split at h
    · split at h
      · next low hlow =>
        split at h
        · next hl =>
          obtain ⟨rfl, rfl⟩ := Prod.mk.inj (Option.some.inj h)
          exact ⟨_, .paired hn hhigh hlow hl, rfl⟩
        · cases h
      · cases h
    · cases h
  · next hhigh =>
    split at h
    · cases h
    · next hlow =>
      cases h
      exact ⟨[], .numbered hn (by omega), rfl⟩

theorem character?_sound {s rest : List Char} {c : Char} (h : character? s = some (c, rest)) :
    ∃ used, SpellsChar c used ∧ s = used ++ rest := by
  unfold character? at h
  split at h
  · obtain ⟨n, hn, h⟩ := Option.bind_eq_some_iff.1 h
    obtain ⟨used, hused, rfl⟩ := numbered?_sound hn h
    exact ⟨_, hused, rfl⟩
  · obtain ⟨e, he, h⟩ := Option.map_eq_some_iff.1 h
    cases h
    exact ⟨_, .escape he, rfl⟩
  · split at h
    · cases h
    · next hplain =>
      cases h
      rw [not_or, not_or] at hplain
      exact ⟨_, .plain hplain.1 hplain.2.1 (by omega), rfl⟩
  · cases h

theorem numbered?_of_plain {n : Nat} (hn : n < 0xd800 ∨ 0xe000 ≤ n) (rest : List Char) :
    numbered? n rest = some (Char.ofNat n, rest) := by
  unfold numbered?
  rw [if_neg (by omega), if_neg (by omega)]

theorem escape?_ne_number {e c : Char} (h : escape? e = some c) : e ≠ 'u' := by
  rintro rfl
  cases h

theorem character?_complete {c : Char} {used : List Char} (h : SpellsChar c used)
    (rest : List Char) : character? (used ++ rest) = some (c, rest) := by
  cases h with
  | plain hq hb hc =>
    rw [List.singleton_append, character?.eq_3 _ _ (by simp [hb]) (by simp [hb]), if_neg]
    rw [not_or, not_or]
    exact ⟨hq, hb, by omega⟩
  | escape h =>
    have hu := escape?_ne_number h
    rw [List.cons_append, List.singleton_append, character?.eq_2 _ _ (by simp [hu]), h]
    rfl
  | numbered h hn =>
    show (hex4? _ _ _ _).bind _ = _
    rw [h, Option.bind_some, numbered?_of_plain hn]
    rfl
  | paired h hn hlow hl =>
    show (hex4? _ _ _ _).bind _ = _
    rw [h, Option.bind_some]
    show numbered? _ ('\\' :: 'u' :: _ :: _ :: _ :: _ :: rest) = _
    unfold numbered?
    simp only [if_pos hn, hlow, if_pos hl]

/-- What spells a character is not taken for the end of a text. -/
theorem head_of_spellsChar {c : Char} {used : List Char} (h : SpellsChar c used) :
    ∃ d ds, used = d :: ds ∧ d ≠ '\x22' := by
  cases h with
  | plain hq _ _ => exact ⟨_, _, rfl, hq⟩
  | _ => exact ⟨_, _, rfl, by decide⟩

theorem characters?_sound : ∀ {fuel : Nat} {s rest cs : List Char},
    characters? fuel s = some (cs, rest) →
      ∃ body, SpellsChars cs body ∧ s = body ++ '\x22' :: rest := by
  intro fuel s
  fun_induction characters? fuel s with
  | case1 fuel rest =>
    rintro _ _ ⟨⟩
    exact ⟨[], .nil, rfl⟩
  | case2 fuel s hquote ih =>
    intro rest cs h
    obtain ⟨⟨c, rest₁⟩, hc, h⟩ := Option.bind_eq_some_iff.1 h
    obtain ⟨⟨cs, rest₂⟩, hcs, h⟩ := Option.bind_eq_some_iff.1 h
    cases h
    obtain ⟨used, hused, rfl⟩ := character?_sound hc
    obtain ⟨body, hbody, rfl⟩ := ih _ hcs
    exact ⟨used ++ body, .cons hused hbody, by rw [List.append_assoc]⟩
  | case3 s hquote =>
    rintro _ _ ⟨⟩

theorem characters?_complete {cs body : List Char} (h : SpellsChars cs body) :
    ∀ {fuel : Nat}, body.length ≤ fuel → ∀ rest : List Char,
      characters? fuel (body ++ '\x22' :: rest) = some (cs, rest) := by
  induction h with
  | nil =>
    intro fuel _ rest
    cases fuel <;> rfl
  | @cons c cs used body h ht ih =>
    intro fuel hfuel rest
    obtain ⟨d, ds, rfl, hd⟩ := head_of_spellsChar h
    obtain ⟨fuel, rfl⟩ : ∃ k, fuel = k + 1 := ⟨fuel - 1, by simp at hfuel; omega⟩
    have hbody : body.length ≤ fuel := by simp at hfuel; omega
    have hcharacter := character?_complete h (body ++ '\x22' :: rest)
    rw [List.append_assoc, List.cons_append] at *
    rw [characters?.eq_2 _ _ (by simp [hd]), hcharacter]
    simp only [Option.bind_eq_bind, Option.bind_some, ih hbody]
    rfl

theorem text?_sound {s rest : List Char} {t : String} (h : text? s = some (t, rest)) :
    ∃ used, SpellsText t used ∧ '\x22' :: s = used ++ rest := by
  obtain ⟨⟨cs, rest⟩, hcs, h⟩ := Option.map_eq_some_iff.1 h
  cases h
  obtain ⟨body, hbody, rfl⟩ := characters?_sound hcs
  exact ⟨_, .intro hbody, by simp⟩

theorem text?_complete {t : String} {used : List Char} (h : SpellsText t used)
    (rest : List Char) :
    ∃ body, used = '\x22' :: body ∧ text? (body ++ rest) = some (t, rest) := by
  obtain ⟨hbody⟩ := h
  refine ⟨_, rfl, ?_⟩
  rw [List.append_assoc, List.singleton_append, text?, characters?_complete hbody (by simp)]
  rfl

/-! ### Values -/

/-- The parts of a document. A padded value may have blanks on either side. -/
inductive Part where
  | value (v : Value)
  | padded (v : Value)
  | items (vs : List Value)
  | member (m : String × Value)
  | members (ms : List (String × Value))

/-- How the parts of a document are spelled where containers may nest to a given depth. -/
inductive Spells (dialect : Dialect) : Nat → Part → List Char → Prop
  | null {depth} : Spells dialect depth (.value .null) ['n', 'u', 'l', 'l']
  | true {depth} : Spells dialect depth (.value (.bool true)) ['t', 'r', 'u', 'e']
  | false {depth} : Spells dialect depth (.value (.bool false)) ['f', 'a', 'l', 's', 'e']
  | number {depth n x s} (h : SpellsNumeral n s) (hx : n.toNumber? dialect = some x) :
    Spells dialect depth (.value (.number x)) s
  | text {depth t s} (h : SpellsText t s) : Spells dialect depth (.value (.text t)) s
  | nil {depth b} (h : Blank b) :
    Spells dialect (depth + 1) (.value (.list [])) ('[' :: (b ++ [']']))
  | list {depth vs s} (h : Spells dialect depth (.items vs) s) :
    Spells dialect (depth + 1) (.value (.list vs)) ('[' :: (s ++ [']']))
  | empty {depth b} (h : Blank b) :
    Spells dialect (depth + 1) (.value (.mapping [])) ('\x7b' :: (b ++ ['\x7d']))
  | mapping {depth ms s} (h : Spells dialect depth (.members ms) s) :
    Spells dialect (depth + 1) (.value (.mapping (Table.ofPairs ms))) ('\x7b' :: (s ++ ['\x7d']))
  | padded {depth v s before after} (hb : Blank before) (h : Spells dialect depth (.value v) s)
    (ha : Blank after) : Spells dialect depth (.padded v) (before ++ s ++ after)
  | item {depth v s} (h : Spells dialect depth (.padded v) s) : Spells dialect depth (.items [v]) s
  | items {depth v vs s t} (h : Spells dialect depth (.padded v) s)
    (ht : Spells dialect depth (.items vs) t) :
    Spells dialect depth (.items (v :: vs)) (s ++ ',' :: t)
  | member {depth key k v s before after} (hb : Blank before) (hk : SpellsText key k)
    (ha : Blank after) (h : Spells dialect depth (.padded v) s) :
    Spells dialect depth (.member (key, v)) (before ++ k ++ after ++ ':' :: s)
  | single {depth m s} (h : Spells dialect depth (.member m) s) :
    Spells dialect depth (.members [m]) s
  | members {depth m ms s t} (h : Spells dialect depth (.member m) s)
    (ht : Spells dialect depth (.members ms) t) :
    Spells dialect depth (.members (m :: ms)) (s ++ ',' :: t)

variable {dialect : Dialect}

/-! ### What is read has a spelling -/

theorem after?_eq_some {word s rest : List Char} (h : after? word s = some rest) :
    s = word ++ rest := by
  unfold after? at h
  split at h
  · next hword =>
    cases h
    obtain ⟨t, rfl⟩ := List.isPrefixOf_iff_prefix.1 hword
    simp
  · cases h

/-! More blanks may stand at the start and at the end of everything but a value. -/

namespace Spells

variable {depth : Nat} {b s : List Char}

theorem blank_padded {v : Value} (hb : Blank b) (h : Spells dialect depth (.padded v) s) :
    Spells dialect depth (.padded v) (b ++ s) := by
  cases h with
  | @padded _ _ s before after hbefore h hafter =>
    rw [← List.append_assoc, ← List.append_assoc]
    exact .padded (List.forall_mem_append.2 ⟨hb, hbefore⟩) h hafter

theorem blank_items {vs : List Value} (hb : Blank b) (h : Spells dialect depth (.items vs) s) :
    Spells dialect depth (.items vs) (b ++ s) := by
  cases h with
  | item h => exact .item (blank_padded hb h)
  | items h ht =>
    rw [← List.append_assoc]
    exact .items (blank_padded hb h) ht

theorem blank_member {m : String × Value} (hb : Blank b)
    (h : Spells dialect depth (.member m) s) : Spells dialect depth (.member m) (b ++ s) := by
  cases h with
  | member hbefore hk hafter h =>
    rw [← List.append_assoc, ← List.append_assoc, ← List.append_assoc]
    exact .member (List.forall_mem_append.2 ⟨hb, hbefore⟩) hk hafter h

theorem blank_members {ms : List (String × Value)} (hb : Blank b)
    (h : Spells dialect depth (.members ms) s) : Spells dialect depth (.members ms) (b ++ s) := by
  cases h with
  | single h => exact .single (blank_member hb h)
  | members h ht =>
    rw [← List.append_assoc]
    exact .members (blank_member hb h) ht

theorem padded_blank {v : Value} (h : Spells dialect depth (.padded v) s) (hb : Blank b) :
    Spells dialect depth (.padded v) (s ++ b) := by
  cases h with
  | padded hbefore h hafter =>
    rw [List.append_assoc]
    exact .padded hbefore h (List.forall_mem_append.2 ⟨hafter, hb⟩)

theorem member_blank {m : String × Value} (h : Spells dialect depth (.member m) s)
    (hb : Blank b) : Spells dialect depth (.member m) (s ++ b) := by
  cases h with
  | member hbefore hk hafter h =>
    rw [List.append_assoc, List.cons_append]
    exact .member hbefore hk hafter (padded_blank h hb)

theorem items_blank {vs : List Value} (h : Spells dialect depth (.items vs) s) (hb : Blank b) :
    Spells dialect depth (.items vs) (s ++ b) := by
  induction vs generalizing s with
  | nil => cases h
  | cons v vs ih =>
    cases h with
    | item h => exact .item (padded_blank h hb)
    | items h ht =>
      rw [List.append_assoc, List.cons_append]
      exact .items h (ih ht)

theorem members_blank {ms : List (String × Value)} (h : Spells dialect depth (.members ms) s)
    (hb : Blank b) : Spells dialect depth (.members ms) (s ++ b) := by
  induction ms generalizing s with
  | nil => cases h
  | cons m ms ih =>
    cases h with
    | single h => exact .single (member_blank h hb)
    | members h ht =>
      rw [List.append_assoc, List.cons_append]
      exact .members h (ih ht)

end Spells

/-- What the reading of the parts of a document certifies with some fuel. -/
structure Sound (dialect : Dialect) (fuel : Nat) : Prop where
  value : ∀ {depth s v rest}, value? dialect fuel depth s = some (v, rest) →
    ∃ before used, Blank before ∧ Spells dialect depth (.value v) used ∧ s = before ++ used ++ rest
  items : ∀ {depth s vs rest}, items? dialect fuel depth s = some (vs, rest) →
    ∃ used, Spells dialect depth (.items vs) used ∧ s = used ++ ']' :: rest
  members : ∀ {depth s ms rest}, members? dialect fuel depth s = some (ms, rest) →
    ∃ used, Spells dialect depth (.members ms) used ∧ s = used ++ '\x7d' :: rest

theorem value?_sound {fuel : Nat} (ih : Sound dialect fuel) {depth : Nat} {s rest : List Char}
    {v : Value} (h : value? dialect (fuel + 1) depth s = some (v, rest)) :
    ∃ before used, Blank before ∧ Spells dialect depth (.value v) used ∧
      s = before ++ used ++ rest := by
  obtain ⟨before, hbefore, hs⟩ := exists_blank s
  suffices hused : ∃ used, Spells dialect depth (.value v) used ∧ skipBlanks s = used ++ rest by
    obtain ⟨used, hspells, hskip⟩ := hused
    exact ⟨before, used, hbefore, hspells, by rw [List.append_assoc, ← hskip]; exact hs⟩
  unfold value? at h
  split at h
  · next tail heq =>
    obtain ⟨⟨t, rest⟩, ht, h⟩ := Option.map_eq_some_iff.1 h
    cases h
    obtain ⟨used, hused, htail⟩ := text?_sound ht
    exact ⟨used, .text hused, heq.trans htail⟩
  · next tail heq =>
    split at h
    · cases h
    · next hdepth =>
      obtain ⟨depth, rfl⟩ := Nat.exists_eq_succ_of_ne_zero hdepth
      obtain ⟨blank, hblank, htail⟩ := exists_blank tail
      split at h
      · next tail' heq' =>
        cases h
        exact ⟨_, .nil hblank, by rw [heq, htail, heq']; simp⟩
      · obtain ⟨⟨vs, rest⟩, hvs, h⟩ := Option.map_eq_some_iff.1 h
        cases h
        obtain ⟨used, hused, htail'⟩ := ih.items hvs
        refine ⟨_, .list (.blank_items hblank hused), ?_⟩
        rw [heq, htail, htail']
        simp
  · next tail heq =>
    split at h
    · cases h
    · next hdepth =>
      obtain ⟨depth, rfl⟩ := Nat.exists_eq_succ_of_ne_zero hdepth
      obtain ⟨blank, hblank, htail⟩ := exists_blank tail
      split at h
      · next tail' heq' =>
        cases h
        exact ⟨_, .empty hblank, by rw [heq, htail, heq']; simp⟩
      · obtain ⟨⟨ms, rest⟩, hms, h⟩ := Option.map_eq_some_iff.1 h
        cases h
        obtain ⟨used, hused, htail'⟩ := ih.members hms
        refine ⟨_, .mapping (.blank_members hblank hused), ?_⟩
        rw [heq, htail, htail']
        simp
  · next tail heq =>
    obtain ⟨rest, hrest, h⟩ := Option.map_eq_some_iff.1 h
    cases h
    exact ⟨_, .null, by rw [heq, after?_eq_some hrest]; rfl⟩
  · next tail heq =>
    obtain ⟨rest, hrest, h⟩ := Option.map_eq_some_iff.1 h
    cases h
    exact ⟨_, .true, by rw [heq, after?_eq_some hrest]; rfl⟩
  · next tail heq =>
    obtain ⟨rest, hrest, h⟩ := Option.map_eq_some_iff.1 h
    cases h
    exact ⟨_, .false, by rw [heq, after?_eq_some hrest]; rfl⟩
  · obtain ⟨⟨n, rest⟩, hn, h⟩ := Option.bind_eq_some_iff.1 h
    obtain ⟨x, hx, h⟩ := Option.bind_eq_some_iff.1 h
    cases h
    obtain ⟨used, hused, heq⟩ := numeral?_sound hn
    exact ⟨used, .number hused hx, heq⟩

theorem items?_sound {fuel : Nat} (ih : Sound dialect fuel) {depth : Nat} {s rest : List Char}
    {vs : List Value} (h : items? dialect (fuel + 1) depth s = some (vs, rest)) :
    ∃ used, Spells dialect depth (.items vs) used ∧ s = used ++ ']' :: rest := by
  unfold items? at h
  obtain ⟨⟨v, rest₁⟩, hv, hafter⟩ := Option.bind_eq_some_iff.1 h
  obtain ⟨before, used, hbefore, hused, rfl⟩ := ih.value hv
  obtain ⟨after, hblank, hrest₁⟩ := exists_blank rest₁
  simp only at hafter
  split at hafter
  · next rest₂ heq =>
    cases hafter
    exact ⟨_, .item (.padded hbefore hused hblank), by rw [hrest₁, heq]; simp⟩
  · next rest₂ heq =>
    obtain ⟨⟨vs, rest₃⟩, hvs, hlast⟩ := Option.bind_eq_some_iff.1 hafter
    cases hlast
    obtain ⟨more, hmore, rfl⟩ := ih.items hvs
    exact ⟨_, .items (.padded hbefore hused hblank) hmore, by rw [hrest₁, heq]; simp⟩
  · cases hafter

theorem members?_sound {fuel : Nat} (ih : Sound dialect fuel) {depth : Nat} {s rest : List Char}
    {ms : List (String × Value)} (h : members? dialect (fuel + 1) depth s = some (ms, rest)) :
    ∃ used, Spells dialect depth (.members ms) used ∧ s = used ++ '\x7d' :: rest := by
  obtain ⟨blank, hblank, hs⟩ := exists_blank s
  unfold members? at h
  split at h
  · next tail heq =>
    obtain ⟨⟨key, rest₁⟩, hkey, hcolon⟩ := Option.bind_eq_some_iff.1 h
    obtain ⟨k, hk, htail⟩ := text?_sound hkey
    obtain ⟨after, hafter, hrest₁⟩ := exists_blank rest₁
    simp only at hcolon
    split at hcolon
    · next rest₂ heq₂ =>
      obtain ⟨⟨v, rest₃⟩, hv, hlast⟩ := Option.bind_eq_some_iff.1 hcolon
      obtain ⟨before, used, hbefore, hused, rfl⟩ := ih.value hv
      obtain ⟨after', hafter', hrest₃⟩ := exists_blank rest₃
      have hmember := Spells.member hblank hk hafter (.padded hbefore hused hafter')
      simp only at hlast
      split at hlast
      · next rest₄ heq₄ =>
        cases hlast
        refine ⟨_, .single hmember, ?_⟩
        rw [hs, heq, htail, hrest₁, heq₂, hrest₃, heq₄]
        simp
      · next rest₄ heq₄ =>
        obtain ⟨⟨ms, rest₅⟩, hms, hmore⟩ := Option.bind_eq_some_iff.1 hlast
        cases hmore
        obtain ⟨more, hmore, rfl⟩ := ih.members hms
        refine ⟨_, .members hmember hmore, ?_⟩
        rw [hs, heq, htail, hrest₁, heq₂, hrest₃, heq₄]
        simp
      · cases hlast
    · cases hcolon
  · cases h

theorem sound (dialect : Dialect) (fuel : Nat) : Sound dialect fuel := by
  induction fuel with
  | zero =>
    refine ⟨?_, ?_, ?_⟩
    · rintro depth s v rest h
      cases h
    · rintro depth s vs rest h
      cases h
    · rintro depth s ms rest h
      cases h
  | succ fuel ih => exact ⟨value?_sound ih, items?_sound ih, members?_sound ih⟩

/-! ### What has a spelling is read -/

theorem skipBlanks_idem (s : List Char) : skipBlanks (skipBlanks s) = skipBlanks s := by
  have h : Stops isBlank (skipBlanks s) := stops_dropWhile isBlank s
  cases hs : skipBlanks s with
  | nil => rfl
  | cons c t =>
    rw [hs] at h
    exact skipBlanks_cons (h c rfl) t

theorem value?_skipBlanks (fuel depth : Nat) (s : List Char) :
    value? dialect fuel depth (skipBlanks s) = value? dialect fuel depth s := by
  cases fuel with
  | zero => rfl
  | succ fuel =>
    unfold value?
    rw [skipBlanks_idem]

theorem value?_blank {b : List Char} (hb : Blank b) (fuel depth : Nat) (s : List Char) :
    value? dialect fuel depth (b ++ s) = value? dialect fuel depth s := by
  rw [← value?_skipBlanks, skipBlanks_append hb, value?_skipBlanks]

theorem items?_skipBlanks (fuel depth : Nat) (s : List Char) :
    items? dialect fuel depth (skipBlanks s) = items? dialect fuel depth s := by
  cases fuel with
  | zero => rfl
  | succ fuel =>
    unfold items?
    rw [value?_skipBlanks]

theorem members?_skipBlanks (fuel depth : Nat) (s : List Char) :
    members? dialect fuel depth (skipBlanks s) = members? dialect fuel depth s := by
  cases fuel with
  | zero => rfl
  | succ fuel =>
    unfold members?
    rw [skipBlanks_idem]

theorem head_of_spellsNumeral {n : Numeral} {s : List Char} (h : SpellsNumeral n s) :
    ∃ c t, s = c :: t ∧ (isDigit c = true ∨ c = '-') := by
  obtain ⟨hwhole, -, -, -⟩ := h
  obtain ⟨d, ds, rfl⟩ := List.exists_cons_of_ne_nil hwhole.1
  rename_i negative _ _ _ _
  cases negative with
  | true => exact ⟨'-', _, rfl, .inr rfl⟩
  | false => exact ⟨d, _, rfl, .inl (hwhole.2 d List.mem_cons_self)⟩

theorem isBlank_of_isDigit {c : Char} (h : isDigit c = true) : isBlank c = false := by
  by_contra hblank
  rcases isBlank_iff.1 (by simpa using hblank) with rfl | rfl | rfl | rfl <;> simp [isDigit] at h

/-- A value starts with a character that is neither blank nor a closing bracket. -/
theorem head_of_spellsValue {depth : Nat} {v : Value} {s : List Char}
    (h : Spells dialect depth (.value v) s) :
    ∃ c t, s = c :: t ∧ isBlank c = false ∧ c ≠ ']' := by
  cases h with
  | number h _ =>
    obtain ⟨c, t, rfl, hc | rfl⟩ := head_of_spellsNumeral h
    · refine ⟨c, t, rfl, isBlank_of_isDigit hc, ?_⟩
      rintro rfl
      simp [isDigit] at hc
    · exact ⟨_, _, rfl, by decide⟩
  | text h =>
    cases h
    exact ⟨_, _, rfl, by decide⟩
  | _ => exact ⟨_, _, rfl, by decide⟩

/-- The items of a list do not start like the end of one. -/
theorem skipBlanks_items {depth : Nat} {vs : List Value} {s : List Char}
    (h : Spells dialect depth (.items vs) s) (rest : List Char) :
    ∃ c t, skipBlanks (s ++ rest) = c :: t ∧ c ≠ ']' := by
  have hpadded : ∀ {v s}, Spells dialect depth (.padded v) s → ∀ rest : List Char,
      ∃ c t, skipBlanks (s ++ rest) = c :: t ∧ c ≠ ']' := by
    intro v s h rest
    cases h with
    | @padded _ _ _ before after hb h ha =>
      obtain ⟨c, t, rfl, hc, hne⟩ := head_of_spellsValue h
      refine ⟨c, t ++ (after ++ rest), ?_, hne⟩
      rw [List.append_assoc, List.append_assoc, skipBlanks_append hb, List.cons_append,
        skipBlanks_cons hc]
  cases h with
  | item h => exact hpadded h rest
  | items h ht =>
    rw [List.append_assoc]
    exact hpadded h _

/-- The members of an object start with a quote. -/
theorem skipBlanks_members {depth : Nat} {ms : List (String × Value)} {s : List Char}
    (h : Spells dialect depth (.members ms) s) (rest : List Char) :
    ∃ t, skipBlanks (s ++ rest) = '\x22' :: t := by
  have hmember : ∀ {m s}, Spells dialect depth (.member m) s → ∀ rest : List Char,
      ∃ t, skipBlanks (s ++ rest) = '\x22' :: t := by
    intro m s h rest
    cases h with
    | member hb hk ha h =>
      cases hk
      simp only [List.append_assoc, skipBlanks_append hb]
      exact ⟨_, skipBlanks_cons (by decide) _⟩
  cases h with
  | single h => exact hmember h rest
  | members h ht =>
    rw [List.append_assoc]
    exact hmember h _

theorem stops_blank {b rest : List Char} (hb : Blank b) (hr : Stops continuesNumeral rest) :
    Stops continuesNumeral (b ++ rest) := by
  cases b with
  | nil => exact hr
  | cons c b =>
    intro d hd
    obtain rfl := Option.some.inj hd
    rcases isBlank_iff.1 (hb c List.mem_cons_self) with rfl | rfl | rfl | rfl <;> rfl

theorem stops_cons {c : Char} (hc : continuesNumeral c = false) (rest : List Char) :
    Stops continuesNumeral (c :: rest) := by
  rintro _ ⟨⟩
  exact hc

/-- What a part of a document that is spelled is read as, with fuel for its characters. -/
def Reads (dialect : Dialect) (depth : Nat) : Part → List Char → Prop
  | .value v, s => ∀ fuel rest, 2 * s.length ≤ fuel → Stops continuesNumeral rest →
      value? dialect (fuel + 1) depth (s ++ rest) = some (v, rest)
  | .padded v, s => ∃ after, Blank after ∧ ∀ fuel rest, 2 * s.length ≤ fuel →
      Stops continuesNumeral rest →
        value? dialect (fuel + 1) depth (s ++ rest) = some (v, after ++ rest)
  | .items vs, s => ∀ fuel rest, 2 * s.length ≤ fuel →
      items? dialect (fuel + 2) depth (s ++ ']' :: rest) = some (vs, rest)
  | .member (key, v), s => ∃ before k mid t after, Blank before ∧ SpellsText key k ∧ Blank mid ∧
      Blank after ∧ s = before ++ k ++ mid ++ ':' :: t ∧ ∀ fuel rest, 2 * t.length ≤ fuel →
        Stops continuesNumeral rest →
          value? dialect (fuel + 1) depth (t ++ rest) = some (v, after ++ rest)
  | .members ms, s => ∀ fuel rest, 2 * s.length ≤ fuel →
      members? dialect (fuel + 2) depth (s ++ '\x7d' :: rest) = some (ms, rest)

theorem value?_number {fuel depth : Nat} {c : Char} {t : List Char}
    (hc : isDigit c = true ∨ c = '-') :
    value? dialect (fuel + 1) depth (c :: t) = (numeral? (c :: t)).bind fun r =>
      (r.1.toNumber? dialect).map fun x => (.number x, r.2) := by
  have hblank : isBlank c = false := by
    rcases hc with hc | rfl
    · exact isBlank_of_isDigit hc
    · rfl
  have hdigit : ∀ d rest, c :: t = d :: rest → isDigit d = true ∨ d = '-' := by
    rintro d rest ⟨⟩
    exact hc
  unfold value?
  rw [skipBlanks_cons hblank]
  split
  · next heq => exact absurd (hdigit _ _ heq) (by decide)
  · next heq => exact absurd (hdigit _ _ heq) (by decide)
  · next heq => exact absurd (hdigit _ _ heq) (by decide)
  · next heq => exact absurd (hdigit _ _ heq) (by decide)
  · next heq => exact absurd (hdigit _ _ heq) (by decide)
  · next heq => exact absurd (hdigit _ _ heq) (by decide)
  · simp only [Option.bind_eq_bind, Option.map_eq_bind]
    rfl

theorem value?_bracket {fuel depth : Nat} {s : List Char} :
    value? dialect (fuel + 1) (depth + 1) ('[' :: s) =
      match skipBlanks s with
      | ']' :: rest => some (.list [], rest)
      | rest => (items? dialect fuel depth rest).map fun r => (.list r.1, r.2) := by
  unfold value?
  rw [skipBlanks_cons (by decide)]
  exact if_neg (Nat.succ_ne_zero depth)

theorem value?_brace {fuel depth : Nat} {s : List Char} :
    value? dialect (fuel + 1) (depth + 1) ('\x7b' :: s) =
      match skipBlanks s with
      | '\x7d' :: rest => some (.mapping [], rest)
      | rest =>
        (members? dialect fuel depth rest).map fun r => (.mapping (Table.ofPairs r.1), r.2) := by
  unfold value?
  rw [skipBlanks_cons (by decide)]
  exact if_neg (Nat.succ_ne_zero depth)

/-- A member is read up to the comma or brace after it. -/
theorem members?_member {fuel depth : Nat} {key : String} {v : Value}
    {before k mid t after rest : List Char} (hb : Blank before) (hk : SpellsText key k)
    (hm : Blank mid) (hafter : Blank after)
    (hvalue : value? dialect (fuel + 1) depth (t ++ rest) = some (v, after ++ rest)) :
    members? dialect (fuel + 2) depth (before ++ k ++ mid ++ ':' :: t ++ rest) =
      match skipBlanks rest with
      | '\x7d' :: rest => some ([(key, v)], rest)
      | ',' :: rest => (members? dialect (fuel + 1) depth rest).map fun r => ((key, v) :: r.1, r.2)
      | _ => none := by
  obtain ⟨body, rfl, hbody⟩ := text?_complete hk (mid ++ ':' :: (t ++ rest))
  have hs : skipBlanks (before ++ '\x22' :: body ++ mid ++ ':' :: t ++ rest) =
      '\x22' :: (body ++ (mid ++ ':' :: (t ++ rest))) := by
    simp only [List.append_assoc, List.cons_append, skipBlanks_append hb]
    exact skipBlanks_cons (by decide) _
  unfold members?
  rw [hs]
  simp only [Option.bind_eq_bind, hbody, Option.bind_some, skipBlanks_append hm]
  rw [skipBlanks_cons (by decide)]
  simp only [hvalue, Option.bind_some, skipBlanks_append hafter, Option.map_eq_bind]
  rfl

section Reads

variable {depth : Nat} {v : Value} {vs : List Value} {m : String × Value} {ms : List (String × Value)}
  {s t : List Char}

/-- A number is read up to what does not continue it. -/
theorem reads_number {n : Numeral} {x : Number} (h : SpellsNumeral n s)
    (hx : n.toNumber? dialect = some x) : Reads dialect depth (.value (.number x)) s := by
  intro fuel rest _ hr
  obtain ⟨c, t, rfl, hc⟩ := head_of_spellsNumeral h
  rw [List.cons_append, value?_number hc, ← List.cons_append, numeral?_complete h hr]
  simp [hx]

/-- A list is read if its items are. It takes one step for its bracket and one for its first item, and
its characters pay for both. -/
theorem reads_list (h : Spells dialect depth (.items vs) s) (ih : Reads dialect depth (.items vs) s) :
    Reads dialect (depth + 1) (.value (.list vs)) ('[' :: (s ++ [']'])) := by
  intro fuel rest hfuel _
  obtain ⟨fuel, rfl⟩ := Nat.exists_eq_add_of_le' (show 2 ≤ fuel by simp at hfuel; omega)
  rw [List.length_cons, List.length_append, List.length_singleton] at hfuel
  obtain ⟨c, t, hs, hc⟩ := skipBlanks_items h (']' :: rest)
  rw [List.cons_append, List.append_assoc, List.singleton_append, value?_bracket]
  split
  · next heq =>
    rw [hs] at heq
    cases heq
    exact absurd rfl hc
  · rw [items?_skipBlanks, ih fuel rest (by omega)]
    rfl

/-- So is an object if its members are. -/
theorem reads_mapping (h : Spells dialect depth (.members ms) s)
    (ih : Reads dialect depth (.members ms) s) :
    Reads dialect (depth + 1) (.value (.mapping (Table.ofPairs ms)))
      ('\x7b' :: (s ++ ['\x7d'])) := by
  intro fuel rest hfuel _
  obtain ⟨fuel, rfl⟩ := Nat.exists_eq_add_of_le' (show 2 ≤ fuel by simp at hfuel; omega)
  rw [List.length_cons, List.length_append, List.length_singleton] at hfuel
  obtain ⟨t, hs⟩ := skipBlanks_members h ('\x7d' :: rest)
  rw [List.cons_append, List.append_assoc, List.singleton_append, value?_brace]
  split
  · next heq =>
    rw [hs] at heq
    cases heq
  · rw [members?_skipBlanks, ih fuel rest (by omega)]
    rfl

theorem reads_item (ih : Reads dialect depth (.padded v) s) : Reads dialect depth (.items [v]) s := by
  obtain ⟨after, hafter, hvalue⟩ := ih
  intro fuel rest hfuel
  rw [items?, hvalue fuel _ hfuel (stops_cons rfl rest)]
  simp only [Option.bind_eq_bind, Option.bind_some, skipBlanks_append hafter]
  rfl

theorem reads_items (ih : Reads dialect depth (.padded v) s) (iht : Reads dialect depth (.items vs) t) :
    Reads dialect depth (.items (v :: vs)) (s ++ ',' :: t) := by
  obtain ⟨after, hafter, hvalue⟩ := ih
  intro fuel rest hfuel
  obtain ⟨fuel, rfl⟩ := Nat.exists_eq_add_of_le' (show 1 ≤ fuel by simp at hfuel; omega)
  rw [List.length_append, List.length_cons] at hfuel
  rw [List.append_assoc, List.cons_append, items?,
    hvalue (fuel + 1) _ (by omega) (stops_cons rfl _)]
  simp only [Option.bind_eq_bind, Option.bind_some, skipBlanks_append hafter]
  show (items? dialect (fuel + 2) _ _).bind _ = _
  rw [iht fuel rest (by omega)]
  rfl

theorem reads_single (ih : Reads dialect depth (.member m) s) :
    Reads dialect depth (.members [m]) s := by
  obtain ⟨before, k, mid, t, after, hb, hk, hm, hafter, rfl, hvalue⟩ := ih
  intro fuel rest hfuel
  simp only [List.length_append, List.length_cons] at hfuel
  rw [members?_member hb hk hm hafter (hvalue fuel _ (by omega) (stops_cons rfl rest))]
  rfl

theorem reads_members (ih : Reads dialect depth (.member m) s)
    (iht : Reads dialect depth (.members ms) t) :
    Reads dialect depth (.members (m :: ms)) (s ++ ',' :: t) := by
  obtain ⟨before, k, mid, t, after, hb, hk, hm, hafter, rfl, hvalue⟩ := ih
  intro fuel rest hfuel
  obtain ⟨fuel, rfl⟩ := Nat.exists_eq_add_of_le' (show 1 ≤ fuel by simp at hfuel; omega)
  simp only [List.length_append, List.length_cons] at hfuel
  rw [List.append_assoc, List.cons_append,
    members?_member hb hk hm hafter (hvalue (fuel + 1) _ (by omega) (stops_cons rfl _))]
  show (members? dialect (fuel + 2) _ _).map _ = _
  rw [iht fuel rest (by omega)]
  rfl

end Reads

/-- What is spelled is read. -/
theorem reads_of_spells {depth : Nat} {part : Part} {s : List Char}
    (h : Spells dialect depth part s) : Reads dialect depth part s := by
  induction h with
  | null => exact fun fuel rest _ _ => rfl
  | true => exact fun fuel rest _ _ => rfl
  | false => exact fun fuel rest _ _ => rfl
  | number h hx => exact reads_number h hx
  | text h =>
    intro fuel rest _ _
    obtain ⟨body, rfl, hbody⟩ := text?_complete h rest
    show (text? (body ++ rest)).map _ = _
    rw [hbody]
    rfl
  | nil hb =>
    intro fuel rest _ _
    rw [List.cons_append, value?_bracket, List.append_assoc, skipBlanks_append hb]
    rfl
  | list h ih => exact reads_list h ih
  | empty hb =>
    intro fuel rest _ _
    rw [List.cons_append, value?_brace, List.append_assoc, skipBlanks_append hb]
    rfl
  | mapping h ih => exact reads_mapping h ih
  | padded hb h ha ih =>
    refine ⟨_, ha, ?_⟩
    intro fuel rest hfuel hr
    rw [List.length_append, List.length_append] at hfuel
    rw [List.append_assoc, List.append_assoc, value?_blank hb,
      ih fuel _ (by omega) (stops_blank ha hr)]
  | item h ih => exact reads_item ih
  | items h ht ih iht => exact reads_items ih iht
  | member hb hk ha h ih =>
    obtain ⟨after, hafter, hvalue⟩ := ih
    exact ⟨_, _, _, _, after, hb, hk, ha, hafter, rfl, hvalue⟩
  | single h ih => exact reads_single ih
  | members h ht ih iht => exact reads_members ih iht

/-- A document is read exactly if it is spelled, with blanks around it perhaps. -/
theorem read?_iff {s : List Char} {v : Value} :
    read? dialect s = some v ↔ Spells dialect dialect.maxDepth (.padded v) s := by
  constructor
  · intro h
    unfold read? at h
    split at h
    · next w rest hvalue =>
      split at h
      · next hrest =>
        cases h
        obtain ⟨before, used, hb, hused, rfl⟩ := (sound dialect _).value hvalue
        obtain ⟨after, hafter, hafter'⟩ := exists_blank rest
        rw [List.isEmpty_iff.1 hrest, List.append_nil] at hafter'
        rw [hafter']
        exact .padded hb hused hafter
      · cases h
    · cases h
  · intro h
    obtain ⟨after, hafter, hvalue⟩ := reads_of_spells h
    have hread := hvalue (2 * s.length + 1) [] (by omega) (by rintro _ ⟨⟩)
    rw [List.append_nil, List.append_nil] at hread
    have hskip : skipBlanks after = [] := by
      have happend := skipBlanks_append hafter []
      rw [List.append_nil] at happend
      exact happend
    rw [read?, hread]
    simp [hskip]

end StoryWorld.Json
