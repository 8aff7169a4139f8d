import Mathlib.Data.List.Induction
import Mathlib.Data.Nat.Digits.Defs
import StoryWorld.Proofs.Grammar
import StoryWorld.Proofs.Spelling

/-!
How the tokens of an expression are spaced.

A text is a row of lexemes with blanks before, between and after them, as many or as few as leave
each lexeme the longest that can be taken. The scan of such a text finds one token for each lexeme,
and nothing of the blanks is left in it but the positions.
-/

namespace StoryWorld

namespace Text

/-- The digits of no script are among the blanks. -/
theorem isBlank_of_isDigit {c : Char} (h : isDigit c = true) : isBlank c = false := by
  have hzeros : ∀ z ∈ zeros, ∀ k < 10, isBlank (Char.ofNat (z + k)) = false := by decide +kernel
  obtain ⟨n, hn⟩ := Option.isSome_iff_exists.1 h
  obtain ⟨z, hz, -⟩ := Option.map_eq_some_iff.1 hn
  have hmem := List.mem_of_find?_eq_some hz
  have hrange : z ≤ c.toNat ∧ c.toNat ≤ z + 9 := by simpa using List.find?_some hz
  have hdigit := hzeros z hmem (c.toNat - z) (by omega)
  rwa [show z + (c.toNat - z) = c.toNat by omega, Char.ofNat_toNat] at hdigit

theorem natOfDigits_eq_ofDigits (s : List Char) :
    natOfDigits s = Nat.ofDigits 10 (s.map fun c => (digit? c).getD 0).reverse := by
  induction s using List.reverseRecOn with
  | nil => rfl
  | append_singleton s c ih =>
    rw [natOfDigits, List.foldl_append, ← natOfDigits, ih, List.map_append, List.reverse_append]
    simp [Nat.ofDigits_cons, Nat.add_comm]

end Text

namespace Token

/-- Texts in which some lexemes, given by the kinds and values of their tokens, stand one after the
other, with any blanks around them. -/
inductive Spaced : List (TokenKind × List Char) → List Char → Prop
  | nil {gap} (blank : ∀ c ∈ gap, Text.isBlank c = true) : Spaced [] gap
  | cons {gap c word rest kind value ws} (blank : ∀ c ∈ gap, Text.isBlank c = true)
    (start : Text.isBlank c = false)
    (lexeme : Token.lexeme c (word ++ rest) = .ok ⟨kind, value, (c :: word).length⟩)
    (more : Spaced ws rest) : Spaced ((kind, value) :: ws) (gap ++ c :: word ++ rest)

theorem scan_skip (word rest : List Char) (position : Nat) :
    scan position word.length (word ++ rest) = scan (position + word.length) 0 rest := by
  induction word generalizing position with
  | nil => rfl
  | cons c word ih =>
    rw [List.length_cons, List.cons_append, scan, ih]
    congr 1
    omega

theorem scan_gap {gap : List Char} (blank : ∀ c ∈ gap, Text.isBlank c = true) (rest : List Char)
    (position : Nat) : scan position 0 (gap ++ rest) = scan (position + gap.length) 0 rest := by
  induction gap generalizing position with
  | nil => rfl
  | cons c gap ih =>
    rw [List.forall_mem_cons] at blank
    rw [List.length_cons, List.cons_append, scan, if_pos blank.1, ih blank.2]
    congr 1
    omega

/-- The scan of spaced lexemes finds just their tokens. -/
theorem scan_of_spaced {ws : List (TokenKind × List Char)} {s : List Char} (h : Spaced ws s) :
    ∀ position, ∃ ts, scan position 0 s = .ok ts ∧
      List.Forall₂ (fun t w => t.Reads w.1 w.2) ts ws := by
  induction h with
  | nil blank =>
    intro position
    refine ⟨[], ?_, .nil⟩
    have hgap := scan_gap blank [] position
    rwa [List.append_nil] at hgap
  | @cons gap c word rest kind value ws blank start lexeme more ih =>
    intro position
    obtain ⟨ts, hts, hreads⟩ := ih (position + gap.length + 1 + word.length)
    refine ⟨⟨kind, value, position + gap.length⟩ :: ts, ?_, .cons ⟨rfl, rfl⟩ hreads⟩
    rw [List.append_assoc, scan_gap blank, List.cons_append, scan, if_neg (by simp [start]), lexeme]
    simp [scan_skip, hts]

theorem tokenize_of_spaced {ws : List (TokenKind × List Char)} {s : List Char} (h : Spaced ws s) :
    ∃ ts, tokenize s = .ok ts ∧ List.Forall₂ (fun t w => t.Reads w.1 w.2) ts ws :=
  scan_of_spaced h 0

/-- No other character starts a comparison of two characters, whatever follows. -/
theorem not_isLongComparison {c : Char} (h : c ∉ ['=', '!', '>', '<']) (rest : List Char) :
    rest.head?.any (isLongComparison c) = false := by
  simp only [List.mem_cons, List.not_mem_nil, or_false, not_or] at h
  cases rest with
  | nil => rfl
  | cons d rest => simp [isLongComparison, h]

/-- The characters that have a meaning of their own where a lexeme starts. -/
def signs : List Char := ['(', ')', '=', '!', '>', '<', '+', '-', '*', '/', '\x22', '\x27']

theorem not_mem_signs {p : Char → Bool} (hp : signs.any p = false) {c : Char} (h : p c = true) :
    c ∉ signs := by
  intro hsign
  simpa [h] using List.any_eq_false.1 hp c hsign

theorem not_mem_signs_of_isDigit {c : Char} (h : Text.isDigit c = true) : c ∉ signs :=
  not_mem_signs (by decide +kernel) h

/-- A text that starts with no sign starts with a numeral or a word, or with no lexeme. -/
theorem lexeme_of_not_mem_signs {c : Char} (h : c ∉ signs) (rest : List Char) :
    lexeme c rest = match numeral? (c :: rest) with
      | some digits => .ok ⟨.number, digits, digits.length⟩
      | none =>
        if Segment.startsIdentifier c then
          let word := (c :: rest).takeWhile continuesWord
          .ok ⟨wordKind word, word, word.length⟩
        else .error .unexpected := by
  simp only [signs, List.mem_cons, List.not_mem_nil, or_false, not_or] at h
  obtain ⟨h1, h2, h3, h4, h5, h6, h7, h8, h9, h10, h11, h12⟩ := h
  have hlong := not_isLongComparison (by simp [h3, h4, h5, h6] : c ∉ ['=', '!', '>', '<']) rest
  unfold lexeme
  cases numeral? (c :: rest) <;>
    simp [h1, h2, h3, h4, h5, h6, h7, h8, h9, h10, h11, h12, hlong, isArithmetic]

theorem numeral?_whole {s rest : List Char} (hne : s ≠ []) (hall : ∀ c ∈ s, Text.isDigit c = true)
    (hrest : Json.Stops (fun c => Text.isDigit c || c == '.') rest) :
    numeral? (s ++ rest) = some s := by
  have hstop : Json.Stops Text.isDigit rest := hrest.mono (by simp +contextual)
  unfold numeral?
  rw [Json.takeWhile_run hall hstop, Json.dropWhile_run hall hstop]
  split
  · next tail =>
    have hpoint := hrest '.' rfl
    simp at hpoint
  · exact if_neg (by simpa using hne)

/-- A run of digits that is followed by no digit and no point is a lexeme. -/
theorem lexeme_digits {c : Char} {word rest : List Char} (hc : Text.isDigit c = true)
    (hword : ∀ d ∈ word, Text.isDigit d = true)
    (hrest : Json.Stops (fun d => Text.isDigit d || d == '.') rest) :
    lexeme c (word ++ rest) = .ok ⟨.number, c :: word, (c :: word).length⟩ := by
  have hall : ∀ d ∈ c :: word, Text.isDigit d = true := List.forall_mem_cons.2 ⟨hc, hword⟩
  rw [lexeme_of_not_mem_signs (not_mem_signs_of_isDigit hc), ← List.cons_append,
    numeral?_whole (List.cons_ne_nil c word) hall hrest]

/-- A comparison that no equals sign follows is a lexeme. -/
theorem lexeme_comparison (op : ComparisonOp) {c : Char} {word rest : List Char}
    (hword : op.sign = c :: word) (hrest : Json.Stops (· == '=') rest) :
    lexeme c (word ++ rest) = .ok ⟨.compare, op.sign, op.sign.length⟩ := by
  have hnone : ∀ d ∈ rest.head?, (d == '=') = false := hrest
  have hlong : ∀ d, rest.head?.any (isLongComparison d) = false := by
    intro d
    cases rest with
    | nil => rfl
    | cons e rest => simp [isLongComparison, hnone e rfl]
  cases op <;> cases hword <;> simp [lexeme, hlong, ComparisonOp.sign, isLongComparison]

theorem lexeme_arithmetic (op : ArithmeticOp) (rest : List Char) :
    lexeme op.sign rest = .ok ⟨.arithmetic, [op.sign], 1⟩ := by
  have hlong : rest.head?.any (isLongComparison op.sign) = false := by
    cases op <;> exact not_isLongComparison (by decide) rest
  cases op <;> simp_all [lexeme, ArithmeticOp.sign, isArithmetic]

end Token

end StoryWorld
