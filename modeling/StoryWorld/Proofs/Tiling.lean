import StoryWorld.Proofs.Lexemes

/-!
The tokens of a text tile it.

The scan moves through a text from one lexeme to the next. What it leaves behind are tokens that lie
in the text one after the other, each with its source at its position, and with nothing but blanks
around them.
-/

namespace StoryWorld.Token

/-- Tokens that lie in a text, which starts at a position, with blanks before, between and after
them. -/
inductive Laid : ℕ → List Token → List Char → Prop
  | nil {position gap} (blank : ∀ c ∈ gap, Text.isBlank c = true) : Laid position [] gap
  | cons {position t ts gap word rest} (blank : ∀ c ∈ gap, Text.isBlank c = true)
    (start : t.position = position + gap.length) (source : Source t.kind t.value word)
    (ne : word ≠ []) (more : Laid (t.position + word.length) ts rest) :
    Laid position (t :: ts) (gap ++ (word ++ rest))

variable {position skip : ℕ} {t : Token} {ts : List Token} {s : List Char} {c : Char}

theorem Laid.blank_cons (hc : Text.isBlank c = true) (h : Laid (position + 1) ts s) :
    Laid position ts (c :: s) := by
  cases h with
  | nil blank => exact .nil (List.forall_mem_cons.2 ⟨hc, blank⟩)
  | @cons _ t ts gap word rest blank start source ne more =>
    refine @Laid.cons _ t ts (c :: gap) word rest (List.forall_mem_cons.2 ⟨hc, blank⟩) ?_ source
      ne more
    rw [start, List.length_cons]
    omega

/-- What the scan finds lies in the text, and has values of its kinds. -/
theorem laid_of_scan (h : scan position 0 s = .ok ts) :
    Laid position ts s ∧ ∀ t ∈ ts, IsValue t.kind t.value := by
  induction hlen : s.length using Nat.strong_induction_on generalizing position s ts with
  | _ n ih =>
    cases s with
    | nil =>
      cases h
      exact ⟨.nil (by simp), by simp⟩
    | cons c rest =>
      rw [scan] at h
      split at h
      · next hblank =>
        obtain ⟨hlaid, hvalues⟩ := ih rest.length (by simp [← hlen]) h rfl
        exact ⟨hlaid.blank_cons hblank, hvalues⟩
      split at h
      · cases h
      · next l hl =>
        obtain ⟨tokens, hscan, htokens⟩ := Outcome.bind_ok.1 h
        cases htokens
        obtain ⟨hvalue, word, tail, htext, hsource, hwidth⟩ := starts_of_lexeme hl
        obtain ⟨d, more, rfl, -, -⟩ := taken_of_source hvalue hsource
        rw [List.cons_append] at htext
        obtain ⟨rfl, rfl⟩ := List.cons.inj htext
        -- the scan passes over the rest of the lexeme, and goes on behind it
        have hskip : l.width - 1 = more.length := by simp [hwidth]
        rw [hskip, scan_skip] at hscan
        have hless : tail.length < n := by
          rw [← hlen, List.length_cons, List.length_append]
          omega
        obtain ⟨hlaid, hvalues⟩ := ih tail.length hless hscan rfl
        refine ⟨?_, List.forall_mem_cons.2 ⟨hvalue, hvalues⟩⟩
        refine @Laid.cons position ⟨l.kind, l.value, position⟩ tokens [] (c :: more) tail (by simp)
          rfl hsource (by simp) ?_
        rwa [List.length_cons, Nat.add_comm more.length, ← Nat.add_assoc]

theorem IsValue.proper (h : IsValue t.kind t.value) : t.Proper := by
  obtain ⟨kind, value, position⟩ := t
  cases h with
  | word => exact proper_word _ _
  | _ => exact proper_of_kind (by simp) (by simp)

/-- The tokens of a text are proper ones. -/
theorem proper_of_tokenize (h : tokenize s = .ok ts) : ∀ t ∈ ts, t.Proper :=
  fun t ht => ((laid_of_scan h).2 t ht).proper

/-! ### Tokens that lie in a text -/

namespace Laid

theorem position_le (h : Laid position ts s) : ∀ t ∈ ts, position ≤ t.position := by
  induction h with
  | nil => simp
  | cons _ start _ _ _ ih =>
    refine List.forall_mem_cons.2 ⟨by omega, fun u hu => ?_⟩
    have hle := ih u hu
    omega

/-- Each token ends where the next ones start, or before. -/
theorem apart (h : Laid position ts s) :
    ts.Pairwise fun t u => t.position + t.width ≤ u.position := by
  induction h with
  | nil => exact .nil
  | cons _ _ source _ more ih =>
    refine .cons (fun u hu => ?_) ih
    have hle := more.position_le u hu
    rwa [source.length_eq] at hle

theorem ascending (h : Laid position ts s) : ts.Pairwise fun t u => t.position < u.position := by
  induction h with
  | nil => exact .nil
  | cons _ _ _ ne more ih =>
    refine .cons (fun u hu => ?_) ih
    have hle := more.position_le u hu
    have hpos := List.length_pos_of_ne_nil ne
    omega

/-- The source of each token stands at its position. -/
theorem stands (h : Laid position ts s) : ∀ t ∈ ts, ∃ before word after,
    s = before ++ (word ++ after) ∧ t.position = position + before.length ∧
      Source t.kind t.value word := by
  induction h with
  | nil => simp
  | @cons position t ts gap word rest _ start source _ _ ih =>
    refine List.forall_mem_cons.2 ⟨⟨gap, word, rest, rfl, start, source⟩, fun u hu => ?_⟩
    obtain ⟨before, word', after, rfl, hposition, hsource⟩ := ih u hu
    refine ⟨gap ++ (word ++ before), word', after, by simp, ?_, hsource⟩
    simp only [List.length_append]
    omega

/-- Every character outside of the tokens is a blank. -/
theorem blank_outside (h : Laid position ts s) : ∀ i c, s[i]? = some c →
    (∀ t ∈ ts, position + i < t.position ∨ t.position + t.width ≤ position + i) →
      Text.isBlank c = true := by
  induction h with
  | nil blank => exact fun i c hc _ => blank c (List.mem_of_getElem? hc)
  | @cons position t ts gap word rest blank start source _ _ ih =>
    intro i c hc hout
    rw [List.forall_mem_cons] at hout
    obtain ⟨ht, hout⟩ := hout
    have hlen := source.length_eq
    by_cases hgap : i < gap.length
    · rw [List.getElem?_append_left hgap] at hc
      exact blank c (List.mem_of_getElem? hc)
    · -- not in the first token, so behind it
      obtain ⟨k, rfl⟩ := Nat.exists_eq_add_of_le (show gap.length + word.length ≤ i by omega)
      refine ih k c ?_ fun u hu => ?_
      · rw [← hc, ← List.append_assoc, ← List.length_append, List.getElem?_append_right (by omega)]
        congr 1
        omega
      · have hu := hout u hu
        omega

end Laid

/-- Tokens that tile a text: their sources stand at their positions, in ascending order and without
overlap, and around them are only blanks. -/
structure Tiles (ts : List Token) (s : List Char) : Prop where
  ascending : ts.Pairwise fun t u => t.position < u.position
  stands : ∀ t ∈ ts, ∃ before word after, s = before ++ (word ++ after) ∧
    t.position = before.length ∧ word.length = t.width ∧ Source t.kind t.value word
  apart : ts.Pairwise fun t u => t.position + t.width ≤ u.position
  blank : ∀ i c, s[i]? = some c →
    (∀ t ∈ ts, i < t.position ∨ t.position + t.width ≤ i) → Text.isBlank c = true

/-- The tokens of every text that has any tile it. -/
theorem tiles_of_tokenize (h : tokenize s = .ok ts) : Tiles ts s := by
  obtain ⟨hlaid, -⟩ := laid_of_scan h
  refine ⟨hlaid.ascending, fun t ht => ?_, hlaid.apart, fun i c hc hout => ?_⟩
  · obtain ⟨before, word, after, hs, hposition, hsource⟩ := hlaid.stands t ht
    exact ⟨before, word, after, hs, by omega, hsource.length_eq, hsource⟩
  · exact hlaid.blank_outside i c hc (by simpa using hout)

/-- Without any blanks, and with a string that is two characters wider than its value. -/
theorem tiles_of_tokenize_dense :
    Token.tokenize "1.5>=.5+'a b'".toList =
        .ok [⟨.number, "1.5".toList, 0⟩, ⟨.compare, ">=".toList, 3⟩, ⟨.number, ".5".toList, 5⟩,
          ⟨.arithmetic, "+".toList, 7⟩, ⟨.string, "a b".toList, 8⟩] ∧
      Tiles [⟨.number, "1.5".toList, 0⟩, ⟨.compare, ">=".toList, 3⟩, ⟨.number, ".5".toList, 5⟩,
        ⟨.arithmetic, "+".toList, 7⟩, ⟨.string, "a b".toList, 8⟩] "1.5>=.5+'a b'".toList := by
  have htokens : Token.tokenize "1.5>=.5+'a b'".toList =
      .ok [⟨.number, "1.5".toList, 0⟩, ⟨.compare, ">=".toList, 3⟩, ⟨.number, ".5".toList, 5⟩,
        ⟨.arithmetic, "+".toList, 7⟩, ⟨.string, "a b".toList, 8⟩] := by decide +kernel
  exact ⟨htokens, tiles_of_tokenize htokens⟩

end StoryWorld.Token
