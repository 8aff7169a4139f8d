import Mathlib.Data.List.DropRight
import Mathlib.Data.List.TakeWhile
import StoryWorld.Text.Blank
import StoryWorld.Text.Lines

/-!
Trimmed texts, and texts that are cut at a separator.

Trimming stops at the first character that is not blank, on either side, so what lies between two
such characters stays as it is.
-/

namespace StoryWorld.Text

theorem splitAt_ne_nil (separator : Char) (s : List Char) : splitAt separator s ≠ [] := by
  induction s with
  | nil => simp [splitAt]
  | cons c rest ih =>
    unfold splitAt
    split
    · simp
    · split <;> simp

/-- Both sides of a separator are cut on their own. -/
theorem splitAt_separator (separator : Char) (s rest : List Char) :
    splitAt separator (s ++ separator :: rest) = splitAt separator s ++ splitAt separator rest := by
  induction s with
  | nil => simp [splitAt]
  | cons c s ih =>
    rw [List.cons_append, splitAt, splitAt, ih]
    split
    · rw [List.cons_append]
    · obtain ⟨part, parts, hparts⟩ := List.exists_cons_of_ne_nil (splitAt_ne_nil separator s)
      rw [hparts]
      rfl

theorem splitAt_of_not_mem {separator : Char} {s : List Char} (h : separator ∉ s) :
    splitAt separator s = [s] := by
  induction s with
  | nil => rfl
  | cons c s ih =>
    rw [List.mem_cons, not_or] at h
    rw [splitAt, if_neg (Ne.symm h.1), ih h.2]

theorem splitAt_append {separator : Char} {s : List Char} (h : separator ∉ s)
    (rest : List Char) :
    splitAt separator (s ++ separator :: rest) = s :: splitAt separator rest := by
  rw [splitAt_separator, splitAt_of_not_mem h, List.singleton_append]

theorem trimLeft_cons {c : Char} (h : isBlank c = false) (s : List Char) :
    trimLeft (c :: s) = c :: s := by
  rw [trimLeft, List.dropWhile_cons_of_neg (by simp [h])]

/-- What stands behind a character that is not blank is not touched at the start. -/
theorem trimLeft_append {c : Char} (h : isBlank c = false) (s rest : List Char) :
    trimLeft (s ++ c :: rest) = trimLeft s ++ c :: rest := by
  simp only [trimLeft, List.dropWhile_append]
  cases hs : s.dropWhile isBlank with
  | nil => exact trimLeft_cons h rest
  | cons d ds => simp

/-- What stands before a character that is not blank is not touched at the end. -/
theorem trimRight_append {c : Char} (h : isBlank c = false) (s rest : List Char) :
    trimRight (s ++ c :: rest) = s ++ c :: trimRight rest := by
  simp only [trimRight, List.reverse_append, List.reverse_cons, List.append_assoc,
    List.dropWhile_append]
  cases hrest : rest.reverse.dropWhile isBlank with
  | nil => simp [h]
  | cons d ds => simp

/-- What trimming takes off at the end. -/
theorem exists_trimRight (s : List Char) : ∃ blanks, s = trimRight s ++ blanks :=
  ⟨(s.reverse.takeWhile isBlank).reverse, by
    rw [trimRight, ← List.reverse_append, List.takeWhile_append_dropWhile, List.reverse_reverse]⟩

theorem trimRight_trimRight (s : List Char) : trimRight (trimRight s) = trimRight s := by
  simp only [trimRight, List.reverse_reverse, List.dropWhile_idempotent]

/-- Around two characters that are not blank each side is trimmed on its own. -/
theorem trim_append {s : List Char} (hfirst : ∃ c t, s = c :: t ∧ isBlank c = false)
    (hlast : ∃ t c, s = t ++ [c] ∧ isBlank c = false) (before after : List Char) :
    trim (before ++ s ++ after) = trimLeft before ++ s ++ trimRight after := by
  have hleft : trimLeft (before ++ s ++ after) = trimLeft before ++ s ++ after := by
    obtain ⟨c, t, rfl, hc⟩ := hfirst
    rw [List.append_assoc, List.cons_append, trimLeft_append hc, List.append_assoc,
      List.cons_append]
  obtain ⟨u, d, rfl, hd⟩ := hlast
  rw [trim, hleft, ← List.append_assoc, List.append_assoc, List.singleton_append,
    trimRight_append hd]
  simp

/-- Blanks around two characters that are not blank are all that trimming takes off. -/
theorem trim_padded {before s after : List Char} (hb : ∀ c ∈ before, isBlank c = true)
    (hfirst : ∃ c t, s = c :: t ∧ isBlank c = false)
    (hlast : ∃ t c, s = t ++ [c] ∧ isBlank c = false) (ha : ∀ c ∈ after, isBlank c = true) :
    trim (before ++ s ++ after) = s := by
  have hleft : trimLeft before = [] := List.dropWhile_eq_nil_iff.2 hb
  have hright : trimRight after = [] := by
    rw [trimRight, List.reverse_eq_nil_iff, List.dropWhile_eq_nil_iff]
    exact fun c hc => ha c (List.mem_reverse.1 hc)
  rw [trim_append hfirst hlast, hleft, hright, List.nil_append, List.append_nil]

end StoryWorld.Text
