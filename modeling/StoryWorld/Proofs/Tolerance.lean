import StoryWorld.Json.Tolerant
import StoryWorld.Proofs.Spelling
import StoryWorld.Proofs.Texts

/-!
The tolerant reading of documents that need no tolerance.

Before a text is read, the blanks around it and a code fence are taken off, its line ends are made
one kind, and stray control characters and trailing commas are dropped. Nothing of this changes what
a text says that is a document already, but for one thing: commas are dropped inside texts too. So a
document is read as it stands if no comma in it, be it in a text, comes before a closing bracket.
-/

namespace StoryWorld.Json

variable {dialect : Dialect} {depth : Nat}

/-! ### The characters of a document -/

/-- No control characters. -/
def Visible (s : List Char) : Prop := ∀ c ∈ s, 0x20 ≤ c.toNat

@[simp] theorem visible_nil : Visible [] := fun _ h => absurd h List.not_mem_nil

@[simp] theorem visible_cons {c : Char} {s : List Char} :
    Visible (c :: s) ↔ 0x20 ≤ c.toNat ∧ Visible s :=
  List.forall_mem_cons

@[simp] theorem visible_append {s t : List Char} : Visible (s ++ t) ↔ Visible s ∧ Visible t :=
  List.forall_mem_append

theorem visible_of_isDigit {c : Char} (h : isDigit c = true) : 0x20 ≤ c.toNat := by
  simp only [isDigit, Bool.and_eq_true, decide_eq_true_eq] at h
  exact le_trans (by decide) (Char.le_def.1 h.1)

theorem visible_of_digits {s : List Char} (h : Digits s) : Visible s :=
  fun c hc => visible_of_isDigit (h.2 c hc)

theorem visible_of_hexDigit? {c : Char} {n : Nat} (h : hexDigit? c = some n) : 0x20 ≤ c.toNat := by
  unfold hexDigit? at h
  split at h
  · next hc => exact visible_of_isDigit hc
  · split at h
    · next hc => exact le_trans (by decide) (Char.le_def.1 hc.1)
    · split at h
      · next hc => exact le_trans (by decide) (Char.le_def.1 hc.1)
      · cases h

theorem visible_of_hex4? {a b c d : Char} {n : Nat} (h : hex4? a b c d = some n) :
    Visible [a, b, c, d] := by
  obtain ⟨_, ha, h⟩ := Option.bind_eq_some_iff.1 h
  obtain ⟨_, hb, h⟩ := Option.bind_eq_some_iff.1 h
  obtain ⟨_, hc, h⟩ := Option.bind_eq_some_iff.1 h
  obtain ⟨_, hd, -⟩ := Option.bind_eq_some_iff.1 h
  simp [visible_of_hexDigit? ha, visible_of_hexDigit? hb, visible_of_hexDigit? hc,
    visible_of_hexDigit? hd]

theorem visible_of_escape? {e c : Char} (h : escape? e = some c) : 0x20 ≤ e.toNat := by
  unfold escape? at h
  split at h <;> first | decide | cases h

theorem visible_of_spellsFraction {fraction : Option (List Char)} {s : List Char}
    (h : SpellsFraction fraction s) : Visible s := by
  cases h with
  | none => simp
  | some h => simp [visible_of_digits h]

theorem visible_of_spellsExponent {exponent : Option (Bool × List Char)} {s : List Char}
    (h : SpellsExponent exponent s) : Visible s := by
  cases h with
  | none => simp
  | some hmark hsign h =>
    rcases hmark with rfl | rfl <;> cases hsign <;> simp [visible_of_digits h]

theorem visible_of_spellsNumeral {n : Numeral} {s : List Char} (h : SpellsNumeral n s) :
    Visible s := by
  obtain ⟨hwhole, -, hf, he⟩ := h
  rename_i negative _ _ _ _ _
  cases negative <;>
    simp [visible_of_digits hwhole, visible_of_spellsFraction hf, visible_of_spellsExponent he]

theorem visible_of_spellsChar {c : Char} {s : List Char} (h : SpellsChar c s) : Visible s := by
  cases h with
  | plain _ _ hc => simpa using hc
  | escape h => simp [visible_of_escape? h]
  | numbered h _ =>
    have hdigits := visible_of_hex4? h
    simpa using hdigits
  | paired h _ hlow _ =>
    have hdigits := visible_of_hex4? h
    have hmore := visible_of_hex4? hlow
    simp_all

theorem visible_of_spellsChars {cs s : List Char} (h : SpellsChars cs s) : Visible s := by
  induction h with
  | nil => simp
  | cons h _ ih => simp [visible_of_spellsChar h, ih]

theorem visible_of_spellsText {t : String} {s : List Char} (h : SpellsText t s) : Visible s := by
  obtain ⟨hbody⟩ := h
  simp [visible_of_spellsChars hbody]

/-- No control characters but blanks. -/
def Clean (s : List Char) : Prop := ∀ c ∈ s, isBlank c = true ∨ 0x20 ≤ c.toNat

@[simp] theorem clean_cons {c : Char} {s : List Char} :
    Clean (c :: s) ↔ (isBlank c = true ∨ 0x20 ≤ c.toNat) ∧ Clean s :=
  List.forall_mem_cons

@[simp] theorem clean_append {s t : List Char} : Clean (s ++ t) ↔ Clean s ∧ Clean t :=
  List.forall_mem_append

theorem clean_of_blank {s : List Char} (h : Blank s) : Clean s := fun c hc => .inl (h c hc)

theorem clean_of_visible {s : List Char} (h : Visible s) : Clean s := fun c hc => .inr (h c hc)

theorem clean_of_spells {part : Part} {s : List Char} (h : Spells dialect depth part s) :
    Clean s := by
  have hnil : Clean [] := clean_of_visible visible_nil
  induction h with
  | null => exact clean_of_visible (by simp)
  | true => exact clean_of_visible (by simp)
  | false => exact clean_of_visible (by simp)
  | number h _ => exact clean_of_visible (visible_of_spellsNumeral h)
  | text h => exact clean_of_visible (visible_of_spellsText h)
  | nil hb => simp [clean_of_blank hb, hnil]
  | list h ih => simp [ih, hnil]
  | empty hb => simp [clean_of_blank hb, hnil]
  | mapping h ih => simp [ih, hnil]
  | padded hb h ha ih => simp [clean_of_blank hb, ih, clean_of_blank ha]
  | item h ih => exact ih
  | items h ht ih iht => simp [ih, iht]
  | member hb hk ha h ih =>
    simp [clean_of_blank hb, clean_of_visible (visible_of_spellsText hk), clean_of_blank ha, ih]
  | single h ih => exact ih
  | members h ht ih iht => simp [ih, iht]

theorem not_isStray {s : List Char} (h : Clean s) : ∀ c ∈ s, isStray c = false := by
  intro c hc
  rcases h c hc with hblank | hvisible
  · rcases isBlank_iff.1 hblank with rfl | rfl | rfl | rfl <;> rfl
  · simp [isStray]
    omega

/-! ### Line ends -/

theorem unifyLineEnds_cons {c : Char} (hc : c ≠ '\r') (s : List Char) :
    unifyLineEnds (c :: s) = c :: unifyLineEnds s :=
  unifyLineEnds.eq_4 _ _ (fun _ h => absurd h hc) hc

theorem unifyLineEnds_of_visible {s : List Char} (h : Visible s) (rest : List Char) :
    unifyLineEnds (s ++ rest) = s ++ unifyLineEnds rest := by
  induction s with
  | nil => rfl
  | cons c s ih =>
    rw [visible_cons] at h
    have hc : c ≠ '\r' := by
      rintro rfl
      exact absurd h.1 (by decide)
    rw [List.cons_append, unifyLineEnds_cons hc, ih h.2, List.cons_append]

/-- A line end does not reach over another character than a line feed. -/
theorem unifyLineEnds_append {c : Char} (hc : c ≠ '\n') (s rest : List Char) :
    unifyLineEnds (s ++ c :: rest) = unifyLineEnds s ++ unifyLineEnds (c :: rest) := by
  fun_induction unifyLineEnds s with
  | case1 => rfl
  | case2 s ih => simp [unifyLineEnds, ih]
  | case3 s hs ih =>
    rw [List.cons_append, unifyLineEnds.eq_3 _ ?_, ih]
    · rfl
    · cases s with
      | nil => simp [hc]
      | cons d s => simpa using hs
  | case4 d s hd hd' ih => rw [List.cons_append, unifyLineEnds_cons hd', ih, List.cons_append]

theorem blank_unifyLineEnds {s : List Char} (h : Blank s) : Blank (unifyLineEnds s) := by
  fun_induction unifyLineEnds s with
  | case1 => exact h
  | case2 s ih =>
    rw [Blank, List.forall_mem_cons, List.forall_mem_cons] at h
    exact List.forall_mem_cons.2 ⟨rfl, ih h.2.2⟩
  | case3 s hs ih => exact List.forall_mem_cons.2 ⟨rfl, ih (List.forall_mem_cons.1 h).2⟩
  | case4 d s hd hd' ih =>
    rw [Blank, List.forall_mem_cons] at h
    exact List.forall_mem_cons.2 ⟨h.1, ih h.2⟩

/-- A bracket ends a line end before it. -/
theorem unifyLineEnds_bracketed {opening closing : Char} (ho : opening ≠ '\r')
    (hc : closing ≠ '\n' ∧ closing ≠ '\r') (s rest : List Char) :
    unifyLineEnds (opening :: (s ++ [closing]) ++ rest) =
      opening :: (unifyLineEnds s ++ [closing]) ++ unifyLineEnds rest := by
  rw [List.cons_append, unifyLineEnds_cons ho, List.append_assoc, List.singleton_append,
    unifyLineEnds_append hc.1, unifyLineEnds_cons hc.2]
  simp

theorem unifyLineEnds_visible {s : List Char} (h : Visible s) : unifyLineEnds s = s := by
  have hself := unifyLineEnds_of_visible h []
  rwa [List.append_nil, unifyLineEnds, List.append_nil] at hself

theorem unifyLineEnds_enclosed {opening closing : Char} (ho : opening ≠ '\r')
    (hc : closing ≠ '\n' ∧ closing ≠ '\r') (s : List Char) :
    unifyLineEnds (opening :: (s ++ [closing])) = opening :: (unifyLineEnds s ++ [closing]) := by
  have hself := unifyLineEnds_bracketed ho hc s []
  rwa [List.append_nil, unifyLineEnds, List.append_nil] at hself

/-- The line ends after a value are none of its own. -/
theorem unifyLineEnds_value {v : Value} {s : List Char} (h : Spells dialect depth (.value v) s)
    (rest : List Char) : unifyLineEnds (s ++ rest) = unifyLineEnds s ++ unifyLineEnds rest := by
  have hvisible : Visible s →
      unifyLineEnds (s ++ rest) = unifyLineEnds s ++ unifyLineEnds rest := by
    intro hs
    rw [unifyLineEnds_of_visible hs, unifyLineEnds_visible hs]
  have hbracketed : ∀ {opening closing : Char} {t : List Char}, s = opening :: (t ++ [closing]) →
      opening ≠ '\r' → closing ≠ '\n' ∧ closing ≠ '\r' →
        unifyLineEnds (s ++ rest) = unifyLineEnds s ++ unifyLineEnds rest := by
    rintro opening closing t rfl ho hc
    rw [unifyLineEnds_bracketed ho hc, unifyLineEnds_enclosed ho hc]
  cases h with
  | null => exact hvisible (by simp)
  | true => exact hvisible (by simp)
  | false => exact hvisible (by simp)
  | number h _ => exact hvisible (visible_of_spellsNumeral h)
  | text h => exact hvisible (visible_of_spellsText h)
  | nil _ => exact hbracketed rfl (by decide) (by decide)
  | list _ => exact hbracketed rfl (by decide) (by decide)
  | empty _ => exact hbracketed rfl (by decide) (by decide)
  | mapping _ => exact hbracketed rfl (by decide) (by decide)

/-- With other line ends a document says the same. -/
theorem spells_unifyLineEnds {part : Part} {s : List Char} (h : Spells dialect depth part s) :
    Spells dialect depth part (unifyLineEnds s) := by
  induction h with
  | null => exact .null
  | true => exact .true
  | false => exact .false
  | number h hx =>
    rw [unifyLineEnds_visible (visible_of_spellsNumeral h)]
    exact .number h hx
  | text h =>
    rw [unifyLineEnds_visible (visible_of_spellsText h)]
    exact .text h
  | nil hb =>
    rw [unifyLineEnds_enclosed (by decide) (by decide)]
    exact .nil (blank_unifyLineEnds hb)
  | list h ih =>
    rw [unifyLineEnds_enclosed (by decide) (by decide)]
    exact .list ih
  | empty hb =>
    rw [unifyLineEnds_enclosed (by decide) (by decide)]
    exact .empty (blank_unifyLineEnds hb)
  | mapping h ih =>
    rw [unifyLineEnds_enclosed (by decide) (by decide)]
    exact .mapping ih
  | @padded _ _ s before after hb h ha ih =>
    -- A value does not start with a line feed, so no line end reaches from the blanks into it.
    have hsplit : unifyLineEnds (before ++ s ++ after) =
        unifyLineEnds before ++ unifyLineEnds s ++ unifyLineEnds after := by
      obtain ⟨c, t, rfl, hc, -⟩ := head_of_spellsValue h
      have hne : c ≠ '\n' := by
        rintro rfl
        cases hc
      rw [List.append_assoc, List.cons_append, unifyLineEnds_append hne, ← List.cons_append,
        unifyLineEnds_value h, List.append_assoc]
    rw [hsplit]
    exact .padded (blank_unifyLineEnds hb) ih (blank_unifyLineEnds ha)
  | item h ih => exact .item ih
  | items h ht ih iht =>
    rw [unifyLineEnds_append (by decide), unifyLineEnds_cons (by decide)]
    exact .items ih iht
  | @member _ key k v s before after hb hk ha h ih =>
    have hsplit : unifyLineEnds (before ++ k ++ after ++ ':' :: s) =
        unifyLineEnds before ++ k ++ unifyLineEnds after ++ ':' :: unifyLineEnds s := by
      rw [unifyLineEnds_append (by decide), unifyLineEnds_cons (by decide)]
      obtain ⟨body, rfl, -⟩ := text?_complete hk []
      rw [List.append_assoc, List.cons_append, unifyLineEnds_append (by decide),
        ← List.cons_append, unifyLineEnds_of_visible (visible_of_spellsText hk)]
      simp only [List.append_assoc]
    rw [hsplit]
    exact .member (blank_unifyLineEnds hb) hk (blank_unifyLineEnds ha) ih
  | single h ih => exact .single ih
  | members h ht ih iht =>
    rw [unifyLineEnds_append (by decide), unifyLineEnds_cons (by decide)]
    exact .members ih iht

/-! ### Trailing commas -/

section TrailingCommas

variable {s t rest : List Char}

/-- A comma of the text comes before a closing bracket when something follows the text. -/
def Dangles (s rest : List Char) : Prop :=
  ∃ before after, s = before ++ ',' :: after ∧ closesNext (after ++ rest) = true

theorem not_dangles_nil : ¬ Dangles [] rest := by
  rintro ⟨before, after, h, -⟩
  cases before <;> cases h

theorem dangles_cons {c : Char} :
    Dangles (c :: s) rest ↔ (c = ',' ∧ closesNext (s ++ rest) = true) ∨ Dangles s rest := by
  constructor
  · rintro ⟨before, after, h, hafter⟩
    cases before with
    | nil =>
      cases h
      exact .inl ⟨rfl, hafter⟩
    | cons d before =>
      cases h
      exact .inr ⟨before, after, rfl, hafter⟩
  · rintro (⟨rfl, hs⟩ | ⟨before, after, rfl, hafter⟩)
    · exact ⟨[], s, rfl, hs⟩
    · exact ⟨c :: before, after, rfl, hafter⟩

theorem dangles_append : Dangles (s ++ t) rest ↔ Dangles s (t ++ rest) ∨ Dangles t rest := by
  induction s with
  | nil => simp [not_dangles_nil]
  | cons c s ih =>
    rw [List.cons_append, dangles_cons, dangles_cons, ih, List.append_assoc, or_assoc]

/-- Only the commas that come before a closing bracket are dropped. -/
theorem dropTrailingCommas_append (h : ¬ Dangles s rest) :
    dropTrailingCommas (s ++ rest) = s ++ dropTrailingCommas rest := by
  induction s with
  | nil => rfl
  | cons c s ih =>
    rw [dangles_cons, not_or] at h
    rw [List.cons_append, dropTrailingCommas, if_neg (by simpa using h.1), ih h.2, List.cons_append]

/-- A comma stands before a closing bracket, with no more than blanks between the two. -/
def HasTrailingComma (s : List Char) : Prop :=
  ∃ before rest, s = before ++ ',' :: rest ∧ closesNext rest = true

theorem hasTrailingComma_iff : HasTrailingComma s ↔ Dangles s [] := by
  simp only [HasTrailingComma, Dangles, List.append_nil]

theorem not_hasTrailingComma_nil : ¬ HasTrailingComma [] := by
  rw [hasTrailingComma_iff]
  exact not_dangles_nil

theorem hasTrailingComma_cons {c : Char} :
    HasTrailingComma (c :: s) ↔ (c = ',' ∧ closesNext s = true) ∨ HasTrailingComma s := by
  rw [hasTrailingComma_iff, hasTrailingComma_iff, dangles_cons, List.append_nil]

instance decidableHasTrailingComma : ∀ s, Decidable (HasTrailingComma s)
  | [] => isFalse not_hasTrailingComma_nil
  | _ :: s =>
    have := decidableHasTrailingComma s
    decidable_of_iff _ hasTrailingComma_cons.symm

theorem dropTrailingCommas_eq (h : ¬ HasTrailingComma s) : dropTrailingCommas s = s := by
  rw [hasTrailingComma_iff] at h
  have hself := dropTrailingCommas_append h
  rwa [List.append_nil, dropTrailingCommas, List.append_nil] at hself

theorem closesNext_cons (c : Char) (s : List Char) :
    closesNext (c :: s) = if Text.isBlank c then closesNext s else c == ']' || c == '\x7d' := by
  unfold closesNext
  by_cases hc : Text.isBlank c = true
  · rw [List.dropWhile_cons_of_pos hc, if_pos hc]
  · rw [List.dropWhile_cons_of_neg hc, if_neg hc]

theorem closesNext_append (h : closesNext s = true) (rest : List Char) :
    closesNext (s ++ rest) = true := by
  induction s with
  | nil => cases h
  | cons c s ih =>
    rw [List.cons_append, closesNext_cons]
    rw [closesNext_cons] at h
    split
    · next hc =>
      rw [if_pos hc] at h
      exact ih h
    · next hc =>
      rw [if_neg hc] at h
      exact h

theorem HasTrailingComma.append (h : HasTrailingComma s) (before after : List Char) :
    HasTrailingComma (before ++ s ++ after) := by
  obtain ⟨start, rest, rfl, hrest⟩ := h
  exact ⟨before ++ start, rest ++ after, by simp, closesNext_append hrest after⟩

theorem closesNext_unifyLineEnds (s rest : List Char) :
    closesNext (unifyLineEnds s ++ rest) = closesNext (s ++ rest) := by
  have hfeed : Text.isBlank '\n' = true := by decide
  have hreturn : Text.isBlank '\r' = true := by decide
  fun_induction unifyLineEnds s with
  | case1 => rfl
  | case2 s ih => simp only [List.cons_append, closesNext_cons, hfeed, hreturn, if_true, ih]
  | case3 s hs ih => simp only [List.cons_append, closesNext_cons, hfeed, hreturn, if_true, ih]
  | case4 d s hd hd' ih => rw [List.cons_append, List.cons_append, closesNext_cons,
      closesNext_cons, ih]

theorem dangles_of_unifyLineEnds (h : Dangles (unifyLineEnds s) rest) : Dangles s rest := by
  fun_induction unifyLineEnds s with
  | case1 => exact h
  | case2 s ih =>
    rw [dangles_cons] at h
    rw [dangles_cons, dangles_cons]
    exact .inr (.inr (ih (h.resolve_left (by simp))))
  | case3 s hs ih =>
    rw [dangles_cons] at h ⊢
    exact .inr (ih (h.resolve_left (by simp)))
  | case4 d s hd hd' ih =>
    rw [dangles_cons, closesNext_unifyLineEnds] at h
    rw [dangles_cons]
    exact h.imp_right ih

theorem hasTrailingComma_of_unifyLineEnds (h : HasTrailingComma (unifyLineEnds s)) :
    HasTrailingComma s :=
  hasTrailingComma_iff.2 (dangles_of_unifyLineEnds (hasTrailingComma_iff.1 h))

end TrailingCommas

/-! ### Reading -/

theorem isBlank_text {c : Char} (h : isBlank c = true) : Text.isBlank c = true := by
  rcases isBlank_iff.1 h with rfl | rfl | rfl | rfl <;> decide

theorem not_isBlank_of_isDigit {c : Char} (h : isDigit c = true) : Text.isBlank c = false := by
  simp only [isDigit, Bool.and_eq_true, decide_eq_true_eq, Char.le_def, UInt32.le_iff_toNat_le] at h
  have hlow : 48 ≤ c.toNat := h.1
  have hhigh : c.toNat ≤ 57 := h.2
  simp [Text.isBlank]
  omega

/-- The last character is a digit. -/
def EndsInDigit (s : List Char) : Prop := ∃ t c, s = t ++ [c] ∧ isDigit c = true

theorem EndsInDigit.append {s : List Char} (h : EndsInDigit s) (before : List Char) :
    EndsInDigit (before ++ s) := by
  obtain ⟨t, c, rfl, hc⟩ := h
  exact ⟨before ++ t, c, by simp, hc⟩

theorem endsInDigit_of_digits {s : List Char} (h : Digits s) : EndsInDigit s := by
  obtain ⟨t, c, rfl⟩ := List.eq_nil_or_concat s |>.resolve_left h.1
  exact ⟨t, c, by simp, h.2 c (by simp)⟩

theorem endsInDigit_of_spellsNumeral {n : Numeral} {s : List Char} (h : SpellsNumeral n s) :
    EndsInDigit s := by
  obtain ⟨hwhole, -, hf, he⟩ := h
  cases he with
  | none =>
    rw [List.append_nil]
    cases hf with
    | none =>
      rw [List.append_nil]
      exact (endsInDigit_of_digits hwhole).append _
    | some h =>
      rw [List.append_cons]
      exact (endsInDigit_of_digits h).append _
  | some hmark hsign h =>
    rw [List.append_cons, ← List.append_assoc]
    exact (endsInDigit_of_digits h).append _

/-- A value starts and ends with characters that are not blank in any script, and does not start
like a code fence. -/
theorem ends_of_spellsValue {v : Value} {s : List Char} (h : Spells dialect depth (.value v) s) :
    (∃ c t, s = c :: t ∧ Text.isBlank c = false ∧ c ≠ '\x60') ∧
      ∃ t c, s = t ++ [c] ∧ Text.isBlank c = false := by
  cases h with
  | null => exact ⟨⟨_, _, rfl, by decide⟩, ['n', 'u', 'l'], 'l', rfl, by decide⟩
  | true => exact ⟨⟨_, _, rfl, by decide⟩, ['t', 'r', 'u'], 'e', rfl, by decide⟩
  | false => exact ⟨⟨_, _, rfl, by decide⟩, ['f', 'a', 'l', 's'], 'e', rfl, by decide⟩
  | number h _ =>
    constructor
    · obtain ⟨c, t, rfl, hc | rfl⟩ := head_of_spellsNumeral h
      · refine ⟨c, t, rfl, not_isBlank_of_isDigit hc, ?_⟩
        rintro rfl
        cases hc
      · exact ⟨_, _, rfl, by decide⟩
    · obtain ⟨t, c, rfl, hc⟩ := endsInDigit_of_spellsNumeral h
      exact ⟨t, c, rfl, not_isBlank_of_isDigit hc⟩
  | text h =>
    obtain ⟨-⟩ := h
    exact ⟨⟨_, _, rfl, by decide⟩, _, _, (List.cons_append ..).symm, by decide⟩
  | _ => exact ⟨⟨_, _, rfl, by decide⟩, _, _, (List.cons_append ..).symm, by decide⟩

/-- A document is read as it stands, if no comma in it comes before a closing bracket. -/
theorem load_of_read? {s : List Char} {v : Value} (h : read? stored s = some v)
    (hcomma : ¬ HasTrailingComma s) : load s = .ok v := by
  obtain ⟨before, t, after, rfl, hb, ht, ha⟩ : ∃ before t after, s = before ++ t ++ after ∧
      Blank before ∧ Spells stored stored.maxDepth (.value v) t ∧ Blank after := by
    cases read?_iff.1 h with
    | padded hb ht ha => exact ⟨_, _, _, rfl, hb, ht, ha⟩
  obtain ⟨⟨c, u, hcu, hblank, hfence⟩, hlast⟩ := ends_of_spellsValue ht
  have htrim : Text.trim (before ++ t ++ after) = t :=
    Text.trim_padded (fun c hc => isBlank_text (hb c hc)) ⟨c, u, hcu, hblank⟩ hlast
      (fun c hc => isBlank_text (ha c hc))
  have hunfence : unfence (before ++ t ++ after) = t := by
    rw [unfence, htrim, hcu]
    simp [fence, List.isPrefixOf, Ne.symm hfence]
  have hunified := spells_unifyLineEnds ht
  have hsanitize : sanitize t = unifyLineEnds t := by
    have hstray : (unifyLineEnds t).filter (fun c => !isStray c) = unifyLineEnds t := by
      rw [List.filter_eq_self]
      intro c hc
      simp [not_isStray (clean_of_spells hunified) c hc]
    rw [sanitize, hstray]
    refine dropTrailingCommas_eq fun hcommas => hcomma ?_
    exact (hasTrailingComma_of_unifyLineEnds hcommas).append before after
  have hread : read? stored (unifyLineEnds t) = some v := by
    refine read?_iff.2 ?_
    have hpadded := Spells.padded (fun _ h => absurd h List.not_mem_nil) hunified
      (fun _ h => absurd h List.not_mem_nil)
    simpa using hpadded
  have hempty : t.isEmpty = false := by
    rw [hcu]
    rfl
  simp only [load, htrim, hempty, hunfence, hsanitize, hread]
  rfl

/-- The line ends of a document do not matter. -/
theorem load_of_read?_lines :
    load ['[', '1', ',', '\r', '\n', '\x22', ',', '\x22', ']'] = .ok (.list [.int 1, .text ","]) :=
  load_of_read? rfl (by decide)

/-- A comma before a closing bracket is dropped in a text too. -/
theorem load_drops_comma_of_text :
    read? stored ['[', '\x22', 'a', ',', ']', '\x22', ']'] = some (.list [.text "a,]"]) ∧
      load ['[', '\x22', 'a', ',', ']', '\x22', ']'] = .ok (.list [.text "a]"]) :=
  ⟨rfl, rfl⟩

end StoryWorld.Json
