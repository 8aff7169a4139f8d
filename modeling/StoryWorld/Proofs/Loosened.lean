import StoryWorld.Proofs.Tolerance

/-!
Documents with commas too many.

Writers of prose like to leave a comma after the last item of a list or the last member of an
object. Such commas are taken out before a document is read, by looking at its characters only. They
are the only commas that go, unless a text holds one that looks the same: elsewhere in a document
something other than a closing bracket follows every comma. So of a document with commas too many
its spelling without them is left.
-/

namespace StoryWorld.Json

variable {dialect : Dialect} {depth : Nat} {s t rest : List Char}

/-! ### The texts of a document -/

/-- What stands between the quotes of the texts, given the reversed start of a text that is still
open. A character after a backslash closes no text. -/
def literalsFrom : Option (List Char) → List Char → List (List Char)
  | _, [] => []
  | none, c :: rest => literalsFrom (if c = '\x22' then some [] else none) rest
  | some body, '\\' :: c :: rest => literalsFrom (some (c :: '\\' :: body)) rest
  | some body, c :: rest =>
    if c = '\x22' then body.reverse :: literalsFrom none rest
    else literalsFrom (some (c :: body)) rest

/-- What stands between the quotes of the texts of a document. -/
def literals (s : List Char) : List (List Char) := literalsFrom none s

/-- A text that is opened is closed again. -/
def Closed (s : List Char) : Prop := ∀ rest, literals (s ++ rest) = literals s ++ literals rest

@[simp] theorem literals_nil : literals [] = [] := rfl

theorem literals_cons {c : Char} (hc : c ≠ '\x22') : literals (c :: rest) = literals rest := by
  rw [literals, literalsFrom, if_neg hc, ← literals]

theorem literals_of_unquoted (h : '\x22' ∉ s) (rest : List Char) :
    literals (s ++ rest) = literals rest := by
  induction s with
  | nil => rfl
  | cons c s ih =>
    rw [List.mem_cons, not_or] at h
    rw [List.cons_append, literals_cons (Ne.symm h.1), ih h.2]

theorem closed_of_unquoted (h : '\x22' ∉ s) : Closed s := by
  intro rest
  have hself : literals s = [] := by simpa using literals_of_unquoted h []
  rw [literals_of_unquoted h, hself, List.nil_append]

theorem Closed.append (hs : Closed s) (ht : Closed t) : Closed (s ++ t) := by
  intro rest
  rw [List.append_assoc, hs, ht, hs, List.append_assoc]

theorem literalsFrom_plain {c : Char} (hq : c ≠ '\x22') (hb : c ≠ '\\')
    (body rest : List Char) :
    literalsFrom (some body) (c :: rest) = literalsFrom (some (c :: body)) rest := by
  rw [literalsFrom.eq_4 _ _ _ (by simp [hb]), if_neg hq]

theorem literalsFrom_hex4 {a b c d : Char} {n : Nat} (h : hex4? a b c d = some n)
    (body rest : List Char) :
    literalsFrom (some body) (a :: b :: c :: d :: rest) =
      literalsFrom (some (d :: c :: b :: a :: body)) rest := by
  have hplain : ∀ {x : Char} {n : Nat}, hexDigit? x = some n → x ≠ '\x22' ∧ x ≠ '\\' := by
    intro x n hx
    constructor
    · rintro rfl
      cases hx
    · rintro rfl
      cases hx
  obtain ⟨_, ha, h⟩ := Option.bind_eq_some_iff.1 h
  obtain ⟨_, hb, h⟩ := Option.bind_eq_some_iff.1 h
  obtain ⟨_, hc, h⟩ := Option.bind_eq_some_iff.1 h
  obtain ⟨_, hd, -⟩ := Option.bind_eq_some_iff.1 h
  rw [literalsFrom_plain (hplain ha).1 (hplain ha).2,
    literalsFrom_plain (hplain hb).1 (hplain hb).2, literalsFrom_plain (hplain hc).1 (hplain hc).2,
    literalsFrom_plain (hplain hd).1 (hplain hd).2]

theorem literalsFrom_char {c : Char} (h : SpellsChar c s) (body rest : List Char) :
    literalsFrom (some body) (s ++ rest) = literalsFrom (some (s.reverse ++ body)) rest := by
  cases h with
  | plain hq hb _ => exact literalsFrom_plain hq hb body rest
  | escape _ => rfl
  | numbered h _ => exact literalsFrom_hex4 h _ rest
  | paired h _ hlow _ =>
    exact (literalsFrom_hex4 h _ _).trans (literalsFrom_hex4 hlow _ rest)

theorem literalsFrom_chars {cs : List Char} (h : SpellsChars cs s) (body rest : List Char) :
    literalsFrom (some body) (s ++ '\x22' :: rest) = (body.reverse ++ s) :: literals rest := by
  induction h generalizing body with
  | nil => rw [List.append_nil]; rfl
  | cons h ht ih =>
    rw [List.append_assoc, literalsFrom_char h, ih]
    simp

/-- A text that is spelled is the one that is found. -/
theorem literals_text {cs : List Char} (h : SpellsChars cs s) (rest : List Char) :
    literals ('\x22' :: (s ++ ['\x22']) ++ rest) = s :: literals rest := by
  rw [List.cons_append, List.append_assoc, List.singleton_append]
  exact literalsFrom_chars h [] rest

theorem literals_text_self {cs : List Char} (h : SpellsChars cs s) :
    literals ('\x22' :: (s ++ ['\x22'])) = [s] := by
  simpa using literals_text h []

theorem closed_text {k : String} (h : SpellsText k s) : Closed s := by
  obtain ⟨hbody⟩ := h
  intro rest
  rw [literals_text hbody, literals_text_self hbody, List.singleton_append]

/-- The characters of a numeral. -/
def isNumeric (c : Char) : Bool := continuesNumeral c || c == '-' || c == '+'

theorem numeric_of_digits (h : Digits s) : ∀ c ∈ s, isNumeric c = true := by
  intro c hc
  simp [isNumeric, continuesNumeral, continuesWhole, h.2 c hc]

theorem numeric_of_spellsNumeral {n : Numeral} (h : SpellsNumeral n s) :
    ∀ c ∈ s, isNumeric c = true := by
  obtain ⟨hwhole, -, hf, he⟩ := h
  rename_i negative _ _ _ f e
  have hfraction : ∀ c ∈ f, isNumeric c = true := by
    cases hf with
    | none => exact fun c hc => absurd hc List.not_mem_nil
    | some h => exact List.forall_mem_cons.2 ⟨rfl, numeric_of_digits h⟩
  have hexponent : ∀ c ∈ e, isNumeric c = true := by
    cases he with
    | none => exact fun c hc => absurd hc List.not_mem_nil
    | some hmark hsign h =>
      refine List.forall_mem_cons.2 ⟨by rcases hmark with rfl | rfl <;> rfl, ?_⟩
      refine List.forall_mem_append.2 ⟨?_, numeric_of_digits h⟩
      cases hsign <;> simp [isNumeric]
  have hsign : ∀ c ∈ (if negative then ['-'] else []), isNumeric c = true := by
    cases negative <;> simp [isNumeric]
  simp only [List.forall_mem_append]
  exact ⟨⟨⟨hsign, numeric_of_digits hwhole⟩, hfraction⟩, hexponent⟩

theorem closed_of_blank (h : Blank s) : Closed s :=
  closed_of_unquoted fun hq => absurd (h _ hq) (by decide)

theorem closed_of_spells {part : Part} (h : Spells dialect depth part s) : Closed s := by
  have hone : ∀ c : Char, c ≠ '\x22' → Closed [c] := fun c hc =>
    closed_of_unquoted (by simpa using Ne.symm hc)
  have henclosed : ∀ {c d : Char} {u : List Char}, Closed u → c ≠ '\x22' → d ≠ '\x22' →
      Closed (c :: (u ++ [d])) :=
    fun hu hc hd => (hone _ hc).append (hu.append (hone _ hd))
  induction h with
  | null => exact closed_of_unquoted (by decide)
  | true => exact closed_of_unquoted (by decide)
  | false => exact closed_of_unquoted (by decide)
  | number h _ =>
    exact closed_of_unquoted fun hq => absurd (numeric_of_spellsNumeral h _ hq) (by decide)
  | text h => exact closed_text h
  | nil hb => exact henclosed (closed_of_blank hb) (by decide) (by decide)
  | list _ ih => exact henclosed ih (by decide) (by decide)
  | empty hb => exact henclosed (closed_of_blank hb) (by decide) (by decide)
  | mapping _ ih => exact henclosed ih (by decide) (by decide)
  | padded hb _ ha ih => exact ((closed_of_blank hb).append ih).append (closed_of_blank ha)
  | item _ ih => exact ih
  | items _ _ ih iht => exact ih.append ((hone _ (by decide)).append iht)
  | member hb hk ha _ ih =>
    exact (((closed_of_blank hb).append (closed_text hk)).append (closed_of_blank ha)).append
      ((hone _ (by decide)).append ih)
  | single _ ih => exact ih
  | members _ _ ih iht => exact ih.append ((hone _ (by decide)).append iht)

/-! ### How parts of a document begin -/

/-- No blank, no closing bracket and no control character, like the first character of a value or a
key. -/
def starts (c : Char) : Bool :=
  !Text.isBlank c && !(c == ']' || c == '\x7d') && 0x20 ≤ c.toNat

theorem visible_of_starts {c : Char} (hc : starts c = true) : 0x20 ≤ c.toNat := by
  simp only [starts, Bool.and_eq_true, decide_eq_true_eq] at hc
  exact hc.2

theorem ne_feed_of_starts {c : Char} (hc : starts c = true) : c ≠ '\n' := by
  rintro rfl
  cases hc

/-- The first character that is not blank starts a value or a key. -/
def Opens (s : List Char) : Prop :=
  ∃ b c rest, s = b ++ c :: rest ∧ Blank b ∧ starts c = true

theorem opens_of_starts {c : Char} (hc : starts c = true) (rest : List Char) : Opens (c :: rest) :=
  ⟨[], c, rest, rfl, blank_nil, hc⟩

theorem Opens.append (h : Opens s) (rest : List Char) : Opens (s ++ rest) := by
  obtain ⟨b, c, tail, rfl, hb, hc⟩ := h
  exact ⟨b, c, tail ++ rest, by simp, hb, hc⟩

theorem Opens.blank {b : List Char} (hb : Blank b) (h : Opens s) : Opens (b ++ s) := by
  obtain ⟨b', c, tail, rfl, hb', hc⟩ := h
  exact ⟨b ++ b', c, tail, by simp, List.forall_mem_append.2 ⟨hb, hb'⟩, hc⟩

theorem closesNext_blank {b : List Char} (hb : Blank b) (rest : List Char) :
    closesNext (b ++ rest) = closesNext rest := by
  induction b with
  | nil => rfl
  | cons c b ih =>
    rw [Blank, List.forall_mem_cons] at hb
    rw [List.cons_append, closesNext_cons, if_pos (isBlank_text hb.1), ih hb.2]

theorem closesNext_of_starts {c : Char} (hc : starts c = true) (rest : List Char) :
    closesNext (c :: rest) = false := by
  simp only [starts, Bool.and_eq_true, Bool.not_eq_true'] at hc
  rw [closesNext_cons, if_neg (by simp [hc.1.1]), hc.1.2]

theorem Opens.closesNext (h : Opens s) : closesNext s = false := by
  obtain ⟨b, c, tail, rfl, hb, hc⟩ := h
  rw [closesNext_blank hb, closesNext_of_starts hc]

theorem starts_of_spellsValue {v : Value} (h : Spells dialect depth (.value v) s) :
    ∃ c rest, s = c :: rest ∧ starts c = true := by
  cases h with
  | number h _ =>
    obtain ⟨c, rest, rfl, hc | rfl⟩ := head_of_spellsNumeral h
    · refine ⟨c, rest, rfl, ?_⟩
      have hbracket : c ≠ ']' ∧ c ≠ '\x7d' := by
        constructor <;> rintro rfl <;> cases hc
      simp [starts, not_isBlank_of_isDigit hc, hbracket, visible_of_isDigit hc]
    · exact ⟨_, _, rfl, by decide⟩
  | text h =>
    obtain ⟨-⟩ := h
    exact ⟨_, _, rfl, by decide⟩
  | _ => exact ⟨_, _, rfl, by decide⟩

/-! ### Commas too many -/

/-- What stands before a closing bracket: blanks, and the same with a comma and more blanks put in
before them. -/
inductive Trailer : List Char → List Char → Prop
  | same {a} (ha : Blank a) : Trailer a a
  | comma {b m a} (hb : Blank b) (hm : Blank m) (ha : Blank a) : Trailer a (b ++ ',' :: (m ++ a))

/-- A part of a document, and the same with a comma and blanks put in before the closing brackets
of any of its containers that are not empty. -/
inductive Loosened (dialect : Dialect) : Nat → Part → List Char → List Char → Prop
  | value {depth v s} (h : Spells dialect depth (.value v) s) :
    Loosened dialect depth (.value v) s s
  | list {depth vs s t a x} (h : Loosened dialect depth (.items vs) s t) (hx : Trailer a x) :
    Loosened dialect (depth + 1) (.value (.list vs)) ('[' :: (s ++ a ++ [']']))
      ('[' :: (t ++ x ++ [']']))
  | mapping {depth ms s t a x} (h : Loosened dialect depth (.members ms) s t) (hx : Trailer a x) :
    Loosened dialect (depth + 1) (.value (.mapping (Table.ofPairs ms)))
      ('\x7b' :: (s ++ a ++ ['\x7d'])) ('\x7b' :: (t ++ x ++ ['\x7d']))
  | padded {depth v s t before after} (hb : Blank before)
    (h : Loosened dialect depth (.value v) s t) (ha : Blank after) :
    Loosened dialect depth (.padded v) (before ++ s ++ after) (before ++ t ++ after)
  | item {depth v s t} (h : Loosened dialect depth (.padded v) s t) :
    Loosened dialect depth (.items [v]) s t
  | items {depth v vs s t s' t'} (h : Loosened dialect depth (.padded v) s t)
    (hmore : Loosened dialect depth (.items vs) s' t') :
    Loosened dialect depth (.items (v :: vs)) (s ++ ',' :: s') (t ++ ',' :: t')
  | member {depth key k v s t before after} (hb : Blank before) (hk : SpellsText key k)
    (ha : Blank after) (h : Loosened dialect depth (.padded v) s t) :
    Loosened dialect depth (.member (key, v)) (before ++ k ++ after ++ ':' :: s)
      (before ++ k ++ after ++ ':' :: t)
  | single {depth m s t} (h : Loosened dialect depth (.member m) s t) :
    Loosened dialect depth (.members [m]) s t
  | members {depth m ms s t s' t'} (h : Loosened dialect depth (.member m) s t)
    (hmore : Loosened dialect depth (.members ms) s' t') :
    Loosened dialect depth (.members (m :: ms)) (s ++ ',' :: s') (t ++ ',' :: t')

/-- No comma has to be put in. -/
theorem loosened_self {part : Part} (h : Spells dialect depth part s) :
    Loosened dialect depth part s s := by
  induction h with
  | padded hb _ ha ih => exact .padded hb ih ha
  | item _ ih => exact .item ih
  | items _ _ ih iht => exact .items ih iht
  | member hb hk ha _ ih => exact .member hb hk ha ih
  | single _ ih => exact .single ih
  | members _ _ ih iht => exact .members ih iht
  | null => exact .value .null
  | true => exact .value .true
  | false => exact .value .false
  | number h hx => exact .value (.number h hx)
  | text h => exact .value (.text h)
  | nil hb => exact .value (.nil hb)
  | list h _ => exact .value (.list h)
  | empty hb => exact .value (.empty hb)
  | mapping h _ => exact .value (.mapping h)

theorem Trailer.blank {a x : List Char} (h : Trailer a x) : Blank a := by
  cases h with
  | same ha => exact ha
  | comma _ _ ha => exact ha

/-- Without what was put in a document says the same. -/
theorem spells_of_loosened {part : Part} (h : Loosened dialect depth part s t) :
    Spells dialect depth part s := by
  induction h with
  | value h => exact h
  | list _ hx ih => exact .list (ih.items_blank hx.blank)
  | mapping _ hx ih => exact .mapping (ih.members_blank hx.blank)
  | padded hb _ ha ih => exact .padded hb ih ha
  | item _ ih => exact .item ih
  | items _ _ ih iht => exact .items ih iht
  | member hb hk ha _ ih => exact .member hb hk ha ih
  | single _ ih => exact .single ih
  | members _ _ ih iht => exact .members ih iht

theorem starts_of_loosened {v : Value} (h : Loosened dialect depth (.value v) s t) :
    ∃ c rest, t = c :: rest ∧ starts c = true := by
  cases h with
  | value h => exact starts_of_spellsValue h
  | list _ _ => exact ⟨_, _, rfl, by decide⟩
  | mapping _ _ => exact ⟨_, _, rfl, by decide⟩

/-- What stands behind the comma between two items or members. -/
theorem opens_of_loosened {part : Part} (h : Loosened dialect depth part s t) : Opens t := by
  induction h with
  | padded hb h ha ih => exact (ih.blank hb).append _
  | item _ ih => exact ih
  | items _ _ ih _ => exact ih.append _
  | member hb hk ha _ _ =>
    obtain ⟨-⟩ := hk
    rw [List.append_assoc, List.append_assoc]
    exact Opens.blank hb (opens_of_starts (by decide) _)
  | single _ ih => exact ih
  | members _ _ ih _ => exact ih.append _
  | value h =>
    obtain ⟨c, rest, rfl, hc⟩ := starts_of_spellsValue h
    exact opens_of_starts hc rest
  | list _ _ _ => exact opens_of_starts (by decide) _
  | mapping _ _ _ => exact opens_of_starts (by decide) _

/-! ### The commas of a document -/

/-- Whatever follows, no comma of the text comes before a closing bracket. -/
def Firm (s : List Char) : Prop := ∀ rest, ¬ Dangles s rest

theorem firm_of_not_mem (h : ',' ∉ s) : Firm s := by
  rintro rest ⟨before, after, rfl, -⟩
  exact h (List.mem_append_right before List.mem_cons_self)

theorem firm_of_blank (h : Blank s) : Firm s :=
  firm_of_not_mem fun hc => absurd (h _ hc) (by decide)

theorem Firm.append (hs : Firm s) (ht : Firm t) : Firm (s ++ t) := by
  intro rest h
  exact (dangles_append.1 h).elim (hs (t ++ rest)) (ht rest)

theorem Firm.cons {c : Char} (hc : c ≠ ',') (hs : Firm s) : Firm (c :: s) := by
  intro rest h
  exact (dangles_cons.1 h).elim (fun hcomma => hc hcomma.1) (hs rest)

/-- No text of the document has a comma before a closing bracket. -/
def Tame (s : List Char) : Prop := ∀ l ∈ literals s, ¬ HasTrailingComma l

instance (s : List Char) : Decidable (Tame s) :=
  inferInstanceAs (Decidable (∀ l ∈ literals s, ¬ HasTrailingComma l))

theorem tame_append (hs : Closed s) : Tame (s ++ t) ↔ Tame s ∧ Tame t := by
  rw [Tame, hs, List.forall_mem_append, Tame, Tame]

theorem tame_cons {c : Char} (hc : c ≠ '\x22') : Tame (c :: s) ↔ Tame s := by
  rw [Tame, literals_cons hc, Tame]

theorem tame_enclosed {c : Char} (hc : c ≠ '\x22') (hs : Closed s) (h : Tame (c :: (s ++ rest))) :
    Tame s :=
  ((tame_append hs).1 ((tame_cons hc).1 h)).1

theorem tame_padded {before : List Char} (hb : Blank before) (hs : Closed s)
    (h : Tame (before ++ s ++ rest)) : Tame s := by
  rw [List.append_assoc, tame_append (closed_of_blank hb), tame_append hs] at h
  exact h.2.1

theorem tame_comma (hs : Closed s) (h : Tame (s ++ ',' :: t)) : Tame s ∧ Tame t := by
  rwa [tame_append hs, tame_cons (by decide)] at h

theorem tame_member {key : String} {before after : List Char} (hb : Blank before)
    (hs : SpellsText key s) (ha : Blank after) (h : Tame (before ++ s ++ after ++ ':' :: t)) :
    Tame s ∧ Tame t := by
  rw [List.append_assoc, List.append_assoc, tame_append (closed_of_blank hb),
    tame_append (closed_text hs), tame_append (closed_of_blank ha), tame_cons (by decide)] at h
  exact ⟨h.2.1, h.2.2.2⟩

theorem closesNext_of_starts_append {c : Char} (hc : starts c = true)
    (h : closesNext (s ++ c :: rest) = true) : closesNext s = true := by
  induction s with
  | nil =>
    rw [List.nil_append, closesNext_of_starts hc] at h
    cases h
  | cons d s ih =>
    rw [List.cons_append, closesNext_cons] at h
    rw [closesNext_cons]
    split
    · next hd =>
      rw [if_pos hd] at h
      exact ih h
    · next hd =>
      rw [if_neg hd] at h
      exact h

/-- A character other than a blank and a closing bracket parts a comma from what follows. -/
theorem hasTrailingComma_of_dangles {c : Char} (hc : starts c = true)
    (h : Dangles s (c :: rest)) : HasTrailingComma s := by
  obtain ⟨before, after, rfl, hafter⟩ := h
  exact ⟨before, after, rfl, closesNext_of_starts_append hc hafter⟩

theorem firm_text {k : String} (h : SpellsText k s) (htame : Tame s) : Firm s := by
  obtain ⟨hbody⟩ := h
  rename_i body
  refine Firm.cons (by decide) fun rest hdangles => ?_
  have hmem : body ∈ literals ('\x22' :: (body ++ ['\x22'])) := by
    rw [literals_text_self hbody]
    exact List.mem_cons_self
  rcases dangles_append.1 hdangles with hinside | hquote
  · exact htame body hmem (hasTrailingComma_of_dangles (by decide) hinside)
  · exact firm_of_not_mem (by decide) rest hquote

theorem firm_comma (ht : Firm t) (hopens : Opens t) : Firm (',' :: t) := by
  intro rest h
  rcases dangles_cons.1 h with ⟨-, hcloses⟩ | h
  · rw [(hopens.append rest).closesNext] at hcloses
    cases hcloses
  · exact ht rest h

/-- A comma of a document has something behind it that is no closing bracket, unless it belongs to a
text. -/
theorem firm_of_spells {part : Part} (h : Spells dialect depth part s) (htame : Tame s) :
    Firm s := by
  induction h with
  | null => exact firm_of_not_mem (by decide)
  | true => exact firm_of_not_mem (by decide)
  | false => exact firm_of_not_mem (by decide)
  | number h _ =>
    exact firm_of_not_mem fun hc => absurd (numeric_of_spellsNumeral h _ hc) (by decide)
  | text h => exact firm_text h htame
  | nil hb => exact .cons (by decide) ((firm_of_blank hb).append (firm_of_not_mem (by decide)))
  | list h ih =>
    have hitems := tame_enclosed (by decide) (closed_of_spells h) htame
    exact .cons (by decide) ((ih hitems).append (firm_of_not_mem (by decide)))
  | empty hb => exact .cons (by decide) ((firm_of_blank hb).append (firm_of_not_mem (by decide)))
  | mapping h ih =>
    have hmembers := tame_enclosed (by decide) (closed_of_spells h) htame
    exact .cons (by decide) ((ih hmembers).append (firm_of_not_mem (by decide)))
  | padded hb h ha ih =>
    have hvalue := tame_padded hb (closed_of_spells h) htame
    exact ((firm_of_blank hb).append (ih hvalue)).append (firm_of_blank ha)
  | item h ih => exact ih htame
  | items h ht ih iht =>
    obtain ⟨hitem, hmore⟩ := tame_comma (closed_of_spells h) htame
    exact (ih hitem).append (firm_comma (iht hmore) (opens_of_loosened (loosened_self ht)))
  | member hb hk ha h ih =>
    obtain ⟨hkey, hvalue⟩ := tame_member hb hk ha htame
    exact (((firm_of_blank hb).append (firm_text hk hkey)).append (firm_of_blank ha)).append
      (.cons (by decide) (ih hvalue))
  | single h ih => exact ih htame
  | members h ht ih iht =>
    obtain ⟨hmember, hmore⟩ := tame_comma (closed_of_spells h) htame
    exact (ih hmember).append (firm_comma (iht hmore) (opens_of_loosened (loosened_self ht)))

/-! ### Cleaning -/

/-- The text before its trailing commas are dropped. -/
def cleared (s : List Char) : List Char := (unifyLineEnds s).filter fun c => !isStray c

theorem sanitize_eq (s : List Char) : sanitize s = dropTrailingCommas (cleared s) := rfl

theorem mem_unifyLineEnds {c : Char} (h : c ∈ unifyLineEnds s) : c = '\n' ∨ c ∈ s := by
  fun_induction unifyLineEnds s with
  | case1 => exact .inr h
  | case2 s ih =>
    rcases List.mem_cons.1 h with hc | h
    · exact .inl hc
    · exact (ih h).imp_right fun h => List.mem_cons_of_mem _ (List.mem_cons_of_mem _ h)
  | case3 s hs ih =>
    rcases List.mem_cons.1 h with hc | h
    · exact .inl hc
    · exact (ih h).imp_right (List.mem_cons_of_mem _)
  | case4 d s hd hd' ih =>
    rcases List.mem_cons.1 h with rfl | h
    · exact .inr List.mem_cons_self
    · exact (ih h).imp_right (List.mem_cons_of_mem _)

theorem cleared_of_clean (h : Clean s) : cleared s = unifyLineEnds s := by
  rw [cleared, List.filter_eq_self]
  intro c hc
  have hclean : Clean (unifyLineEnds s) := fun d hd =>
    (mem_unifyLineEnds hd).elim (fun hfeed => .inl (hfeed ▸ rfl)) (h d)
  rw [not_isStray hclean c hc]
  rfl

theorem cleared_append {c : Char} (hc : c ≠ '\n') (s rest : List Char) :
    cleared (s ++ c :: rest) = cleared s ++ cleared (c :: rest) := by
  rw [cleared, unifyLineEnds_append hc, List.filter_append, ← cleared, ← cleared]

theorem cleared_cons {c : Char} (hc : 0x20 ≤ c.toNat) (rest : List Char) :
    cleared (c :: rest) = c :: cleared rest := by
  have hreturn : c ≠ '\r' := by
    rintro rfl
    exact absurd hc (by decide)
  have hstray : isStray c = false :=
    not_isStray (clean_of_visible (visible_cons.2 ⟨hc, visible_nil⟩)) c List.mem_cons_self
  rw [cleared, unifyLineEnds_cons hreturn, List.filter_cons_of_pos (by simp [hstray]), ← cleared]

theorem cleared_value {v : Value} (h : Spells dialect depth (.value v) s) (rest : List Char) :
    cleared (s ++ rest) = unifyLineEnds s ++ cleared rest := by
  rw [← cleared_of_clean (clean_of_spells h), cleared, unifyLineEnds_value h, List.filter_append,
    ← cleared, ← cleared]

theorem sanitize_cons {c : Char} (hc : 0x20 ≤ c.toNat) (hcomma : c ≠ ',') (rest : List Char) :
    sanitize (c :: rest) = c :: sanitize rest := by
  rw [sanitize_eq, cleared_cons hc, dropTrailingCommas, if_neg (by simp [hcomma]), ← sanitize_eq]

theorem sanitize_blank {b : List Char} (hb : Blank b) {c : Char} (hc : c ≠ '\n')
    (rest : List Char) : sanitize (b ++ c :: rest) = unifyLineEnds b ++ sanitize (c :: rest) := by
  rw [sanitize_eq, cleared_append hc, cleared_of_clean (clean_of_blank hb),
    dropTrailingCommas_append (firm_of_blank (blank_unifyLineEnds hb) _), ← sanitize_eq]

theorem sanitize_value {v : Value} (h : Spells dialect depth (.value v) s) (htame : Tame s)
    (rest : List Char) : sanitize (s ++ rest) = unifyLineEnds s ++ sanitize rest := by
  rw [sanitize_eq, cleared_value h, dropTrailingCommas_append, ← sanitize_eq]
  exact fun hdangles => firm_of_spells h htame _ (dangles_of_unifyLineEnds hdangles)

theorem cleared_opens (h : Opens s) : Opens (cleared s) := by
  obtain ⟨b, c, tail, rfl, hb, hc⟩ := h
  rw [cleared_append (ne_feed_of_starts hc), cleared_of_clean (clean_of_blank hb),
    cleared_cons (visible_of_starts hc)]
  exact ⟨_, c, _, rfl, blank_unifyLineEnds hb, hc⟩

theorem sanitize_comma (h : Opens s) : sanitize (',' :: s) = ',' :: sanitize s := by
  rw [sanitize_eq, cleared_cons (by decide), dropTrailingCommas,
    if_neg (by simp [(cleared_opens h).closesNext]), ← sanitize_eq]

theorem closing_spec {c : Char} (hc : c = ']' ∨ c = '\x7d') :
    0x20 ≤ c.toNat ∧ c ≠ '\n' ∧ c ≠ ',' ∧ Text.isBlank c = false := by
  rcases hc with rfl | rfl <;> decide

/-- The comma goes, and the blanks behind it. -/
theorem sanitize_trailing {a : List Char} (ha : Blank a) {c : Char} (hc : c = ']' ∨ c = '\x7d')
    (rest : List Char) : sanitize (',' :: (a ++ c :: rest)) = c :: sanitize rest := by
  obtain ⟨hvisible, hfeed, hcomma, hblank⟩ := closing_spec hc
  have ha' := blank_unifyLineEnds ha
  have hcleared : cleared (a ++ c :: rest) = unifyLineEnds a ++ c :: cleared rest := by
    rw [cleared_append hfeed, cleared_of_clean (clean_of_blank ha), cleared_cons hvisible]
  have hcloses : closesNext (cleared (a ++ c :: rest)) = true := by
    rw [hcleared, closesNext_blank ha', closesNext_cons, if_neg (by simp [hblank])]
    simpa using hc
  have hrest : dropTrailingCommas (cleared (a ++ c :: rest)) =
      unifyLineEnds a ++ c :: sanitize rest := by
    rw [← sanitize_eq, sanitize_blank ha hfeed, sanitize_cons hvisible hcomma]
  rw [sanitize_eq, cleared_cons (by decide), dropTrailingCommas, if_pos (by simp [hcloses]), hrest]
  exact dropWhile_run (fun d hd => isBlank_text (ha' d hd)) (by rintro _ ⟨⟩; exact hblank)

/-- The text is cleaned to one with a property. -/
def Cleans (P : List Char → Prop) (t : List Char) : Prop :=
  ∃ u, P u ∧ ∀ rest, sanitize (t ++ rest) = u ++ sanitize rest

/-- The text is cleaned to one with a property, whatever blanks are behind it. A line end may start
in the text and end in them, so they are cleaned with it. -/
def CleansPadded (P : List Char → Prop) (t : List Char) : Prop :=
  ∀ b, Blank b → ∃ u, P u ∧ ∀ c rest, c ≠ '\n' →
    sanitize (t ++ (b ++ c :: rest)) = u ++ sanitize (c :: rest)

/-- With what stands before a closing bracket the text is cleaned up to the bracket. -/
theorem CleansPadded.trailer {P : List Char → Prop} {a x : List Char} {c : Char}
    (h : CleansPadded P t) (hx : Trailer a x) (hc : c = ']' ∨ c = '\x7d') :
    ∃ u, P u ∧ ∀ rest, sanitize (t ++ (x ++ c :: rest)) = u ++ c :: sanitize rest := by
  obtain ⟨hvisible, hfeed, hcomma, -⟩ := closing_spec hc
  cases hx with
  | same ha =>
    obtain ⟨u, hu, hclean⟩ := h a ha
    refine ⟨u, hu, fun rest => ?_⟩
    rw [hclean c rest hfeed, sanitize_cons hvisible hcomma]
  | @comma b m _ hb hm ha =>
    obtain ⟨u, hu, hclean⟩ := h b hb
    refine ⟨u, hu, fun rest => ?_⟩
    rw [List.append_assoc, List.cons_append, hclean ',' _ (by decide),
      sanitize_trailing (List.forall_mem_append.2 ⟨hm, ha⟩) hc]

theorem CleansPadded.enclosed {P Q : List Char → Prop} {a x : List Char} {o c : Char}
    (h : CleansPadded P t) (hx : Trailer a x) (ho : o = '[' ∨ o = '\x7b')
    (hc : c = ']' ∨ c = '\x7d') (hQ : ∀ u, P u → Q (o :: (u ++ [c]))) :
    Cleans Q (o :: (t ++ x ++ [c])) := by
  obtain ⟨u, hu, hclean⟩ := h.trailer hx hc
  have hopening : 0x20 ≤ o.toNat ∧ o ≠ ',' := by rcases ho with rfl | rfl <;> decide
  refine ⟨o :: (u ++ [c]), hQ u hu, fun rest => ?_⟩
  simp only [List.cons_append, List.append_assoc, List.nil_append]
  rw [sanitize_cons hopening.1 hopening.2, hclean]

theorem CleansPadded.imp {P Q : List Char → Prop} (h : CleansPadded P t)
    (hPQ : ∀ u, P u → Q u) : CleansPadded Q t := by
  intro b hb
  obtain ⟨u, hu, hclean⟩ := h b hb
  exact ⟨u, hPQ u hu, hclean⟩

theorem CleansPadded.comma {P Q R : List Char → Prop} (hs : CleansPadded P s)
    (ht : CleansPadded Q t) (hopens : Opens t) (hR : ∀ u w, P u → Q w → R (u ++ ',' :: w)) :
    CleansPadded R (s ++ ',' :: t) := by
  intro b hb
  obtain ⟨u, hu, hfirst⟩ := hs [] blank_nil
  obtain ⟨w, hw, hmore⟩ := ht b hb
  refine ⟨u ++ ',' :: w, hR u w hu hw, fun c rest hc => ?_⟩
  have hcomma := hfirst ',' (t ++ (b ++ c :: rest)) (by decide)
  rw [List.nil_append, sanitize_comma (hopens.append _), hmore c rest hc] at hcomma
  rw [List.append_assoc, List.cons_append, hcomma, List.append_assoc, List.cons_append]

theorem CleansPadded.value {v : Value} {before after : List Char} (hb : Blank before)
    (h : Cleans (Spells dialect depth (.value v)) t)
    (hstarts : ∃ c rest, t = c :: rest ∧ starts c = true) (ha : Blank after) :
    CleansPadded (Spells dialect depth (.padded v)) (before ++ t ++ after) := by
  intro b hblank
  obtain ⟨u, hu, hclean⟩ := h
  obtain ⟨d, tail, rfl, hd⟩ := hstarts
  have hafter : Blank (after ++ b) := List.forall_mem_append.2 ⟨ha, hblank⟩
  refine ⟨unifyLineEnds before ++ u ++ unifyLineEnds (after ++ b),
    .padded (blank_unifyLineEnds hb) hu (blank_unifyLineEnds hafter), fun c rest hc => ?_⟩
  calc sanitize (before ++ d :: tail ++ after ++ (b ++ c :: rest))
    _ = sanitize (before ++ d :: (tail ++ (after ++ b ++ c :: rest))) := by simp
    _ = unifyLineEnds before ++ sanitize (d :: tail ++ (after ++ b ++ c :: rest)) :=
      sanitize_blank hb (ne_feed_of_starts hd) _
    _ = unifyLineEnds before ++ (u ++ (unifyLineEnds (after ++ b) ++ sanitize (c :: rest))) := by
      rw [hclean, sanitize_blank hafter hc]
    _ = _ := by simp

theorem CleansPadded.member {key : String} {k : List Char} {v : Value}
    {before after : List Char} (hb : Blank before) (hk : SpellsText key k) (htame : Tame k)
    (ha : Blank after) (h : CleansPadded (Spells dialect depth (.padded v)) t) :
    CleansPadded (Spells dialect depth (.member (key, v))) (before ++ k ++ after ++ ':' :: t) := by
  intro b hblank
  obtain ⟨u, hu, hclean⟩ := h b hblank
  have hkey (rest : List Char) : sanitize (k ++ rest) = k ++ sanitize rest := by
    rw [sanitize_value (@Spells.text dialect depth key k hk) htame,
      unifyLineEnds_visible (visible_of_spellsText hk)]
  obtain ⟨body, hbody, -⟩ := text?_complete hk []
  refine ⟨unifyLineEnds before ++ k ++ unifyLineEnds after ++ ':' :: u,
    .member (blank_unifyLineEnds hb) hk (blank_unifyLineEnds ha) hu, fun c rest hc => ?_⟩
  calc sanitize (before ++ k ++ after ++ ':' :: t ++ (b ++ c :: rest))
    _ = sanitize (before ++ '\x22' :: (body ++ (after ++ ':' :: (t ++ (b ++ c :: rest))))) := by
      simp [hbody]
    _ = unifyLineEnds before ++ sanitize (k ++ (after ++ ':' :: (t ++ (b ++ c :: rest)))) := by
      rw [sanitize_blank hb (by decide), hbody, List.cons_append]
    _ = unifyLineEnds before ++
        (k ++ (unifyLineEnds after ++ ':' :: (u ++ sanitize (c :: rest)))) := by
      rw [hkey, sanitize_blank ha (by decide), sanitize_cons (by decide) (by decide),
        hclean c rest hc]
    _ = _ := by simp

/-- Cleaned, a document with commas too many says what it says without them. -/
def Cleanable (dialect : Dialect) (depth : Nat) : Part → List Char → Prop
  | .value v => Cleans (Spells dialect depth (.value v))
  | .padded v => CleansPadded (Spells dialect depth (.padded v))
  | .items vs => CleansPadded (Spells dialect depth (.items vs))
  | .member m => CleansPadded (Spells dialect depth (.member m))
  | .members ms => CleansPadded (Spells dialect depth (.members ms))

theorem cleanable_of_loosened {part : Part} (h : Loosened dialect depth part s t)
    (htame : Tame s) : Cleanable dialect depth part t := by
  induction h with
  | value h => exact ⟨_, spells_unifyLineEnds h, sanitize_value h htame⟩
  | list h hx ih =>
    rw [List.append_assoc] at htame
    have hitems := tame_enclosed (by decide) (closed_of_spells (spells_of_loosened h)) htame
    exact CleansPadded.enclosed (ih hitems) hx (.inl rfl) (.inl rfl) fun _ => .list
  | mapping h hx ih =>
    rw [List.append_assoc] at htame
    have hmembers := tame_enclosed (by decide) (closed_of_spells (spells_of_loosened h)) htame
    exact CleansPadded.enclosed (ih hmembers) hx (.inr rfl) (.inr rfl) fun _ => .mapping
  | padded hb h ha ih =>
    have hvalue := tame_padded hb (closed_of_spells (spells_of_loosened h)) htame
    exact CleansPadded.value hb (ih hvalue) (starts_of_loosened h) ha
  | item h ih => exact CleansPadded.imp (ih htame) fun _ => .item
  | items h hmore ih ihmore =>
    obtain ⟨hitem, htail⟩ := tame_comma (closed_of_spells (spells_of_loosened h)) htame
    exact CleansPadded.comma (ih hitem) (ihmore htail) (opens_of_loosened hmore) fun _ _ => .items
  | member hb hk ha h ih =>
    obtain ⟨hkey, hvalue⟩ := tame_member hb hk ha htame
    exact CleansPadded.member hb hk hkey ha (ih hvalue)
  | single h ih => exact CleansPadded.imp (ih htame) fun _ => .single
  | members h hmore ih ihmore =>
    obtain ⟨hmember, htail⟩ := tame_comma (closed_of_spells (spells_of_loosened h)) htame
    exact CleansPadded.comma (ih hmember) (ihmore htail) (opens_of_loosened hmore)
      fun _ _ => .members

end StoryWorld.Json
