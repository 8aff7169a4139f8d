import StoryWorld.Proofs.Parsing
import StoryWorld.Proofs.Wording

/-!
The spacing of an expression means nothing.

The parser looks at the positions of tokens only to put them in messages. So it makes the same of
two texts whose tokens have the same kinds and values; and writing the tokens of a text anew, with
other blanks between them, gives such a text.
-/

namespace StoryWorld

/-! ### Positions -/

namespace Token

/-- What a token is apart from its position. -/
def reading (t : Token) : TokenKind × List Char := (t.kind, t.value)

/-- The token, moved to the start of the text. -/
def unplaced (t : Token) : Token := { t with position := 0 }

@[simp] theorem unplaced_kind (t : Token) : t.unplaced.kind = t.kind := rfl

@[simp] theorem unplaced_value (t : Token) : t.unplaced.value = t.value := rfl

theorem map_unplaced_of_reading {ts us : List Token} (h : ts.map reading = us.map reading) :
    ts.map unplaced = us.map unplaced := by
  have hplaced := congrArg (List.map fun r => (⟨r.1, r.2, 0⟩ : Token)) h
  rwa [List.map_map, List.map_map] at hplaced

end Token

namespace Outcome

variable {α β γ : Type}

theorem map_of_bind (y : Outcome α) (g : α → Outcome β) (k : β → γ) :
    (y >>= g).map k = y >>= fun a => (g a).map k := by
  cases y <;> rfl

/-- If the first parts of two operations agree up to a function, the second parts have to do so with
what the function gives. -/
theorem Agree.bind_map {x : Outcome β} {y : Outcome α} {k : α → β} {f : β → Outcome γ}
    {g : α → Outcome γ} (h : x.Agree (y.map k)) (hfg : ∀ a, (f (k a)).Agree (g a)) :
    (x >>= f).Agree (y >>= g) := by
  have hfirst : (x >>= f).Agree (y.map k >>= f) := h.bind fun b _ => .refl (f b)
  have hmap : (y.map k >>= f) = y >>= fun a => f (k a) := by cases y <;> rfl
  rw [hmap] at hfirst
  exact hfirst.trans ((Agree.refl y).bind fun a _ => hfg a)

end Outcome

namespace Parser

open Token Outcome

variable {fuel : ℕ} {t : Token} {ts us : List Token}

/-- The step with what is left of the tokens unplaced. -/
def forget (x : Step) : Step := x.map fun p => (p.1, p.2.map unplaced)

theorem bind_forget {x y : Step} {f g : Expr × List Token → Step} (h : x.Agree (forget y))
    (hfg : ∀ e rest, (f (e, rest.map unplaced)).Agree (forget (g (e, rest)))) :
    (x >>= f).Agree (forget (y >>= g)) := by
  rw [forget, map_of_bind]
  exact h.bind_map fun p => hfg p.1 p.2

@[simp] theorem additive?_unplaced (t : Token) : additive? t.unplaced = additive? t := rfl

@[simp] theorem multiplicative?_unplaced (t : Token) :
    multiplicative? t.unplaced = multiplicative? t := rfl

@[simp] theorem comparison?_unplaced (t : Token) : comparison? t.unplaced = comparison? t := rfl

theorem pathRef_unplaced (t : Token) : (pathRef t.unplaced).Agree (pathRef t) := by
  unfold pathRef
  simp only [unplaced_value]
  cases Segment.split t.value with
  | nil => exact .refl _
  | cons root parts =>
    dsimp only
    cases Segment.parseAll (String.ofList t.value) parts with
    | ok segments => exact .refl _
    | error fault =>
      split
      · exact .refl _
      · exact agree_refuse _ _ _
      · exact .refl _

theorem unbalanced_agree (t : Token) : (unbalanced t.unplaced).Agree (forget (unbalanced t)) :=
  agree_refuse _ _ _

/-- The functions of the parser make the same of unplaced tokens, with so much fuel. -/
structure Placeless (fuel : ℕ) : Prop where
  sum : ∀ ts, (sum fuel (ts.map unplaced)).Agree (forget (sum fuel ts))
  sumRest : ∀ e ts, (sumRest fuel e (ts.map unplaced)).Agree (forget (sumRest fuel e ts))
  term : ∀ ts, (term fuel (ts.map unplaced)).Agree (forget (term fuel ts))
  termRest : ∀ e ts, (termRest fuel e (ts.map unplaced)).Agree (forget (termRest fuel e ts))
  unary : ∀ ts, (unary fuel (ts.map unplaced)).Agree (forget (unary fuel ts))
  atom : ∀ t ts, (atom fuel t.unplaced (ts.map unplaced)).Agree (forget (atom fuel t ts))

theorem sumRest_unplaced (h : Placeless fuel) (e : Expr) (ts : List Token) :
    (sumRest (fuel + 1) e (ts.map unplaced)).Agree (forget (sumRest (fuel + 1) e ts)) := by
  cases ts with
  | nil => exact .refl _
  | cons t rest =>
    rw [List.map_cons, sumRest, sumRest, additive?_unplaced]
    cases additive? t with
    | none => exact .refl _
    | some op => exact bind_forget (h.term rest) fun _ => h.sumRest _

theorem termRest_unplaced (h : Placeless fuel) (e : Expr) (ts : List Token) :
    (termRest (fuel + 1) e (ts.map unplaced)).Agree (forget (termRest (fuel + 1) e ts)) := by
  cases ts with
  | nil => exact .refl _
  | cons t rest =>
    rw [List.map_cons, termRest, termRest, multiplicative?_unplaced]
    cases multiplicative? t with
    | none => exact .refl _
    | some op => exact bind_forget (h.unary rest) fun _ => h.termRest _

theorem unary_unplaced (h : Placeless fuel) (ts : List Token) :
    (unary (fuel + 1) (ts.map unplaced)).Agree (forget (unary (fuel + 1) ts)) := by
  cases ts with
  | nil => exact .refl _
  | cons t rest =>
    rw [List.map_cons, unary, unary, additive?_unplaced]
    split_ifs
    · exact bind_forget (h.unary rest) fun _ _ => .refl _
    · exact h.atom t rest

theorem atom_unplaced (h : Placeless fuel) (t : Token) (ts : List Token) :
    (atom (fuel + 1) t.unplaced (ts.map unplaced)).Agree (forget (atom (fuel + 1) t ts)) := by
  rw [atom, atom, unplaced_kind, unplaced_value]
  cases t.kind with
  | number => cases number t.value <;> exact .refl _
  | string => exact .refl _
  | boolean => exact .refl _
  | path =>
    rw [forget, map_of_bind]
    exact (pathRef_unplaced t).bind fun ref _ => .refl _
  | lparen =>
    refine bind_forget (h.sum ts) fun inner rest => ?_
    cases rest with
    | nil => exact unbalanced_agree t
    | cons closing rest =>
      rw [List.map_cons]
      by_cases hclosing : closing.kind = .rparen
      · simp only [unplaced_kind, hclosing, if_true]
        exact .refl _
      · simp only [unplaced_kind, hclosing, if_false]
        exact unbalanced_agree t
  | _ => exact agree_refuse _ _ _

/-- Without fuel nothing is read, and each unit lets the functions go one rule deeper. -/
theorem placeless (fuel : ℕ) : Placeless fuel := by
  induction fuel with
  | zero => constructor <;> intros <;> exact agree_refuse _ _ _
  | succ fuel ih =>
    exact ⟨fun ts => bind_forget (ih.term ts) ih.sumRest, sumRest_unplaced ih,
      fun ts => bind_forget (ih.unary ts) ih.termRest, termRest_unplaced ih, unary_unplaced ih,
      atom_unplaced ih⟩

theorem fuelFor_unplaced (ts : List Token) : fuelFor (ts.map unplaced) = fuelFor ts := by
  rw [fuelFor, fuelFor, List.length_map]

theorem sum_unplaced (ts : List Token) :
    (sum (fuelFor (ts.map unplaced)) (ts.map unplaced)).Agree (forget (sum (fuelFor ts) ts)) := by
  rw [fuelFor_unplaced]
  exact (placeless _).sum ts

theorem compared_unplaced (ts : List Token) :
    (compared (ts.map unplaced)).Agree (forget (compared ts)) := by
  refine bind_forget (sum_unplaced ts) fun left rest => ?_
  cases rest with
  | nil => exact .refl _
  | cons t after =>
    simp only [List.map_cons, comparison?_unplaced]
    cases comparison? t with
    | none => exact .refl _
    | some op => exact bind_forget (sum_unplaced after) fun _ _ => .refl _

theorem expression_unplaced (ts : List Token) :
    (expression (ts.map unplaced)).Agree (forget (expression ts)) := by
  cases ts with
  | nil => exact compared_unplaced []
  | cons head ts =>
    cases ts with
    | nil => exact compared_unplaced [head]
    | cons word rest =>
      have hkinds : (head.unplaced.kind = .path ∧ word.unplaced.kind = .keyword) ↔
        head.kind = .path ∧ word.kind = .keyword := .rfl
      have hexists : word.unplaced.value = "exists".toList ↔ word.value = "exists".toList := .rfl
      simp only [List.map_cons, expression, hkinds, hexists]
      split_ifs
      · rw [forget, map_of_bind]
        exact (pathRef_unplaced head).bind fun ref _ => .refl _
      · rw [forget, map_of_bind]
        exact (pathRef_unplaced head).bind fun ref _ =>
          bind_forget (sum_unplaced rest) fun _ _ => .refl _
      · exact compared_unplaced (head :: word :: rest)

/-- The parser makes the same of tokens wherever they stand. -/
theorem parse_unplaced (ts : List Token) : (parse (ts.map unplaced)).Agree (parse ts) := by
  cases ts with
  | nil => exact .refl _
  | cons t ts =>
    refine (expression_unplaced (t :: ts)).bind_map ?_
    rintro ⟨e, rest⟩
    cases rest with
    | nil => exact .refl _
    | cons u rest => exact agree_refuse _ _ _

theorem parse_agree (h : ts.map reading = us.map reading) : (parse ts).Agree (parse us) := by
  have hts := parse_unplaced ts
  rw [map_unplaced_of_reading h] at hts
  exact hts.symm.trans (parse_unplaced us)

end Parser

/-! ### Other blanks -/

namespace Token

variable {t : Token} {ts : List Token} {s rest : List Char}

/-- Texts in which the sources of some tokens stand one after the other, with some blanks between
any two of them. -/
inductive Respaced : List Token → List Char → Prop
  | nil : Respaced [] []
  | one {t word} (source : Source t.kind t.value word) : Respaced [t] word
  | cons {t u ts word gap rest} (source : Source t.kind t.value word) (ne : gap ≠ [])
    (blank : ∀ c ∈ gap, Text.isBlank c = true) (more : Respaced (u :: ts) rest) :
    Respaced (t :: u :: ts) (word ++ (gap ++ rest))

theorem Spaced.gap {ws : List (TokenKind × List Char)} {gap : List Char}
    (hgap : ∀ c ∈ gap, Text.isBlank c = true) (h : Spaced ws s) : Spaced ws (gap ++ s) := by
  cases h with
  | nil blank => exact .nil fun c hc => (List.mem_append.1 hc).elim (hgap c) (blank c)
  | @cons gap' c word rest kind value ws blank start lexeme more =>
    have happend : ∀ d ∈ gap ++ gap', Text.isBlank d = true :=
      fun d hd => (List.mem_append.1 hd).elim (hgap d) (blank d)
    simpa using Spaced.cons happend start lexeme more

/-- A source that nothing or a blank follows is a lexeme of the text. -/
theorem Spaced.source {ws : List (TokenKind × List Char)} {kind : TokenKind}
    {value word : List Char} (hv : IsValue kind value) (hs : Source kind value word)
    (hrest : Ends rest) (h : Spaced ws rest) : Spaced ((kind, value) :: ws) (word ++ rest) := by
  obtain ⟨c, more, rfl, hstart, hlexeme⟩ := taken_of_source hv hs
  exact @Spaced.cons [] c more rest kind value ws (by simp) hstart (hlexeme rest hrest) h

theorem spaced_of_respaced (h : Respaced ts s) (hv : ∀ t ∈ ts, IsValue t.kind t.value) :
    Spaced (ts.map reading) s := by
  induction h with
  | nil => exact .nil (by simp)
  | @one t word source =>
    have hspaced := Spaced.source (hv t List.mem_cons_self) source
      (show Ends [] by simp [Ends]) (.nil (by simp))
    rwa [List.append_nil] at hspaced
  | @cons t u ts word gap rest source ne blank more ih =>
    rw [List.forall_mem_cons] at hv
    refine Spaced.source hv.1 source ?_ ((ih hv.2).gap blank)
    intro c hc
    obtain ⟨d, gap, rfl⟩ := List.exists_cons_of_ne_nil ne
    cases hc
    exact blank c List.mem_cons_self

theorem tokenize_respaced {s' : List Char} (h : tokenize s = .ok ts) (hs : Respaced ts s') :
    ∃ us, tokenize s' = .ok us ∧ us.map reading = ts.map reading := by
  obtain ⟨us, hus, hreads⟩ := tokenize_of_spaced (spaced_of_respaced hs (laid_of_scan h).2)
  refine ⟨us, hus, ?_⟩
  have heq : List.Forall₂ (fun u w => u.reading = w) us (ts.map reading) :=
    hreads.imp fun u w hu => Prod.ext hu.1 hu.2
  rwa [← List.forall₂_map_left_iff, List.forall₂_eq_eq_eq] at heq

end Token

end StoryWorld
