import Mathlib.Data.List.Forall2
import StoryWorld.Expression.Parser
import StoryWorld.Proofs.Texts

/-!
The grammar of prerequisite expressions.

It is given as derivations of trees from lists of tokens. The rules for sums and terms are left
recursive, so that operations of one rank group to the left. Below it stand the facts about single
tokens that its leaves rest on: how the tokens of a text are written, and what the parser makes of
one sign, one numeral or one path.
-/

namespace StoryWorld

/-! ### The grammar -/

/-- A token of a kind that is written in a certain way. -/
def Token.Reads (t : Token) (kind : TokenKind) (word : List Char) : Prop :=
  t.kind = kind ∧ t.value = word

/-- The path that a token stands for: the parts after the first are segments, one by one. -/
inductive Token.IsPath (t : Token) : PathRef → Prop
  | intro {root : List Char} {parts : List (List Char)} {segments : List Segment}
    (kind : t.kind = .path) (parts_eq : Segment.split t.value = root :: parts)
    (parsed : List.Forall₂ (fun part segment =>
      Segment.parse part (String.ofList t.value) = .ok segment) parts segments) :
    t.IsPath ⟨String.ofList t.value, String.ofList root, segments⟩

namespace Grammar

/-- The rules for the operands of an expression, from the loosest to the tightest. -/
inductive Rule where
  | sum | term | unary | atom

/-- Derivations of a tree from tokens by one of the rules. -/
inductive Derives : Rule → List Token → Expr → Prop
  | sumOfTerm {ts e} (h : Derives .term ts e) : Derives .sum ts e
  | sum {ts us a b t op} (left : Derives .sum ts a) (sign : t.Reads .arithmetic [op.sign])
    (hop : op = .add ∨ op = .sub) (right : Derives .term us b) :
    Derives .sum (ts ++ t :: us) (.arithmetic op a b)
  | termOfUnary {ts e} (h : Derives .unary ts e) : Derives .term ts e
  | term {ts us a b t op} (left : Derives .term ts a) (sign : t.Reads .arithmetic [op.sign])
    (hop : op = .mul ∨ op = .div) (right : Derives .unary us b) :
    Derives .term (ts ++ t :: us) (.arithmetic op a b)
  | unaryOfAtom {ts e} (h : Derives .atom ts e) : Derives .unary ts e
  | negate {ts e t} (sign : t.Reads .arithmetic ['-']) (operand : Derives .unary ts e) :
    Derives .unary (t :: ts) (.negate e)
  | number {t n} (kind : t.kind = .number) (h : Parser.number t.value = .ok n) :
    Derives .atom [t] (.literal (.number n))
  | string {t} (kind : t.kind = .string) :
    Derives .atom [t] (.literal (.text (String.ofList t.value)))
  | true {t} (h : t.Reads .boolean "true".toList) : Derives .atom [t] (.literal (.bool true))
  | false {t} (h : t.Reads .boolean "false".toList) : Derives .atom [t] (.literal (.bool false))
  | path {t ref} (h : t.IsPath ref) : Derives .atom [t] (.path ref)
  | parens {ts e t u} (opening : t.kind = .lparen) (inner : Derives .sum ts e)
    (closing : u.kind = .rparen) : Derives .atom (t :: ts ++ [u]) e

/-- Derivations of a whole expression. -/
inductive Expression : List Token → Expr → Prop
  | present {t u ref} (path : t.IsPath ref) (word : u.Reads .keyword "exists".toList) :
    Expression [t, u] (.present ref)
  | includes {t u ts ref e} (path : t.IsPath ref) (word : u.Reads .keyword "includes".toList)
    (needle : Derives .sum ts e) : Expression (t :: u :: ts) (.includes ref e)
  | sum {ts e} (h : Derives .sum ts e) : Expression ts e
  | comparison {ts us a b t op} (left : Derives .sum ts a)
    (sign : t.Reads .compare (ComparisonOp.sign op)) (right : Derives .sum us b) :
    Expression (ts ++ t :: us) (.comparison op a b)

end Grammar

/-! ### Tokens -/

namespace Token

theorem IsPath.kind_eq {t : Token} {ref : PathRef} (h : t.IsPath ref) : t.kind = .path := by
  cases h
  assumption

/-- Truth values and keywords are written as one of their two words. -/
structure Proper (t : Token) : Prop where
  truth : t.kind = .boolean → t.value = "true".toList ∨ t.value = "false".toList
  keyword : t.kind = .keyword → t.value = "exists".toList ∨ t.value = "includes".toList

theorem proper_of_kind {t : Token} (hb : t.kind ≠ .boolean) (hk : t.kind ≠ .keyword) : t.Proper :=
  ⟨fun h => absurd h hb, fun h => absurd h hk⟩

theorem proper_word (word : List Char) (position : Nat) :
    (⟨wordKind word, word, position⟩ : Token).Proper := by
  unfold wordKind
  constructor
  · intro h
    by_cases hb : word = "true".toList ∨ word = "false".toList
    · exact hb
    · simp only [if_neg hb] at h
      split at h <;> cases h
  · intro h
    by_cases hb : word = "true".toList ∨ word = "false".toList
    · simp only [if_pos hb] at h
      cases h
    · simp only [if_neg hb] at h
      split at h
      · assumption
      · cases h

/-- The whole numerals that a token is read for: its own, or the positions in its path. -/
def numerals (t : Token) : List (List Char) :=
  match t.kind with
  | .number => if t.value.contains '.' then [] else [t.value]
  | .path =>
    (Segment.split t.value).tail.filterMap fun part =>
      match Segment.indexed? part with
      | some (_, .digits digits) => some digits
      | _ => none
  | _ => []

/-- No whole numeral of the token is longer than the limit. -/
def Short (t : Token) : Prop := ∀ s ∈ t.numerals, s.length ≤ Text.numeralLimit

end Token

theorem Segment.split_ne_nil (s : List Char) : Segment.split s ≠ [] :=
  Text.splitAt_ne_nil '.' _

theorem Segment.parseAll_ok {path : String} {raws : List (List Char)} {segments : List Segment} :
    Segment.parseAll path raws = .ok segments ↔
      List.Forall₂ (fun raw segment => Segment.parse raw path = .ok segment) raws segments := by
  induction raws generalizing segments with
  | nil => simp [Segment.parseAll, eq_comm]
  | cons raw raws ih =>
    simp only [Segment.parseAll, Outcome.bind_ok, Outcome.pure_ok, List.forall₂_cons_left_iff]
    constructor
    · rintro ⟨segment, hone, more, hmore, rfl⟩
      exact ⟨segment, more, hone, ih.1 hmore, rfl⟩
    · rintro ⟨segment, more, hone, hmore, rfl⟩
      exact ⟨segment, hone, more, ih.2 hmore, rfl⟩

/-! ### The pieces of the parser -/

/-- Whether an outcome is a result or a syntax error. -/
abbrev Outcome.Syntactic {α : Type} (x : Outcome α) : Prop :=
  x.FailsOnly fun fault => ∃ message, fault = .refused .syntaxError message

namespace Parser

open Grammar

variable {t : Token} {ts used rest : List Token} {e : Expr} {fuel : Nat}

@[simp] theorem additive?_eq_some {op : ArithmeticOp} :
    additive? t = some op ↔ t.Reads .arithmetic [op.sign] ∧ (op = .add ∨ op = .sub) := by
  unfold additive? Token.Reads
  cases op <;> split <;> simp_all [ArithmeticOp.sign] <;> split <;> simp_all

@[simp] theorem multiplicative?_eq_some {op : ArithmeticOp} :
    multiplicative? t = some op ↔ t.Reads .arithmetic [op.sign] ∧ (op = .mul ∨ op = .div) := by
  unfold multiplicative? Token.Reads
  cases op <;> split <;> simp_all [ArithmeticOp.sign] <;> split <;> simp_all

@[simp] theorem comparison?_eq_some {op : ComparisonOp} :
    comparison? t = some op ↔ t.Reads .compare op.sign := by
  unfold comparison? Token.Reads
  by_cases hk : t.kind = .compare
  · simp only [hk, ne_eq, not_true_eq_false, if_false, true_and]
    constructor
    · intro h
      have hsign : op.sign = t.value := by simpa using List.find?_some h
      exact hsign.symm
    · intro h
      rw [h]
      cases op <;> rfl
  · simp [hk]

theorem pathRef_ok (hk : t.kind = .path) {ref : PathRef} :
    pathRef t = .ok ref ↔ t.IsPath ref := by
  unfold pathRef
  cases hsplit : Segment.split t.value with
  | nil => exact absurd hsplit (Segment.split_ne_nil _)
  | cons root parts =>
    constructor
    · intro h
      cases hparse : Segment.parseAll (String.ofList t.value) parts with
      | ok segments =>
        simp only [hparse, Except.ok.injEq] at h
        rw [← h]
        exact .intro hk hsplit (Segment.parseAll_ok.1 hparse)
      | error fault =>
        simp only [hparse] at h
        split at h
        · next heq => cases heq
        · cases h
        · cases h
    · rintro ⟨-, hparts, hparsed⟩
      rw [hsplit] at hparts
      cases hparts
      simp only [Segment.parseAll_ok.2 hparsed]

theorem number_syntactic (ht : t.Short) (hk : t.kind = .number) : (number t.value).Syntactic := by
  unfold number
  split
  · simp
  · next hpoint =>
    have hlen : t.value.length ≤ Text.numeralLimit :=
      ht t.value (by simp only [Token.numerals, hk, if_neg hpoint, List.mem_singleton])
    simp [Text.nat?, hlen]

theorem segment_error {raw : List Char} {path : String} {fault : Fault}
    (h : Segment.parse raw path = .error fault) :
    (∃ message, fault = .refused .malformedPath message) ∨
      ∃ name digits, Segment.indexed? raw = some (name, .digits digits) ∧
        Text.numeralLimit < digits.length := by
  unfold Segment.parse at h
  split at h
  · cases h
    exact .inl ⟨_, rfl⟩
  split at h
  · cases h
  split at h
  · cases h
    exact .inl ⟨_, rfl⟩
  · cases h
  · next name digits hindex =>
    refine .inr ⟨name, digits, hindex, ?_⟩
    unfold Text.nat? at h
    split at h
    · cases h
    · next hsome =>
      split at hsome
      · cases hsome
      · omega

theorem parseAll_error {path : String} {raws : List (List Char)} {fault : Fault}
    (h : Segment.parseAll path raws = .error fault) :
    (∃ message, fault = .refused .malformedPath message) ∨
      ∃ raw ∈ raws, ∃ name digits, Segment.indexed? raw = some (name, .digits digits) ∧
        Text.numeralLimit < digits.length := by
  induction raws with
  | nil => cases h
  | cons raw raws ih =>
    rcases Outcome.bind_error.1 h with h | ⟨segment, -, h⟩
    · rcases segment_error h with h | h
      · exact .inl h
      · exact .inr ⟨raw, by simp, h⟩
    · rcases Outcome.bind_error.1 h with h | ⟨segments, -, h⟩
      · rcases ih h with h | ⟨raw', hmem, h⟩
        · exact .inl h
        · exact .inr ⟨raw', List.mem_cons_of_mem _ hmem, h⟩
      · cases h

theorem pathRef_syntactic (ht : t.Short) (hk : t.kind = .path) : (pathRef t).Syntactic := by
  intro fault h
  unfold pathRef at h
  cases hsplit : Segment.split t.value with
  | nil => exact absurd hsplit (Segment.split_ne_nil _)
  | cons root parts =>
    simp only [hsplit] at h
    cases hparse : Segment.parseAll (String.ofList t.value) parts with
    | ok segments =>
      simp only [hparse] at h
      cases h
    | error cause =>
      rcases parseAll_error hparse with ⟨message, rfl⟩ | ⟨raw, hmem, name, digits, hindex, hlong⟩
      · simp only [hparse] at h
        cases h
        exact ⟨_, rfl⟩
      · have hshort : digits.length ≤ Text.numeralLimit := by
          apply ht
          simp only [Token.numerals, hk, hsplit, List.tail_cons, List.mem_filterMap]
          exact ⟨raw, hmem, by simp [hindex]⟩
        omega

end Parser

end StoryWorld
