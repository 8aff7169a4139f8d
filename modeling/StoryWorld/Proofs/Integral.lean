import Mathlib.Data.List.Chain
import StoryWorld.Expression.Evaluate
import StoryWorld.Proofs.Parsing

/-!
Expressions over whole numbers are computed exactly.

A calculation is a tree of numerals, signs, sums, differences and products. Written with parentheses
around every compound operand, and with any blanks between the tokens, it is scanned and parsed to
the tree that it is, and evaluated to the whole number that it denotes, whatever the context. Two of
them with a comparison between them come to the truth value of that comparison.
-/

namespace StoryWorld

namespace Integral

/-! ### Calculations -/

/-- A numeral for a whole number, short enough to be read. -/
structure Numeral where
  first : Char
  more : List Char
  isDigit : ∀ c ∈ first :: more, Text.isDigit c = true
  short : (first :: more).length ≤ Text.numeralLimit

namespace Numeral

def text (n : Numeral) : List Char := n.first :: n.more

/-- The number with these digits, in base ten. -/
def denote (n : Numeral) : ℕ :=
  Nat.ofDigits 10 (n.text.map fun c => (Text.digit? c).getD 0).reverse

end Numeral

/-- The operations on whole numbers. -/
inductive Operation where
  | add | sub | mul

namespace Operation

/-- The operation of an expression. -/
def toOp : Operation → ArithmeticOp
  | add => .add
  | sub => .sub
  | mul => .mul

def apply : Operation → ℤ → ℤ → ℤ
  | add, a, b => a + b
  | sub, a, b => a - b
  | mul, a, b => a * b

end Operation

/-- A calculation with whole numbers. -/
inductive Calculation where
  | numeral (n : Numeral)
  | negate (operand : Calculation)
  | combine (op : Operation) (left right : Calculation)

/-- What a calculation is written with. -/
inductive Word where
  | numeral (n : Numeral)
  | sign (op : Operation)
  | comparison (op : ComparisonOp)
  | opening
  | closing

namespace Word

/-- The kind and the value of the token for a word. -/
def token : Word → TokenKind × List Char
  | numeral n => (.number, n.text)
  | sign op => (.arithmetic, [op.toOp.sign])
  | comparison op => (.compare, op.sign)
  | opening => (.lparen, ['('])
  | closing => (.rparen, [')'])

/-- The characters of a word. -/
def text (w : Word) : List Char := w.token.2

/-- Texts of some words in turn, with any blanks before, between and after them. -/
inductive Written : List Word → List Char → Prop
  | nil {gap} (blank : ∀ c ∈ gap, Text.isBlank c = true) : Written [] gap
  | cons {gap w ws rest} (blank : ∀ c ∈ gap, Text.isBlank c = true) (more : Written ws rest) :
    Written (w :: ws) (gap ++ w.text ++ rest)

end Word

namespace Calculation

/-- The whole number that a calculation denotes. -/
def denote : Calculation → ℤ
  | numeral n => n.denote
  | negate operand => -operand.denote
  | combine op left right => op.apply left.denote right.denote

/-- Some words in parentheses. -/
def parenthesized (ws : List Word) : List Word := .opening :: ws ++ [.closing]

/-- The words of an operand: in parentheses, if it is compound. -/
def asOperand (ws : List Word) : Calculation → List Word
  | numeral _ => ws
  | _ => parenthesized ws

/-- The words of a calculation. -/
def words : Calculation → List Word
  | numeral n => [.numeral n]
  | negate operand => .sign .sub :: operand.asOperand operand.words
  | combine op left right =>
    left.asOperand left.words ++ .sign op :: right.asOperand right.words

/-- The tree that a calculation is parsed to. -/
def toExpr : Calculation → Expr
  | numeral n => .literal (.number (.int n.denote))
  | negate operand => .negate operand.toExpr
  | combine op left right => .arithmetic op.toOp left.toExpr right.toExpr

end Calculation

/-! ### From the words to the tokens -/

namespace Word

/-- Whether the second of two words may stand after the first without a blank: nothing that the
first could go on with is there. -/
def Apart (v w : Word) : Prop :=
  ((∃ n, v = .numeral n) → ∀ n, w ≠ .numeral n) ∧
    ((∃ op, v = .comparison op) → ∀ op, w ≠ .comparison op)

/-- The characters that would make a word longer. -/
def continues : Word → Char → Bool
  | numeral _, c => Text.isDigit c || c == '.'
  | comparison _, c => c == '='
  | _, _ => false

theorem exists_text (w : Word) : ∃ c word, w.text = c :: word ∧ Text.isBlank c = false := by
  cases w with
  | numeral n =>
    exact ⟨n.first, n.more, rfl, Text.isBlank_of_isDigit (n.isDigit _ List.mem_cons_self)⟩
  | sign op => cases op <;> exact ⟨_, _, rfl, by decide⟩
  | comparison op => cases op <;> exact ⟨_, _, rfl, by decide⟩
  | opening => exact ⟨_, _, rfl, by decide⟩
  | closing => exact ⟨_, _, rfl, by decide⟩

theorem continues_of_apart {v w : Word} (h : v.Apart w) {c : Char} {word : List Char}
    (hw : w.text = c :: word) : v.continues c = false := by
  cases v with
  | numeral n =>
    cases w with
    | numeral m => exact absurd rfl (h.1 ⟨n, rfl⟩ m)
    | sign op => cases op <;> cases hw <;> rfl
    | comparison op => cases op <;> cases hw <;> rfl
    | opening | closing =>
      cases hw
      rfl
  | comparison op =>
    cases w with
    | numeral m =>
      cases hw
      have hdigit := m.isDigit m.first List.mem_cons_self
      have hne : m.first ≠ '=' := by
        intro heq
        rw [heq] at hdigit
        exact absurd hdigit (by decide)
      simpa [continues] using hne
    | sign op' => cases op' <;> cases hw <;> rfl
    | comparison op' => exact absurd rfl (h.2 ⟨op, rfl⟩ op')
    | opening | closing =>
      cases hw
      rfl
  | _ => rfl

/-- A word is a lexeme wherever it is not continued. -/
theorem lexeme_word (w : Word) {c : Char} {word rest : List Char} (hw : w.text = c :: word)
    (hrest : Json.Stops w.continues rest) :
    Token.lexeme c (word ++ rest) = .ok ⟨w.token.1, w.token.2, (c :: word).length⟩ := by
  cases w with
  | numeral n =>
    cases hw
    have hall := n.isDigit
    rw [List.forall_mem_cons] at hall
    exact Token.lexeme_digits hall.1 hall.2 hrest
  | sign op =>
    cases hw
    exact Token.lexeme_arithmetic op.toOp rest
  | comparison op =>
    have hlexeme := Token.lexeme_comparison op hw hrest
    rw [← hw]
    exact hlexeme
  | opening | closing =>
    cases hw
    rfl

theorem continues_of_isBlank {v : Word} {c : Char} (h : Text.isBlank c = true) :
    v.continues c = false := by
  have hne : ∀ d, Text.isBlank d = false → c ≠ d := by
    rintro d hd rfl
    rw [h] at hd
    cases hd
  cases v with
  | numeral n =>
    have hdigit : Text.isDigit c = false := by
      by_contra hcontra
      rw [Text.isBlank_of_isDigit (by simpa using hcontra)] at h
      cases h
    simp [continues, hdigit, hne '.' (by decide)]
  | comparison op => simp [continues, hne '=' (by decide)]
  | _ => rfl

/-- A word is not continued by what is written after it. -/
theorem stops_of_written {v : Word} {ws : List Word} {s : List Char} (h : Written ws s)
    (hapart : ∀ w ∈ ws.head?, v.Apart w) : Json.Stops v.continues s := by
  intro c hc
  cases h with
  | nil blank => exact continues_of_isBlank (blank c (List.mem_of_mem_head? hc))
  | @cons gap w ws rest blank more =>
    cases gap with
    | cons d gap =>
      obtain rfl : d = c := by simpa using hc
      exact continues_of_isBlank (blank d List.mem_cons_self)
    | nil =>
      obtain ⟨d, word, hw, -⟩ := w.exists_text
      obtain rfl : d = c := by simpa [hw] using hc
      exact continues_of_apart (hapart w rfl) hw

/-- What is written with words that are apart is a text of spaced lexemes. -/
theorem spaced_of_written {ws : List Word} {s : List Char} (h : Written ws s) :
    ws.IsChain Apart → Token.Spaced (ws.map token) s := by
  induction h with
  | nil blank => exact fun _ => .nil blank
  | @cons gap w ws rest blank more ih =>
    intro hchain
    obtain ⟨hhead, htail⟩ := List.isChain_cons.1 hchain
    obtain ⟨c, word, hw, hstart⟩ := w.exists_text
    rw [hw]
    exact .cons blank hstart (lexeme_word w hw (stops_of_written more hhead)) (ih htail)

/-- A word keeps the words around it apart if it is apart from all of them. -/
theorem isChain_insert {w : Word} {before after : List Word} (hbefore : before.IsChain Apart)
    (hafter : after.IsChain Apart) (hleft : ∀ v ∈ before, v.Apart w)
    (hright : ∀ v ∈ after, w.Apart v) : (before ++ w :: after).IsChain Apart := by
  refine List.isChain_append.2 ⟨hbefore, List.isChain_cons.2 ⟨fun v hv => ?_, hafter⟩, ?_⟩
  · exact hright v (List.mem_of_mem_head? hv)
  · intro v hv u hu
    obtain rfl : w = u := by simpa using hu
    exact hleft v (List.mem_of_mem_getLast? hv)

end Word

namespace Calculation

open Word

theorem sign_apart {op : Operation} (v : Word) : v.Apart (.sign op) ∧ (Word.sign op).Apart v := by
  simp [Apart]

theorem opening_apart (v : Word) : Word.opening.Apart v := by
  simp [Apart]

theorem apart_closing (v : Word) : v.Apart .closing := by
  simp [Apart]

theorem isChain_parenthesized {ws : List Word} (h : ws.IsChain Apart) :
    (parenthesized ws).IsChain Apart := by
  have hclosed : (ws ++ [Word.closing]).IsChain Apart :=
    isChain_insert h .nil (fun v _ => apart_closing v) (by simp)
  exact List.isChain_cons.2 ⟨fun v _ => opening_apart v, hclosed⟩

theorem isChain_asOperand {ws : List Word} (h : ws.IsChain Apart) (c : Calculation) :
    (c.asOperand ws).IsChain Apart := by
  cases c with
  | numeral n => exact h
  | _ => exact isChain_parenthesized h

/-- The words of a calculation may stand without blanks between them. -/
theorem isChain_words (c : Calculation) : c.words.IsChain Apart := by
  induction c with
  | numeral n => exact .singleton _
  | negate operand ih =>
    exact List.isChain_cons.2 ⟨fun v _ => (sign_apart v).2, isChain_asOperand ih operand⟩
  | combine op left right ihl ihr =>
    exact isChain_insert (isChain_asOperand ihl left) (isChain_asOperand ihr right)
      (fun v _ => (sign_apart v).1) fun v _ => (sign_apart v).2

theorem mem_parenthesized {w : Word} {ws : List Word} :
    w ∈ parenthesized ws ↔ w = .opening ∨ w ∈ ws ∨ w = .closing := by
  simp [parenthesized]

/-- No word is a comparison. -/
def Plain (ws : List Word) : Prop := ∀ w ∈ ws, ∀ op, w ≠ .comparison op

theorem plain_parenthesized {ws : List Word} (h : Plain ws) : Plain (parenthesized ws) := by
  intro w hw op
  rcases mem_parenthesized.1 hw with rfl | hw | rfl
  · simp
  · exact h w hw op
  · simp

theorem plain_asOperand {ws : List Word} (h : Plain ws) (c : Calculation) :
    Plain (c.asOperand ws) := by
  cases c with
  | numeral n => exact h
  | _ => exact plain_parenthesized h

/-- There is no comparison in a calculation. -/
theorem plain_words (c : Calculation) : Plain c.words := by
  induction c with
  | numeral n => simp [Plain, words]
  | negate operand ih =>
    intro w hw op
    rcases List.mem_cons.1 hw with rfl | hw
    · simp
    · exact plain_asOperand ih operand w hw op
  | combine op' left right ihl ihr =>
    intro w hw op
    rcases List.mem_append.1 hw with hw | hw
    · exact plain_asOperand ihl left w hw op
    · rcases List.mem_cons.1 hw with rfl | hw
      · simp
      · exact plain_asOperand ihr right w hw op

/-- What a calculation is written with as the side of a comparison, in parentheses or not. -/
def IsSide (c : Calculation) (ws : List Word) : Prop := ws = c.words ∨ ws = parenthesized c.words

theorem IsSide.isChain {c : Calculation} {ws : List Word} (h : c.IsSide ws) :
    ws.IsChain Apart := by
  rcases h with rfl | rfl
  · exact isChain_words c
  · exact isChain_parenthesized (isChain_words c)

theorem IsSide.plain {c : Calculation} {ws : List Word} (h : c.IsSide ws) : Plain ws := by
  rcases h with rfl | rfl
  · exact plain_words c
  · exact plain_parenthesized (plain_words c)

theorem isChain_comparison {a b : Calculation} {ws us : List Word} (op : ComparisonOp)
    (ha : a.IsSide ws) (hb : b.IsSide us) : (ws ++ .comparison op :: us).IsChain Apart := by
  refine isChain_insert ha.isChain hb.isChain (fun v hv => ?_) fun v hv => ?_
  · exact ⟨by simp, fun h => absurd h (by simpa using ha.plain v hv)⟩
  · exact ⟨by simp, fun _ => hb.plain v hv⟩

/-! ### From the tokens to the tree -/

open Grammar

/-- Tokens that stand for some words. -/
abbrev Stand (ts : List Token) (ws : List Word) : Prop :=
  List.Forall₂ (fun t (w : Word) => t.Reads w.token.1 w.token.2) ts ws

theorem stand_append {ts : List Token} {ws us : List Word} (h : Stand ts (ws ++ us)) :
    ∃ before after, Stand before ws ∧ Stand after us ∧ ts = before ++ after :=
  ⟨ts.take ws.length, ts.drop ws.length, List.forall₂_take_append ts ws us h,
    List.forall₂_drop_append ts ws us h, (List.take_append_drop _ ts).symm⟩

theorem stand_cons {ts : List Token} {w : Word} {ws : List Word} (h : Stand ts (w :: ws)) :
    ∃ t us, t.Reads w.token.1 w.token.2 ∧ Stand us ws ∧ ts = t :: us :=
  List.forall₂_cons_right_iff.1 h

theorem number_text (n : Numeral) : Parser.number n.text = .ok (.int n.denote) := by
  have hpoint : n.text.contains '.' = false := by
    rw [Bool.eq_false_iff]
    intro hcontains
    have hdigit := n.isDigit '.' (by simpa [Numeral.text] using hcontains)
    exact absurd hdigit (by decide)
  have hshort : n.text.length ≤ Text.numeralLimit := n.short
  rw [Parser.number, hpoint, if_neg (by decide), Text.nat?, if_pos hshort,
    Text.natOfDigits_eq_ofDigits]
  rfl

theorem derives_numeral {n : Numeral} {ts : List Token} (h : Stand ts [.numeral n]) :
    Derives .atom ts (.literal (.number (.int n.denote))) := by
  obtain ⟨t, us, hreads, hus, rfl⟩ := stand_cons h
  obtain rfl := List.forall₂_nil_right_iff.1 hus
  refine .number hreads.1 ?_
  rw [hreads.2]
  exact number_text n

theorem derives_parenthesized {ws : List Word} {ts : List Token} {e : Expr}
    (h : Stand ts (parenthesized ws)) (ih : ∀ us, Stand us ws → Derives .sum us e) :
    Derives .atom ts e := by
  obtain ⟨t, us, hopening, hus, rfl⟩ := stand_cons h
  obtain ⟨inner, last, hinner, hlast, rfl⟩ := stand_append hus
  obtain ⟨u, none, hclosing, hnone, rfl⟩ := stand_cons hlast
  obtain rfl := List.forall₂_nil_right_iff.1 hnone
  exact .parens hopening.1 (ih inner hinner) hclosing.1

theorem derives_asOperand {c : Calculation} {ts : List Token}
    (h : Stand ts (c.asOperand c.words)) (ih : ∀ us, Stand us c.words → Derives .sum us c.toExpr) :
    Derives .atom ts c.toExpr := by
  cases c with
  | numeral n => exact derives_numeral h
  | _ => exact derives_parenthesized h ih

/-- The tokens of a calculation derive its tree. -/
theorem derives_words (c : Calculation) : ∀ ts, Stand ts c.words → Derives .sum ts c.toExpr := by
  induction c with
  | numeral n => exact fun ts h => .sumOfTerm (.termOfUnary (.unaryOfAtom (derives_numeral h)))
  | negate operand ih =>
    intro ts h
    obtain ⟨t, us, hsign, hus, rfl⟩ := stand_cons h
    have hoperand := derives_asOperand hus ih
    exact .sumOfTerm (.termOfUnary (.negate hsign (.unaryOfAtom hoperand)))
  | combine op left right ihl ihr =>
    intro ts h
    obtain ⟨before, after, hbefore, hafter, rfl⟩ := stand_append h
    obtain ⟨t, us, hsign, hus, rfl⟩ := stand_cons hafter
    have hleft := (Derives.termOfUnary (.unaryOfAtom (derives_asOperand hbefore ihl)))
    have hright := Derives.unaryOfAtom (derives_asOperand hus ihr)
    cases op with
    | add => exact .sum (.sumOfTerm hleft) hsign (.inl rfl) (.termOfUnary hright)
    | sub => exact .sum (.sumOfTerm hleft) hsign (.inr rfl) (.termOfUnary hright)
    | mul => exact .sumOfTerm (.term hleft hsign (.inl rfl) hright)

theorem IsSide.derives {c : Calculation} {ws : List Word} (h : c.IsSide ws) {ts : List Token}
    (hts : Stand ts ws) : Derives .sum ts c.toExpr := by
  rcases h with rfl | rfl
  · exact derives_words c ts hts
  · exact .sumOfTerm (.termOfUnary (.unaryOfAtom (derives_parenthesized hts (derives_words c))))

/-- A text in which words that are apart are written is parsed to what their tokens derive. -/
theorem parseText_of_written {ws : List Word} {s : List Char} {e : Expr} (h : Written ws s)
    (hchain : ws.IsChain Apart) (hderives : ∀ ts, Stand ts ws → Expression ts e) :
    Parser.parseText s = .ok e := by
  obtain ⟨ts, hts, hreads⟩ := Token.tokenize_of_spaced (spaced_of_written h hchain)
  rw [Parser.parseText, hts, Outcome.ok_bind]
  exact Parser.parse_of_derives (hderives ts (List.forall₂_map_right_iff.1 hreads))

/-! ### From the tree to the value -/

/-- The tree of a calculation has the number that it denotes for its value, whatever the context. -/
theorem value_toExpr (context : Context) (c : Calculation) :
    c.toExpr.value context = .ok (.int c.denote) := by
  induction c with
  | numeral n => rfl
  | negate operand ih =>
    rw [toExpr, Expr.value, ih]
    rfl
  | combine op left right ihl ihr =>
    rw [toExpr, Expr.value, ihl, ihr]
    cases op <;> rfl

/-- Whether a comparison holds of two whole numbers. -/
def holds : ComparisonOp → ℤ → ℤ → Bool
  | .eq, a, b => a = b
  | .ne, a, b => a ≠ b
  | .gt, a, b => a > b
  | .lt, a, b => a < b
  | .ge, a, b => a ≥ b
  | .le, a, b => a ≤ b

theorem compareValues_int (op : ComparisonOp) (a b : ℤ) :
    Expr.compareValues op (.int a) (.int b) = .ok (holds op a b) := by
  have hequal : (Value.int a).strictEqual (.int b) = .ok (decide (a = b)) := by
    have hsame : (Value.int a).equal (.int b) = decide (a = b) := by
      rw [Bool.eq_iff_iff]
      simp [Value.int, Value.equal, Number.equal, Number.compare?]
    rw [← hsame]
    rfl
  have horder : ∀ r, (Expr.order op r (.int a) (.int b)) = .ok (r.holdsOf (compare a b)) :=
    fun r => rfl
  cases op with
  | eq | ne => simp [Expr.compareValues, Expr.relation?, hequal, holds]
  | gt | lt | ge | le =>
    simp only [Expr.compareValues, Expr.relation?, horder, holds, Relation.holdsOf]
    congr 1
    rw [Bool.eq_iff_iff]
    simp [compare_lt_iff_lt, compare_gt_iff_gt]

theorem evaluate_of_value {context : Context} {text : String} {e : Expr} {v : Value}
    (hparse : Parser.parseText text.toList = .ok e) (hv : e.value context = .ok v)
    (hkind : v.category = .boolean ∨ v.category = .number) :
    Expr.evaluate context text = ([], .ok (.value v)) := by
  have hresult : Expr.result context e = .ok v := by
    rw [Expr.result, hv, Outcome.ok_bind]
    cases v <;> first | rfl | simp [Value.category] at hkind
  rw [Expr.evaluate, hparse, Outcome.ok_bind, hresult]

/-- A calculation is evaluated to the number it denotes, from its text, in every context; and so are
two that are compared to the truth value of the comparison. -/
theorem evaluate_exact (context : Context) (text : String) :
    (∀ c : Calculation, Written c.words text.toList →
      Expr.evaluate context text = ([], .ok (.value (.int c.denote)))) ∧
    ∀ (op : ComparisonOp) (a b : Calculation) (ws us : List Word), a.IsSide ws → b.IsSide us →
      Written (ws ++ .comparison op :: us) text.toList →
        Expr.evaluate context text = ([], .ok (.value (.bool (holds op a.denote b.denote)))) := by
  constructor
  · intro c h
    have hparse :=
      parseText_of_written h (isChain_words c) fun ts hts => .sum (derives_words c ts hts)
    exact evaluate_of_value hparse (value_toExpr context c) (.inr rfl)
  · intro op a b ws us ha hb h
    have hparse : Parser.parseText text.toList = .ok (.comparison op a.toExpr b.toExpr) := by
      refine parseText_of_written h (isChain_comparison op ha hb) fun ts hts => ?_
      obtain ⟨before, after, hbefore, hafter, rfl⟩ := stand_append hts
      obtain ⟨t, rest, hsign, hrest, rfl⟩ := stand_cons hafter
      exact .comparison (ha.derives hbefore) hsign (hb.derives hrest)
    refine evaluate_of_value hparse ?_ (.inl rfl)
    rw [Expr.value, value_toExpr, value_toExpr, Outcome.ok_bind, Outcome.ok_bind, compareValues_int]
    rfl

/-- The numeral of one digit. -/
def digit (c : Char) (h : Text.isDigit c = true) : Numeral :=
  ⟨c, [], by simpa using h, by simp [Text.numeralLimit]⟩

/-- The product of two and three. -/
def product : Calculation :=
  .combine .mul (.numeral (digit '2' (by decide))) (.numeral (digit '3' (by decide)))

/-- Ten thousand and four, in two scripts. -/
def mixed : Numeral :=
  ⟨'1', ['0', '0', '0', '٤'], List.all_eq_true.1 (by decide), by decide⟩

/-- A sum is computed from its text, and a product in parentheses compared, blanks or not. -/
theorem evaluate_exact_sum :
    let context : Context := ⟨none, none, none, none, none, false⟩
    Expr.evaluate context " (-(2 *3))+1000٤" = ([], .ok (.value (.int 9998))) ∧
      Expr.evaluate context "1000٤>=( 2*3)" = ([], .ok (.value (.bool true))) := by
  intro context
  have hnone : ∀ c ∈ ([] : List Char), Text.isBlank c = true := by simp
  have hspace : ∀ c ∈ [' '], Text.isBlank c = true := List.all_eq_true.1 (by decide)
  constructor
  · refine (evaluate_exact context _).1 (.combine .add (.negate product) (.numeral mixed)) ?_
    exact .cons hspace <| .cons hnone <| .cons hnone <| .cons hnone <| .cons hspace <|
      .cons hnone <| .cons hnone <| .cons hnone <| .cons hnone <| .cons hnone <| .nil hnone
  · refine (evaluate_exact context _).2 .ge (.numeral mixed) product _ _ (.inl rfl) (.inr rfl) ?_
    exact .cons hnone <| .cons hnone <| .cons hnone <| .cons hspace <| .cons hnone <|
      .cons hnone <| .cons hnone <| .nil hnone

end Calculation

end Integral

end StoryWorld
