import StoryWorld.Proofs.Tiling

/-!
The parser of prerequisite expressions accepts exactly their grammar.

That a tree which is read has a derivation is shown by induction on the fuel: if the functions
answer by the grammar with so much fuel, then they do with one unit more. That a derived tree is
read is shown by induction on the derivation, with four units of fuel for each token; since the
rules for sums and terms are left recursive, it says how far their loops have come. All other lists
of tokens are refused as syntax errors.
-/

namespace StoryWorld.Parser

open Grammar

variable {t : Token} {ts used rest : List Token} {e : Expr} {fuel : Nat}

/-! ### What is read has a derivation -/

/-- An outcome of reading from the start of some tokens: a tree with a derivation from those that
were read, or else, as long as no numeral is too long, a syntax error. -/
structure Answers (P : List Token → Expr → Prop) (ts : List Token) (x : Step) : Prop where
  sound : (∀ t ∈ ts, t.Proper) →
    ∀ e rest, x = .ok (e, rest) → ∃ used, ts = used ++ rest ∧ P used e
  syntactic : (∀ t ∈ ts, t.Proper) → (∀ t ∈ ts, t.Short) → x.Syntactic

namespace Answers

variable {P Q : List Token → Expr → Prop} {x : Step}

/-- A tree for which no further token is read. -/
theorem ok (he : P [] e) : Answers P ts (.ok (e, ts)) := by
  refine ⟨?_, fun _ _ => by simp⟩
  intro _ e' rest' h
  cases h
  exact ⟨[], rfl, he⟩

theorem refuse (message : String) : Answers P ts (refuse .syntaxError message) :=
  ⟨fun _ _ _ h => by simp at h, fun _ _ => by simp⟩

theorem mono (h : Answers P ts x) (hPQ : ∀ used e, P used e → Q used e) : Answers Q ts x := by
  refine ⟨?_, h.syntactic⟩
  intro hproper e rest hx
  obtain ⟨used, hts, he⟩ := h.sound hproper e rest hx
  exact ⟨used, hts, hPQ used e he⟩

/-- Reading goes on where the first part stopped. -/
theorem bind {f : Expr × List Token → Step} (hx : Answers P ts x)
    (hf : ∀ used rest e, P used e →
      Answers (fun more => Q (used ++ more)) rest (f (e, rest))) : Answers Q ts (x >>= f) := by
  constructor
  · intro hproper e' rest' h
    obtain ⟨⟨e, rest⟩, hone, htwo⟩ := Outcome.bind_ok.1 h
    obtain ⟨used, rfl, he⟩ := hx.sound hproper e rest hone
    have hrest : ∀ t ∈ rest, t.Proper := fun t ht => hproper t (List.mem_append_right _ ht)
    obtain ⟨more, rfl, he'⟩ := (hf used rest e he).sound hrest e' rest' htwo
    exact ⟨used ++ more, by rw [List.append_assoc], he'⟩
  · intro hproper hshort
    refine Outcome.FailsOnly.bind (hx.syntactic hproper hshort) ?_
    rintro ⟨e, rest⟩ hone
    obtain ⟨used, rfl, he⟩ := hx.sound hproper e rest hone
    exact (hf used rest e he).syntactic (fun t ht => hproper t (List.mem_append_right _ ht))
      fun t ht => hshort t (List.mem_append_right _ ht)

/-- The first token has been read already. -/
theorem cons (h : t.Proper → Answers (fun us => P (t :: us)) ts x) : Answers P (t :: ts) x := by
  constructor
  · intro hproper e rest hx
    rw [List.forall_mem_cons] at hproper
    obtain ⟨used, rfl, he⟩ := (h hproper.1).sound hproper.2 e rest hx
    exact ⟨t :: used, rfl, he⟩
  · intro hproper hshort
    rw [List.forall_mem_cons] at hproper hshort
    exact (h hproper.1).syntactic hproper.2 hshort.2

/-- The first token is read for something that is no tree yet. -/
theorem bind_token {α : Type} {y : Outcome α} {f : α → Step} (hy : t.Short → y.Syntactic)
    (hf : ∀ a, y = .ok a → Answers P (t :: ts) (f a)) : Answers P (t :: ts) (y >>= f) := by
  constructor
  · intro hproper e rest h
    obtain ⟨a, ha, h⟩ := Outcome.bind_ok.1 h
    exact (hf a ha).sound hproper e rest h
  · intro hproper hshort
    refine Outcome.FailsOnly.bind (hy (hshort t List.mem_cons_self)) ?_
    intro a ha
    exact (hf a ha).syntactic hproper hshort

end Answers

/-- The functions of the parser answer by the rules of the grammar, if they have so much fuel. -/
structure Sound (fuel : Nat) : Prop where
  sum : ∀ ts, Answers (Derives .sum) ts (sum fuel ts)
  sumRest : ∀ {before left} ts, Derives .sum before left →
    Answers (fun used => Derives .sum (before ++ used)) ts (sumRest fuel left ts)
  term : ∀ ts, Answers (Derives .term) ts (term fuel ts)
  termRest : ∀ {before left} ts, Derives .term before left →
    Answers (fun used => Derives .term (before ++ used)) ts (termRest fuel left ts)
  unary : ∀ ts, Answers (Derives .unary) ts (unary fuel ts)
  atom : ∀ t ts, Answers (Derives .atom) (t :: ts) (atom fuel t ts)

theorem answers_sum (h : Sound fuel) (ts : List Token) :
    Answers (Derives .sum) ts (sum (fuel + 1) ts) :=
  (h.term ts).bind fun _ rest _ he => h.sumRest rest (.sumOfTerm he)

theorem answers_sumRest (h : Sound fuel) {before : List Token} {left : Expr} (ts : List Token)
    (hleft : Derives .sum before left) :
    Answers (fun used => Derives .sum (before ++ used)) ts (sumRest (fuel + 1) left ts) := by
  have hstop : Derives .sum (before ++ []) left := by rwa [List.append_nil]
  cases ts with
  | nil => exact .ok hstop
  | cons t rest =>
    unfold sumRest
    split
    · exact .ok hstop
    · next op hop =>
      obtain ⟨hsign, hop⟩ := additive?_eq_some.1 hop
      refine .cons fun _ => (h.term rest).bind ?_
      intro used rest e he
      simpa using h.sumRest rest (.sum hleft hsign hop he)

theorem answers_term (h : Sound fuel) (ts : List Token) :
    Answers (Derives .term) ts (term (fuel + 1) ts) :=
  (h.unary ts).bind fun _ rest _ he => h.termRest rest (.termOfUnary he)

theorem answers_termRest (h : Sound fuel) {before : List Token} {left : Expr} (ts : List Token)
    (hleft : Derives .term before left) :
    Answers (fun used => Derives .term (before ++ used)) ts (termRest (fuel + 1) left ts) := by
  have hstop : Derives .term (before ++ []) left := by rwa [List.append_nil]
  cases ts with
  | nil => exact .ok hstop
  | cons t rest =>
    unfold termRest
    split
    · exact .ok hstop
    · next op hop =>
      obtain ⟨hsign, hop⟩ := multiplicative?_eq_some.1 hop
      refine .cons fun _ => (h.unary rest).bind ?_
      intro used rest e he
      simpa using h.termRest rest (.term hleft hsign hop he)

theorem answers_unary (h : Sound fuel) (ts : List Token) :
    Answers (Derives .unary) ts (unary (fuel + 1) ts) := by
  cases ts with
  | nil => exact .refuse _
  | cons t rest =>
    unfold unary
    split
    · next hsign =>
      refine .cons fun _ => (h.unary rest).bind ?_
      intro used rest e he
      exact .ok (by simpa using Derives.negate (additive?_eq_some.1 hsign).1 he)
    · exact (h.atom t rest).mono fun _ _ => .unaryOfAtom

/-- The parenthesis that a sum in parentheses ends with. -/
theorem answers_closing (hopen : t.kind = .lparen) {inner : List Token}
    (he : Derives .sum inner e) (ts : List Token) :
    Answers (fun used => Derives .atom (t :: (inner ++ used))) ts
      (match ts with
        | closing :: rest => if closing.kind = .rparen then .ok (e, rest) else unbalanced t
        | [] => unbalanced t) := by
  cases ts with
  | nil => exact .refuse _
  | cons closing rest =>
    dsimp only
    split
    · next hclose => exact .cons fun _ => .ok (.parens hopen he hclose)
    · exact .refuse _

theorem answers_atom (h : Sound fuel) (t : Token) (ts : List Token) :
    Answers (Derives .atom) (t :: ts) (atom (fuel + 1) t ts) := by
  unfold atom
  split
  · next hk =>
    refine .bind_token (fun hshort => number_syntactic hshort hk) ?_
    intro n hn
    exact .cons fun _ => .ok (.number hk hn)
  · next hk => exact .cons fun _ => .ok (.string hk)
  · next hk =>
    refine .cons fun hproper => .ok ?_
    rcases hproper.truth hk with hv | hv
    · have htrue : (t.value == "true".toList) = true := by rw [hv]; rfl
      rw [htrue]
      exact .true ⟨hk, hv⟩
    · have hfalse : (t.value == "true".toList) = false := by rw [hv]; decide
      rw [hfalse]
      exact .false ⟨hk, hv⟩
  · next hk =>
    refine .bind_token (fun hshort => pathRef_syntactic hshort hk) ?_
    intro ref href
    exact .cons fun _ => .ok (.path ((pathRef_ok hk).1 href))
  · next hk =>
    refine .cons fun _ => (h.sum ts).bind ?_
    intro inner rest e he
    exact answers_closing hk he rest
  · exact .refuse _

/-- Without fuel nothing is read, and each unit lets the functions go one rule deeper. -/
theorem sound (fuel : Nat) : Sound fuel := by
  induction fuel with
  | zero =>
    constructor <;> intros <;> exact .refuse _
  | succ fuel ih =>
    exact ⟨answers_sum ih, answers_sumRest ih, answers_term ih, answers_termRest ih,
      answers_unary ih, answers_atom ih⟩

/-! ### What has a derivation is read -/

/-- The tokens do not go on with a sign of a kind. -/
def Stops (sign? : Token → Option ArithmeticOp) (ts : List Token) : Prop :=
  ∀ t ∈ ts.head?, sign? t = none

theorem stops_nil (sign? : Token → Option ArithmeticOp) : Stops sign? [] := by simp [Stops]

theorem stops_cons {sign? : Token → Option ArithmeticOp} :
    Stops sign? (t :: ts) ↔ sign? t = none := by
  simp [Stops]

theorem sumRest_stop (hfuel : 0 < fuel) (h : Stops additive? ts) :
    sumRest fuel e ts = .ok (e, ts) := by
  obtain ⟨fuel, rfl⟩ := Nat.exists_eq_add_one.2 hfuel
  cases ts with
  | nil => rfl
  | cons t ts => simp [sumRest, stops_cons.1 h]

theorem termRest_stop (hfuel : 0 < fuel) (h : Stops multiplicative? ts) :
    termRest fuel e ts = .ok (e, ts) := by
  obtain ⟨fuel, rfl⟩ := Nat.exists_eq_add_one.2 hfuel
  cases ts with
  | nil => rfl
  | cons t ts => simp [termRest, stops_cons.1 h]

theorem additive?_of_kind (h : t.kind ≠ .arithmetic) : additive? t = none := by
  simp [additive?, h]

theorem multiplicative?_of_kind (h : t.kind ≠ .arithmetic) : multiplicative? t = none := by
  simp [multiplicative?, h]

/-- A sign of addition or subtraction is none of multiplication or division. -/
theorem multiplicative?_of_additive? {op : ArithmeticOp} (h : additive? t = some op) :
    multiplicative? t = none := by
  obtain ⟨⟨hk, hv⟩, rfl | rfl⟩ := additive?_eq_some.1 h <;>
    simp [multiplicative?, hk, hv, ArithmeticOp.sign]

/-- A tree is read by the function of its rule wherever its tokens stand, given four units of fuel
for each of them. Sums and terms are read up to the loop that looks for further operands. -/
def Completes : Rule → List Token → Expr → Prop
  | .sum, used, e => ∀ fuel rest, 4 * used.length ≤ fuel → Stops multiplicative? rest →
    ∃ more, fuel ≤ more + used.length ∧ sum fuel (used ++ rest) = sumRest more e rest
  | .term, used, e => ∀ fuel rest, 4 * used.length ≤ fuel + 1 →
    ∃ more, fuel ≤ more + used.length ∧ term fuel (used ++ rest) = termRest more e rest
  | .unary, used, e => ∀ fuel rest, 4 * used.length ≤ fuel + 2 →
    unary fuel (used ++ rest) = .ok (e, rest)
  | .atom, used, e => ∃ t us, used = t :: us ∧ additive? t = none ∧
    ∀ fuel rest, 4 * used.length ≤ fuel + 3 → atom fuel t (us ++ rest) = .ok (e, rest)

theorem derives_length {rule : Rule} (h : Derives rule ts e) : 0 < ts.length := by
  induction h with
  | sumOfTerm _ ih | termOfUnary _ ih | unaryOfAtom _ ih => exact ih
  | _ => simp only [List.length_append, List.length_cons]; omega

theorem completes_atom_one (hk : t.kind ≠ .arithmetic)
    (h : ∀ fuel rest, atom (fuel + 1) t rest = .ok (e, rest)) : Completes .atom [t] e := by
  refine ⟨t, [], rfl, additive?_of_kind hk, ?_⟩
  intro fuel rest hfuel
  obtain ⟨fuel, rfl⟩ := Nat.exists_eq_add_one.2 (show 0 < fuel by simp at hfuel; omega)
  exact h fuel rest

theorem completes_parens {u : Token} (opening : t.kind = .lparen) (closing : u.kind = .rparen)
    (ih : Completes .sum ts e) : Completes .atom (t :: ts ++ [u]) e := by
  refine ⟨t, ts ++ [u], by simp, additive?_of_kind (by simp [opening]), ?_⟩
  intro fuel rest hfuel
  simp only [List.length_append, List.length_cons, List.length_nil] at hfuel
  obtain ⟨fuel, rfl⟩ := Nat.exists_eq_add_one.2 (show 0 < fuel by omega)
  -- the closing parenthesis ends the loop of the sum inside, and that of its last term
  have hu : u.kind ≠ .arithmetic := by simp [closing]
  obtain ⟨more, hmore, hsum⟩ := ih fuel (u :: rest) (by omega)
    (stops_cons.2 (multiplicative?_of_kind hu))
  have hstop : sumRest more e (u :: rest) = .ok (e, u :: rest) :=
    sumRest_stop (by omega) (stops_cons.2 (additive?_of_kind hu))
  simp [atom, opening, closing, hsum, hstop, Outcome.ok_bind]

theorem completes_unaryOfAtom (ih : Completes .atom ts e) : Completes .unary ts e := by
  obtain ⟨t, us, rfl, hsign, hatom⟩ := ih
  intro fuel rest hfuel
  obtain ⟨fuel, rfl⟩ := Nat.exists_eq_add_one.2 (show 0 < fuel by simp at hfuel; omega)
  simpa [unary, hsign] using hatom fuel rest (by omega)

theorem completes_negate (sign : t.Reads .arithmetic ['-']) (ih : Completes .unary ts e) :
    Completes .unary (t :: ts) (.negate e) := by
  intro fuel rest hfuel
  simp only [List.length_cons] at hfuel
  obtain ⟨fuel, rfl⟩ := Nat.exists_eq_add_one.2 (show 0 < fuel by omega)
  have hsign : additive? t = some .sub := additive?_eq_some.2 ⟨sign, .inr rfl⟩
  have hoperand := ih fuel rest (by omega)
  simp [unary, hsign, hoperand]

theorem completes_termOfUnary (hlen : 0 < ts.length) (ih : Completes .unary ts e) :
    Completes .term ts e := by
  intro fuel rest hfuel
  obtain ⟨fuel, rfl⟩ := Nat.exists_eq_add_one.2 (show 0 < fuel by omega)
  refine ⟨fuel, by omega, ?_⟩
  have hunary := ih fuel rest (by omega)
  simp [term, hunary, Outcome.ok_bind]

theorem completes_term {us : List Token} {a b : Expr} {op : ArithmeticOp}
    (hlen : 0 < us.length) (hsign : multiplicative? t = some op) (ihl : Completes .term ts a)
    (ihr : Completes .unary us b) : Completes .term (ts ++ t :: us) (.arithmetic op a b) := by
  intro fuel rest hfuel
  simp only [List.length_append, List.length_cons] at hfuel ⊢
  obtain ⟨more, hmore, hleft⟩ := ihl fuel (t :: us ++ rest) (by omega)
  obtain ⟨more, rfl⟩ := Nat.exists_eq_add_one.2 (show 0 < more by omega)
  refine ⟨more, by omega, ?_⟩
  have hright := ihr more rest (by omega)
  rw [List.append_assoc, hleft]
  simp [termRest, hsign, hright, Outcome.ok_bind]

theorem completes_sumOfTerm (hlen : 0 < ts.length) (ih : Completes .term ts e) :
    Completes .sum ts e := by
  intro fuel rest hfuel hstop
  obtain ⟨fuel, rfl⟩ := Nat.exists_eq_add_one.2 (show 0 < fuel by omega)
  refine ⟨fuel, by omega, ?_⟩
  obtain ⟨more, hmore, hterm⟩ := ih fuel rest (by omega)
  rw [termRest_stop (by omega) hstop] at hterm
  simp [sum, hterm, Outcome.ok_bind]

theorem completes_sum {us : List Token} {a b : Expr} {op : ArithmeticOp}
    (hlen : 0 < us.length) (hsign : additive? t = some op) (ihl : Completes .sum ts a)
    (ihr : Completes .term us b) : Completes .sum (ts ++ t :: us) (.arithmetic op a b) := by
  intro fuel rest hfuel hstop
  simp only [List.length_append, List.length_cons] at hfuel ⊢
  obtain ⟨more, hmore, hleft⟩ := ihl fuel (t :: us ++ rest) (by omega)
    (stops_cons.2 (multiplicative?_of_additive? hsign))
  obtain ⟨more, rfl⟩ := Nat.exists_eq_add_one.2 (show 0 < more by omega)
  refine ⟨more, by omega, ?_⟩
  obtain ⟨last, hlast, hright⟩ := ihr more rest (by omega)
  rw [termRest_stop (by omega) hstop] at hright
  rw [List.append_assoc, hleft]
  simp [sumRest, hsign, hright, Outcome.ok_bind]

/-- Every derived tree is read. -/
theorem completes {rule : Rule} (h : Derives rule ts e) : Completes rule ts e := by
  induction h with
  | sumOfTerm h ih => exact completes_sumOfTerm (derives_length h) ih
  | sum left sign hop right ihl ihr =>
    exact completes_sum (derives_length right) (additive?_eq_some.2 ⟨sign, hop⟩) ihl ihr
  | termOfUnary h ih => exact completes_termOfUnary (derives_length h) ih
  | term left sign hop right ihl ihr =>
    exact completes_term (derives_length right) (multiplicative?_eq_some.2 ⟨sign, hop⟩) ihl ihr
  | unaryOfAtom h ih => exact completes_unaryOfAtom ih
  | negate sign operand ih => exact completes_negate sign ih
  | number kind h => exact completes_atom_one (by simp [kind]) fun _ _ => by simp [atom, kind, h]
  | string kind => exact completes_atom_one (by simp [kind]) fun _ _ => by simp [atom, kind]
  | true h => exact completes_atom_one (by simp [h.1]) fun _ _ => by simp [atom, h.1, h.2]
  | false h => exact completes_atom_one (by simp [h.1]) fun _ _ => by simp [atom, h.1, h.2]
  | path h =>
    exact completes_atom_one (by simp [h.kind_eq]) fun _ _ => by
      simp [atom, h.kind_eq, (pathRef_ok h.kind_eq).2 h]
  | parens opening inner closing ih => exact completes_parens opening closing ih

/-! ### Whole expressions -/

/-- No rule for operands has a keyword in it. -/
theorem no_keyword {rule : Rule} (h : Derives rule ts e) : ∀ t ∈ ts, t.kind ≠ .keyword := by
  induction h with
  | sumOfTerm _ ih | termOfUnary _ ih | unaryOfAtom _ ih => exact ih
  | sum _ sign _ _ ihl ihr | term _ sign _ _ ihl ihr =>
    intro t ht
    rcases List.mem_append.1 ht with ht | ht
    · exact ihl t ht
    · rcases List.mem_cons.1 ht with rfl | ht
      · simp [sign.1]
      · exact ihr t ht
  | negate sign _ ih => exact List.forall_mem_cons.2 ⟨by simp [sign.1], ih⟩
  | number kind | string kind => simp [kind]
  | true h | false h => simp [h.1]
  | path h => simp [h.kind_eq]
  | parens opening _ closing ih =>
    intro t ht
    simp only [List.cons_append, List.mem_cons, List.mem_append, List.not_mem_nil, or_false] at ht
    rcases ht with rfl | ht | rfl
    · simp [opening]
    · exact ih t ht
    · simp [closing]

/-- Enough fuel reads a sum up to a token that cannot go on with it. -/
theorem sum_of_derives (h : Derives .sum used e) (hfuel : 4 * used.length < fuel)
    (hmul : Stops multiplicative? rest) (hadd : Stops additive? rest) :
    sum fuel (used ++ rest) = .ok (e, rest) := by
  obtain ⟨more, hmore, hsum⟩ := completes h fuel rest (by omega) hmul
  rw [hsum, sumRest_stop (by omega) hadd]

theorem sum_of_derives_all (h : Derives .sum ts e) : sum (fuelFor ts) ts = .ok (e, []) := by
  have hfuel : 4 * ts.length < fuelFor ts := by
    unfold fuelFor
    omega
  have hsum := sum_of_derives h hfuel (stops_nil _) (stops_nil _)
  rwa [List.append_nil] at hsum

theorem answers_compared (ts : List Token) : Answers Expression ts (compared ts) := by
  refine ((sound (fuelFor ts)).sum ts).bind ?_
  intro before rest left hleft
  have hstop : Expression (before ++ []) left := by
    rw [List.append_nil]
    exact .sum hleft
  cases rest with
  | nil => exact .ok hstop
  | cons t after =>
    dsimp only
    split
    · next op hop =>
      refine .cons fun _ => ((sound (fuelFor after)).sum after).bind ?_
      intro used rest right hright
      exact .ok (by simpa using .comparison hleft (comparison?_eq_some.1 hop) hright)
    · exact .ok hstop

theorem answers_keyword {head word : Token} (hword : word.kind = .keyword) {ref : PathRef}
    (href : head.IsPath ref) (ts : List Token) :
    Answers Expression (head :: word :: ts)
      (if word.value = "exists".toList then return (.present ref, ts)
      else do
        let (needle, rest) ← sum (fuelFor ts) ts
        return (.includes ref needle, rest)) := by
  refine .cons fun _ => .cons fun hproper => ?_
  split
  · next hexists => exact .ok (.present href ⟨hword, hexists⟩)
  · next hexists =>
    have hincludes : word.value = "includes".toList := (hproper.keyword hword).resolve_left hexists
    refine ((sound (fuelFor ts)).sum ts).bind ?_
    intro used rest needle hneedle
    exact .ok (by simpa using .includes href ⟨hword, hincludes⟩ hneedle)

theorem answers_expression (ts : List Token) : Answers Expression ts (expression ts) := by
  unfold expression
  split
  · next head word rest =>
    split
    · next hkinds =>
      refine .bind_token (fun hshort => pathRef_syntactic hshort hkinds.1) ?_
      intro ref href
      exact answers_keyword hkinds.2 ((pathRef_ok hkinds.1).1 href) rest
    · exact answers_compared _
  · exact answers_compared _

/-- Without a keyword, an expression is a comparison or a sum. -/
theorem expression_eq_compared (h : ∀ t ∈ ts, t.kind ≠ .keyword) :
    expression ts = compared ts := by
  unfold expression
  split
  · next head word rest =>
    exact if_neg fun hkinds => h word (by simp) hkinds.2
  · rfl

theorem expression_of_derives (h : Expression ts e) : expression ts = .ok (e, []) := by
  cases h with
  | present path word =>
    simp [expression, path.kind_eq, word.1, word.2, (pathRef_ok path.kind_eq).2 path]
  | includes path word needle =>
    simp [expression, path.kind_eq, word.1, word.2, (pathRef_ok path.kind_eq).2 path,
      sum_of_derives_all needle, Outcome.ok_bind]
  | sum h =>
    rw [expression_eq_compared (no_keyword h)]
    simp [compared, sum_of_derives_all h, Outcome.ok_bind]
  | @comparison ts us a b t op left sign right =>
    -- a keyword in second place would be taken for the one after a path
    have hkind : t.kind ≠ .arithmetic := by simp [sign.1]
    have hnone : ∀ u ∈ ts ++ t :: us, u.kind ≠ .keyword := by
      intro u hu
      rcases List.mem_append.1 hu with hu | hu
      · exact no_keyword left u hu
      · rcases List.mem_cons.1 hu with rfl | hu
        · simp [sign.1]
        · exact no_keyword right u hu
    have hleft : sum (fuelFor (ts ++ t :: us)) (ts ++ t :: us) = .ok (a, t :: us) :=
      sum_of_derives left (by simp only [fuelFor, List.length_append]; omega)
        (stops_cons.2 (multiplicative?_of_kind hkind)) (stops_cons.2 (additive?_of_kind hkind))
    rw [expression_eq_compared hnone]
    simp [compared, hleft, comparison?_eq_some.2 sign, sum_of_derives_all right, Outcome.ok_bind]

theorem expression_ne_nil (h : Expression ts e) : ts ≠ [] := by
  cases h with
  | sum h => exact List.ne_nil_of_length_pos (derives_length h)
  | _ => simp

theorem parse_of_derives (h : Expression ts e) : parse ts = .ok e := by
  simp [parse, expression_ne_nil h, expression_of_derives h, Outcome.ok_bind]

/-- The parser accepts a list of proper tokens exactly with the tree that they derive. -/
theorem parse_ok_iff (hproper : ∀ t ∈ ts, t.Proper) : parse ts = .ok e ↔ Expression ts e := by
  refine ⟨?_, parse_of_derives⟩
  intro h
  unfold parse at h
  split at h
  · simp at h
  · obtain ⟨⟨e', rest⟩, hread, h⟩ := Outcome.bind_ok.1 h
    obtain ⟨used, hts, hderives⟩ := (answers_expression ts).sound hproper e' rest hread
    cases rest with
    | nil =>
      cases h
      rwa [hts, List.append_nil]
    | cons t rest => simp at h

/-- Whatever else is wrong with short tokens is a syntax error. -/
theorem parse_syntactic (hproper : ∀ t ∈ ts, t.Proper) (hshort : ∀ t ∈ ts, t.Short) :
    (parse ts).Syntactic := by
  unfold parse
  split
  · simp
  · refine Outcome.FailsOnly.bind ((answers_expression ts).syntactic hproper hshort) ?_
    rintro ⟨e, rest⟩ -
    cases rest <;> simp

end StoryWorld.Parser
