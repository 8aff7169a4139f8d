import StoryWorld.Proofs.Accounts
import StoryWorld.Proofs.Intact
import StoryWorld.Proofs.Parsing
import StoryWorld.Proofs.Values

/-!
When the evaluation of a condition comes to a finding.

In a context of entities that were read, every path is followed or refused, and every comparison
decided or refused. What is left are numbers that are too large: a numeral with too many digits, a
sum of a float with a whole number that no float comes near to, a quotient that no float comes near
to, a numeral that is too long to be looked for in a text. An evaluation that meets none of these
comes to a truth value or a number, or to a failure with a code; one that does comes to nothing.
-/

namespace StoryWorld

open Outcome Schema

/-! ### The values that are derived -/

namespace Story

variable {story : Story} {limited : Bool} {character : Value}

theorem powersOf_ok (character : Value) : ∀ {offices : List Value},
    (∀ office ∈ offices, Schema.typed limited Kind.office.shape office = true) →
      ∃ powers, powersOf character offices = .ok powers
  | [], _ => ⟨[], rfl⟩
  | office :: rest, h => by
    rw [List.forall_mem_cons] at h
    obtain ⟨others, hothers⟩ := powersOf_ok character h.2
    obtain ⟨powers, hpowers, -⟩ := get_list "powers" rfl h.1 rfl rfl
    rw [powersOf, fieldIs_of_typed "owner" rfl h.1, ok_bind, hothers]
    split
    · rw [hpowers]
      exact ⟨_, rfl⟩
    · exact ⟨_, rfl⟩

theorem secretsKnownBy_ok (h : story.Entities limited) (character : Value) :
    ∃ secrets, story.secretsKnownBy character = .ok secrets ∧
      ∀ secret ∈ secrets, secret ∈ story.secrets.items := by
  have hknown : ∀ secret ∈ story.secrets.items, (do
      let holders ← secret.get "holders"
      character.member holders) =
        .ok ((secret.field "holders").items.any fun x => x.equal character) := by
    intro secret hs
    obtain ⟨holders, hholders, -⟩ := get_list "holders" rfl (h.secrets secret hs) rfl rfl
    rw [hholders, ok_bind, Value.field_of_get hholders]
    rfl
  refine ⟨_, selectItems_of_ok hknown, fun secret hs => List.mem_of_mem_filter hs⟩

end Story

namespace Context

variable {context : Context}

section Derived

variable {limited : Bool} {character : Value}
  (h : Schema.typed limited Kind.character.shape character = true)
  (hstory : ∀ story ∈ context.story, story.Entities limited)
include h

theorem locationOf_ok : ∃ status x, character.get "status" = .ok status ∧
    status.get "location_id" = .ok x ∧ locationOf character = .ok x := by
  obtain ⟨status, hstatus, hinner, -⟩ := get_of_typed "status" rfl h rfl
  obtain ⟨x, hx, -⟩ := exists_get "location_id" rfl hinner
  exact ⟨status, x, hstatus, hx, by rw [locationOf, hstatus, ok_bind, hx]⟩

include hstory

theorem officesOf_ok : ∃ xs, officesOf context character = .ok (.list xs) ∧
    ∀ x ∈ xs, ∃ s, x = .text s := by
  obtain ⟨id, hid, -⟩ := exists_get "id" rfl h
  unfold officesOf
  cases hs : context.story with
  | none => exact ⟨[], rfl, by simp⟩
  | some story =>
    obtain ⟨powers, hpowers⟩ := Story.powersOf_ok id (hstory story hs).offices
    refine ⟨powers.map fun power => .text ("powers." ++ power.shownText), ?_, by simp⟩
    simp only [hid, ok_bind, Story.officePowers, hpowers]
    rfl

theorem knowledgeOf_ok : ∃ xs, knowledgeOf context character = .ok (.list xs) ∧
    ∀ x ∈ xs, ∃ s, x = .text s := by
  obtain ⟨id, hid, -⟩ := exists_get "id" rfl h
  unfold knowledgeOf
  cases hs : context.story with
  | none => exact ⟨[], rfl, by simp⟩
  | some story =>
    obtain ⟨secrets, hsecrets, hmem⟩ := Story.secretsKnownBy_ok (hstory story hs) id
    have hids : ∀ secret ∈ secrets, ∃ s, secret.get "id" = .ok (.text s) := fun secret hsecret =>
      get_text "id" rfl ((hstory story hs).secrets secret (hmem secret hsecret)) rfl rfl
    obtain ⟨ids, hget, hfrom⟩ := @Outcome.mapM_ok _ _ (Value.get "id") secrets fun secret hsecret =>
      (hids secret hsecret).imp' Value.text fun _ hs => hs
    refine ⟨ids, ?_, fun x hx => ?_⟩
    · simp only [hid, ok_bind, hsecrets, hget]
      rfl
    · obtain ⟨secret, hsecret, heq⟩ := hfrom x hx
      obtain ⟨s, hs⟩ := hids secret hsecret
      exact ⟨s, Except.ok.inj (heq.symm.trans hs)⟩

/-- The values that are derived for a typed character are there: a place that its status tells, or
texts. -/
theorem derived_ok (ref : PathRef) : ∃ found, derived context ref character = .ok found ∧
    ∀ v ∈ found, locationOf character = .ok v ∨
      ∃ xs, v = .list xs ∧ ∀ x ∈ xs, ∃ s, x = .text s := by
  obtain ⟨-, x, -, -, hlocation⟩ := locationOf_ok h
  obtain ⟨offices, hoffices, hpowers⟩ := officesOf_ok h hstory
  obtain ⟨known, hknown, hids⟩ := knowledgeOf_ok h hstory
  unfold derived
  split
  · exact ⟨none, rfl, by simp⟩
  · split
    · exact ⟨some x, by rw [hlocation]; rfl, by simp [hlocation]⟩
    · refine ⟨some (.list offices), by rw [hoffices]; rfl, ?_⟩
      rintro v ⟨⟩
      exact .inr ⟨offices, rfl, hpowers⟩
    · refine ⟨some (.list known), by rw [hknown]; rfl, ?_⟩
      rintro v ⟨⟩
      exact .inr ⟨known, rfl, hids⟩
    · exact ⟨none, rfl, by simp⟩

end Derived

/-! ### Following a path of a condition -/

/-- A role is bound to an entity, or it is refused. -/
theorem answered_roleValue {root : String} : (context.roleValue root).Answered := by
  unfold roleValue
  split <;> simp

theorem role?_of_roleValue {root : String} {v : Value} (h : context.roleValue root = .ok v) :
    context.role? root = some (some v) := by
  unfold roleValue at h
  split at h
  · cases h
  · cases h
  · next found => rw [found, Except.ok.inj h]

/-- The entities that a context binds were read, and so was its story. -/
structure IsRead (context : Context) : Prop where
  actor : ∀ v ∈ context.actor, Held Kind.character.shape v
  target : ∀ v ∈ context.target, Held Kind.character.shape v
  world : ∀ v ∈ context.world, Held Kind.world.shape v
  relationship : ∀ v ∈ context.relationship, Held Kind.relationship.shape v
  story : ∀ story ∈ context.story, ∃ document, document.isDocument = true ∧
    Story.read document = .ok story

theorem IsRead.entities (h : context.IsRead) : ∀ story ∈ context.story, story.Entities false := by
  intro story hs
  obtain ⟨document, hd, hread⟩ := h.story story hs
  exact Story.entities_of_typed (Story.typed_of_read hd hread)

/-- What a role stands for is intact, and a character where values are derived for it. -/
theorem IsRead.role (h : context.IsRead) {root : String} {v : Value}
    (hv : context.roleValue root = .ok v) :
    v.Intact ∧ (root = "actor" ∨ root = "target" → Held Kind.character.shape v) := by
  have hrole := role?_of_roleValue hv
  unfold role? at hrole
  split at hrole
  · have hheld := h.actor v (Option.some.inj hrole)
    exact ⟨intact_of_held rfl rfl hheld, fun _ => hheld⟩
  · split at hrole
    · have hheld := h.target v (Option.some.inj hrole)
      exact ⟨intact_of_held rfl rfl hheld, fun _ => hheld⟩
    · next hactor htarget =>
      refine ⟨?_, fun hroot => absurd hroot (by simp [hactor, htarget])⟩
      split at hrole
      · exact intact_of_held rfl rfl (h.world v (Option.some.inj hrole))
      · split at hrole
        · exact intact_of_held rfl rfl (h.relationship v (Option.some.inj hrole))
        · cases hrole

/-- The value that is derived for a path, if one is, is there and intact. -/
theorem IsRead.derived (h : context.IsRead) {ref : PathRef} {start : Value} (hintact : start.Intact)
    (hcharacter : ref.root = "actor" ∨ ref.root = "target" → Held Kind.character.shape start) :
    ∃ found, derived context ref start = .ok found ∧ ∀ v ∈ found, v.Intact := by
  by_cases hroot : ref.root = "actor" ∨ ref.root = "target"
  · have htyped := typed_of_kind rfl (hcharacter hroot)
    obtain ⟨found, hfound, hfrom⟩ := derived_ok htyped h.entities ref
    refine ⟨found, hfound, fun v hv => ?_⟩
    rcases hfrom v hv with hlocation | ⟨xs, rfl, htexts⟩
    · obtain ⟨status, x, hstatus, hx, heq⟩ := locationOf_ok htyped
      obtain rfl := Except.ok.inj (heq.symm.trans hlocation)
      exact (hintact.get hstatus).get hx
    · refine .list fun x hx => ?_
      obtain ⟨s, rfl⟩ := htexts x hx
      exact .text s
  · rw [not_or] at hroot
    exact ⟨none, by rw [Context.derived, if_pos hroot], by simp⟩

/-- A path of a condition leads to an intact value, or it is refused. -/
theorem IsRead.resolve (h : context.IsRead) (ref : PathRef) :
    (context.resolve ref).Answered ∧ ∀ v, context.resolve ref = .ok v → v.Intact := by
  unfold Context.resolve
  cases hstart : context.roleValue ref.root with
  | error fault =>
    refine ⟨?_, by simp [bind, Except.bind]⟩
    exact failsOnly_error.2 (answered_roleValue fault hstart)
  | ok start =>
    obtain ⟨hintact, hcharacter⟩ := h.role hstart
    rw [ok_bind]
    obtain ⟨found, hfound, hderived⟩ := h.derived hintact hcharacter
    rw [hfound, ok_bind]
    cases found with
    | some v => exact ⟨failsOnly_ok _, fun w hw => Except.ok.inj hw ▸ hderived v rfl⟩
    | none =>
      simp only
      split
      · exact ⟨failsOnly_ok _, fun w hw => Except.ok.inj hw ▸ hintact⟩
      · obtain ⟨hanswered, hfollow⟩ := @Locate.answered_locate ref.text _ ref.segments hintact
        constructor
        · refine .bind hanswered fun steps hsteps => ?_
          obtain ⟨w, hw, -⟩ := hfollow steps hsteps
          rw [hw]
          exact failsOnly_ok _
        · intro v hv
          obtain ⟨steps, hsteps, hv⟩ := bind_ok.1 hv
          obtain ⟨w, hw, hintact⟩ := hfollow steps hsteps
          rw [hw] at hv
          exact Except.ok.inj hv ▸ hintact.ownedAt _

end Context

/-! ### Reading the text -/

namespace Token

/-- A text that is not all tokens is refused. -/
theorem scan_syntactic : ∀ {s : List Char} {position skip : ℕ}, (scan position skip s).Syntactic
  | [], _, _ => by simp [scan]
  | c :: rest, position, skip + 1 => by
    rw [scan]
    exact scan_syntactic
  | c :: rest, position, 0 => by
    rw [scan]
    split
    · exact scan_syntactic
    · split
      · simp
      · exact .bind scan_syntactic fun _ _ => failsOnly_pure _

end Token

/-- A text whose whole numerals are of readable length is parsed or refused. -/
theorem Parser.answered_parseText {s : List Char}
    (hshort : ∀ ts, Token.tokenize s = .ok ts → ∀ t ∈ ts, t.Short) : (parseText s).Answered := by
  have hsyntactic : (parseText s).Syntactic := by
    refine .bind Token.scan_syntactic fun ts hts => ?_
    exact parse_syntactic (Token.proper_of_tokenize hts) (hshort ts hts)
  intro fault hfault
  obtain ⟨message, rfl⟩ := hsyntactic fault hfault
  exact ⟨_, _, rfl⟩

/-! ### Arithmetic -/

theorem Outcome.answered_ofSize {α : Type} {x : Option α} :
    (ofSize x).Answered ↔ x.isSome = true := by
  cases x <;> simp [ofSize]

/-- An operation in two parts is answered just if its parts are. -/
theorem Outcome.answered_bind {α β : Type} {x : Outcome α} {f : α → Outcome β} :
    (x >>= f).Answered ↔ x.Answered ∧ ∀ a, x = .ok a → (f a).Answered := by
  cases x with
  | error fault => simp [bind, Except.bind]
  | ok a => simp [ok_bind]

theorem Outcome.answered_map {α β : Type} {x : Outcome α} {f : α → β} :
    Answered (x.map f) ↔ x.Answered := by
  cases x <;> simp [Except.map]

namespace Expr

/-- Whether an operation on two numbers comes to a number. Two whole numbers always have a sum, a
difference and a product; their quotient has to be rounded to a finite float. As soon as a float
takes part, both have to fit floats. -/
def Combinable : ArithmeticOp → Number → Number → Prop
  | .div, .int m, .int n => n = 0 ∨ Binary.bitsOf |(m : ℚ) / n| < Binary.infinityBits
  | .div, a, b => b.isZero = true ∨ a.fits = true ∧ b.fits = true
  | _, .int _, .int _ => True
  | _, a, b => a.fits = true ∧ b.fits = true

theorem isSome_div?_int {m n : ℤ} (hn : n ≠ 0) : ((Number.int m).div? (.int n)).isSome = true ↔
    Binary.bitsOf |(m : ℚ) / n| < Binary.infinityBits := by
  have hpos : 0 < n.natAbs := Int.natAbs_pos.2 hn
  rw [Number.div?, Binary.isSome_ofQuotient?, Binary.bitsOfQuotient_eq_bitsOf hpos, abs_div,
    Nat.cast_natAbs, Nat.cast_natAbs, Int.cast_abs, Int.cast_abs]

theorem isZero_int {n : ℤ} : (Number.int n).isZero = true ↔ n = 0 := by
  simp [Number.isZero, Number.equal, Number.compare?]

theorem answered_quotient {a b : Number} : (quotient a b).Answered ↔ Combinable .div a b := by
  have hdiv : b.isZero = false → ((quotient a b).Answered ↔ (a.div? b).isSome = true) := by
    intro hzero
    rw [quotient, hzero, if_neg Bool.false_ne_true, answered_map, answered_ofSize]
  have hfloat : (a.toFloat? >>= fun x => b.toFloat? >>= fun y => some (x / y)).isSome = true ↔
      a.fits = true ∧ b.fits = true := by
    unfold Number.fits
    cases a.toFloat? <;> cases b.toFloat? <;> simp
  cases hzero : b.isZero with
  | true =>
    refine iff_of_true (by simp [quotient, hzero]) ?_
    cases a with
    | float x => exact .inl hzero
    | int m =>
      cases b with
      | float y => exact .inl hzero
      | int n => exact .inl (isZero_int.1 hzero)
  | false =>
    rw [hdiv hzero]
    cases a with
    | float x =>
      rw [Combinable, hzero, or_iff_right Bool.false_ne_true]
      · exact hfloat
      · simp
    | int m =>
      cases b with
      | float y =>
        rw [Combinable, hzero, or_iff_right Bool.false_ne_true]
        · exact hfloat
        · simp
      | int n =>
        have hn : n ≠ 0 := fun hn => by simp [isZero_int.2 hn] at hzero
        rw [isSome_div?_int hn, Combinable, or_iff_right hn]

theorem answered_combine {op : ArithmeticOp} (hop : op ≠ .div) {whole : Int → Int → Int}
    {real : Float → Float → Float} {a b : Number} :
    (ofSize (Number.combine? whole real a b)).Answered ↔ Combinable op a b := by
  rw [answered_ofSize, Number.combine?_isSome]
  cases op with
  | div => exact absurd rfl hop
  | _ =>
    cases a with
    | float x => simp [Combinable]
    | int m => cases b <;> simp [Combinable]

/-- Arithmetic is answered just if the operands, where both are numbers, can be combined. -/
theorem answered_calculate {op : ArithmeticOp} {left right : Value} :
    (calculate op left right).Answered ↔
      ∀ a b, left = .number a → right = .number b → Combinable op a b := by
  have hnumbers : ∀ {v : Value}, (∀ n, v ≠ .number n) → v.number? = none := by
    intro v hv
    cases v with
    | number n => exact absurd rfl (hv n)
    | _ => rfl
  by_cases hleft : ∃ a, left = .number a
  · obtain ⟨a, rfl⟩ := hleft
    by_cases hright : ∃ b, right = .number b
    · obtain ⟨b, rfl⟩ := hright
      have hforall : (∀ m n, Value.number a = .number m → Value.number b = .number n →
          Combinable op m n) ↔ Combinable op a b := by simp
      rw [hforall, calculate, numbers, Value.number?, Value.number?]
      have hnumber : ∀ {x : Outcome Number}, (do
          let n ← x
          return Value.number n).Answered ↔ x.Answered := fun {x} =>
        answered_bind.trans (and_iff_left fun n _ => failsOnly_ok _)
      cases op with
      | add => exact hnumber.trans (answered_combine (by decide))
      | sub => exact hnumber.trans (answered_combine (by decide))
      | mul => exact hnumber.trans (answered_combine (by decide))
      | div => exact hnumber.trans answered_quotient
    · refine iff_of_true ?_ fun a b _ hb => absurd ⟨b, hb⟩ hright
      rw [calculate, numbers, hnumbers fun b hb => hright ⟨b, hb⟩, Value.number?]
      simp [bind, Except.bind, refuse]
  · refine iff_of_true ?_ fun a b ha => absurd ⟨a, ha⟩ hleft
    rw [calculate, numbers, hnumbers fun a ha => hleft ⟨a, ha⟩]
    simp [bind, Except.bind, refuse]

theorem number_of_calculate {op : ArithmeticOp} {left right v : Value}
    (h : calculate op left right = .ok v) : ∃ n, v = .number n := by
  unfold calculate at h
  obtain ⟨ab, -, h⟩ := bind_ok.1 h
  cases op <;>
  · obtain ⟨n, -, h⟩ := bind_ok.1 h
    exact ⟨n, (Except.ok.inj h).symm⟩

/-! ### Comparing -/

theorem answered_compareValues (op : ComparisonOp) {left : Value} (right : Value)
    (h : left.Intact) : (compareValues op left right).Answered := by
  unfold compareValues
  cases relation? op with
  | some r =>
    simp only [order]
    split <;> simp
  | none =>
    refine .bind (Value.answered_strictEqual (.inl h.within)) fun same _ => ?_
    exact failsOnly_pure _

/-- A value is looked for in what an intact one holds, unless it is one with a number too long to be
shown that is looked for in a text. -/
theorem answered_contains {haystack needle : Value} (h : haystack.Intact) :
    (contains haystack needle).Answered ↔
      ∀ s, haystack = .text s → needle.holdsLongNumeral = false := by
  cases h with
  | list h =>
    refine iff_of_true ?_ (by simp)
    rw [contains, answered_map]
    exact Value.failsOnly_findFrom 0 fun x hx => Value.answered_strictEqual (.inl (h x hx).within)
  | text s =>
    rw [contains, answered_map, Value.tryShown]
    cases needle.holdsLongNumeral <;> simp
  | _ => exact iff_of_true (by simp [contains]) (by simp)

theorem answered_isPresent {context : Context} {ref : PathRef}
    (h : (context.resolve ref).Answered) : (isPresent context ref).Answered := by
  unfold isPresent
  split
  · simp
  · simp
  · next fault _ hfault =>
    exact failsOnly_error.2 (h fault hfault)

/-! ### The values of expressions -/

/-- Whether the evaluation of an expression in a context is spared numbers that are too large: the
operations of arithmetic that it comes to are on numbers that can be combined, and no number that is
too long to be shown is looked for in a text. -/
def Spared (context : Context) : Expr → Prop
  | literal _ | path _ | present _ => True
  | negate operand => Spared context operand
  | arithmetic op left right => Spared context left ∧ ∀ v, left.value context = .ok v →
      Spared context right ∧ ∀ w, right.value context = .ok w →
        ∀ a b, v = .number a → w = .number b → Combinable op a b
  | comparison _ left right =>
    Spared context left ∧ ∀ v, left.value context = .ok v → Spared context right
  | includes ref needle => ∀ haystack, context.resolve ref = .ok haystack →
      Spared context needle ∧ ∀ v, needle.value context = .ok v →
        ∀ s, haystack = .text s → v.holdsLongNumeral = false

/-- What an expression comes to is intact, and it comes to an answer just if it is spared. -/
theorem value_answered {context : Context} (h : context.IsRead) (e : Expr) :
    ((e.value context).Answered ↔ Spared context e) ∧
      ∀ v, e.value context = .ok v → v.Intact := by
  -- Both halves go by one induction: whether a comparison is answered rests on its left side being
  -- intact.
  induction e with
  | literal l =>
    refine ⟨iff_of_true (failsOnly_ok _) trivial, fun v hv => ?_⟩
    obtain rfl := Except.ok.inj hv
    cases l with
    | number n => exact .number n
    | text s => exact .text s
    | bool b => exact .bool b
  | path ref => exact ⟨iff_of_true (h.resolve ref).1 trivial, (h.resolve ref).2⟩
  | negate operand ih =>
    rw [value, answered_bind, ih.1]
    constructor
    · refine and_iff_left fun v _ => ?_
      split <;> simp
    · intro w hw
      obtain ⟨v, -, hw⟩ := bind_ok.1 hw
      split at hw
      · exact Except.ok.inj hw ▸ .number _
      · cases hw
  | arithmetic op left right ihl ihr =>
    rw [value, answered_bind, ihl.1]
    constructor
    · simp only [answered_bind, ihr.1, answered_calculate, Spared]
    · intro x hx
      obtain ⟨v, -, hx⟩ := bind_ok.1 hx
      obtain ⟨w, -, hx⟩ := bind_ok.1 hx
      obtain ⟨n, rfl⟩ := number_of_calculate hx
      exact .number n
  | comparison op left right ihl ihr =>
    rw [value, answered_bind, ihl.1]
    constructor
    · refine and_congr_right fun _ => forall₂_congr fun v hv => ?_
      rw [answered_bind, ihr.1]
      refine and_iff_left fun w _ => ?_
      exact .bind (answered_compareValues op w (ihl.2 v hv)) fun _ _ => failsOnly_pure _
    · intro x hx
      obtain ⟨v, -, hx⟩ := bind_ok.1 hx
      obtain ⟨w, -, hx⟩ := bind_ok.1 hx
      obtain ⟨b, -, hx⟩ := bind_ok.1 hx
      exact Except.ok.inj hx ▸ .bool b
  | present ref =>
    rw [value, answered_map]
    refine ⟨iff_of_true (answered_isPresent (h.resolve ref).1) trivial, fun v hv => ?_⟩
    obtain ⟨b, -, rfl⟩ := map_ok.1 hv
    exact .bool b
  | includes ref needle ih =>
    rw [value, answered_bind]
    constructor
    · rw [and_iff_right (h.resolve ref).1]
      refine forall₂_congr fun haystack hhaystack => ?_
      rw [answered_bind, ih.1]
      refine and_congr_right fun _ => forall₂_congr fun v _ => ?_
      rw [answered_bind, answered_contains ((h.resolve ref).2 haystack hhaystack)]
      exact and_iff_left fun _ _ => failsOnly_pure _
    · intro x hx
      obtain ⟨v, -, hx⟩ := bind_ok.1 hx
      obtain ⟨w, -, hx⟩ := bind_ok.1 hx
      obtain ⟨b, -, hx⟩ := bind_ok.1 hx
      exact Except.ok.inj hx ▸ .bool b

/-! ### From the text to the finding -/

/-- An expression as a whole comes to a truth value or a number, if it comes to a value. -/
theorem result_ok {context : Context} {e : Expr} {v : Value} (h : result context e = .ok v) :
    (∃ b, v = .bool b) ∨ ∃ n, v = .number n := by
  unfold result at h
  obtain ⟨w, -, h⟩ := bind_ok.1 h
  split at h
  · exact .inl ⟨_, (Except.ok.inj h).symm⟩
  · exact .inr ⟨_, (Except.ok.inj h).symm⟩
  · cases h

theorem answered_result {context : Context} {e : Expr} :
    (result context e).Answered ↔ (e.value context).Answered := by
  rw [result, answered_bind]
  refine and_iff_left fun v _ => ?_
  split <;> simp

/-- The text of an expression comes to a finding just if reading and evaluating it are answered. -/
theorem evaluate_ok_iff {context : Context} {text : String} :
    (∃ finding, (evaluate context text).2 = .ok finding) ↔
      (Parser.parseText text.toList >>= result context).Answered := by
  unfold evaluate
  simp only
  generalize Parser.parseText text.toList >>= result context = outcome
  cases outcome with
  | ok v => simp
  | error fault => cases fault <;> simp

/-- In a context of entities that were read, a text whose whole numerals are of readable length
comes to a finding just if what it is parsed to is spared numbers that are too large; and a value
that is found is a truth value or a number. -/
theorem evaluate_answers_iff {context : Context} (h : context.IsRead) {text : String}
    (hshort : ∀ ts, Token.tokenize text.toList = .ok ts → ∀ t ∈ ts, t.Short) :
    ((∃ finding, (evaluate context text).2 = .ok finding) ↔
      ∀ e, Parser.parseText text.toList = .ok e → Spared context e) ∧
    ∀ v, (evaluate context text).2 = .ok (.value v) → (∃ b, v = .bool b) ∨ ∃ n, v = .number n := by
  constructor
  · rw [evaluate_ok_iff, answered_bind, and_iff_right (Parser.answered_parseText hshort)]
    simp only [answered_result, (value_answered h _).1]
  · intro v hv
    unfold evaluate at hv
    simp only at hv
    split at hv
    · next w hw =>
      obtain rfl := Finding.value.inj (Except.ok.inj hv)
      obtain ⟨e, -, he⟩ := bind_ok.1 hw
      exact result_ok he
    · cases hv
    · cases hv

/-- The document of a character with more courage than a float can say. -/
def recklessDocument : Value :=
  .mapping [("id", .text "a"), ("stats", .mapping [("courage", .int (10 ^ 400))])]

/-- The context of one actor. -/
def alone (actor : Value) : Context := ⟨some actor, none, none, none, none, false⟩

/-- Such a number is doubled and compared, but cannot be halved by a float. -/
theorem evaluate_answers_reckless : ∃ actor, Schema.read .character recklessDocument = .ok actor ∧
    (∀ e, Parser.parseText "actor.stats.courage * 2 > 1.5".toList = .ok e →
      Spared (alone actor) e) ∧
    ¬∀ e, Parser.parseText "actor.stats.courage * 0.5 > 1".toList = .ok e →
      Spared (alone actor) e := by
  have hok : ∀ {x : Outcome Finding}, (∃ finding, x = .ok finding) ↔ x.toOption.isSome = true := by
    intro x
    cases x <;> simp [Except.toOption]
  obtain ⟨actor, hread, hdoubled, hhalved⟩ := Outcome.exists_decided
    (Schema.read .character recklessDocument) (fun actor =>
      (evaluate (alone actor) "actor.stats.courage * 2 > 1.5").2.toOption.isSome = true ∧
        ¬(evaluate (alone actor) "actor.stats.courage * 0.5 > 1").2.toOption.isSome = true)
    (by decide +kernel)
  have hcontext : (alone actor).IsRead := by
    refine ⟨?_, by simp [alone], by simp [alone], by simp [alone], by simp [alone]⟩
    rintro v ⟨⟩
    exact .inl ⟨recklessDocument, by decide +kernel, Verdict.outcome_ok.1 hread⟩
  have hshort : ∀ text ∈ ["actor.stats.courage * 2 > 1.5", "actor.stats.courage * 0.5 > 1"],
      ∀ ts ∈ (Token.tokenize text.toList).toOption, ∀ t ∈ ts, ∀ s ∈ t.numerals,
        s.length ≤ Text.numeralLimit := by decide +kernel
  refine ⟨actor, hread, ?_, ?_⟩
  · refine (evaluate_answers_iff hcontext fun ts hts => ?_).1.1 (hok.2 hdoubled)
    exact hshort _ List.mem_cons_self ts (by rw [hts]; rfl)
  · rw [← (evaluate_answers_iff hcontext fun ts hts => ?_).1]
    · rwa [hok]
    · exact hshort _ (List.mem_cons_of_mem _ List.mem_cons_self) ts (by rw [hts]; rfl)

/-- A whole number of too many digits ends the evaluation. -/
theorem evaluate_breaks_off : ¬∃ finding, (evaluate ⟨none, none, none, none, none, false⟩
    (String.ofList (List.replicate 4301 '1' ++ " > 0".toList))).2 = .ok finding := by
  have hparse : Parser.parseText (List.replicate 4301 '1' ++ " > 0".toList) =
      .error .badNumeral := by
    decide +kernel
  rw [evaluate_ok_iff, String.toList_ofList, hparse]
  simp [bind, Except.bind]

end Expr

end StoryWorld
