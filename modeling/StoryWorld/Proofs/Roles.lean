import StoryWorld.Expression.Evaluate
import StoryWorld.Proofs.Grammar
import StoryWorld.Proofs.Named
import StoryWorld.Proofs.Paths
import StoryWorld.Proofs.Texts
import StoryWorld.Proofs.Wording

/-!
Paths that start from a role.

An expression follows such a path from the entity that the role is bound to; everything else writes
it out from its root, with the id of that entity, and resolves it there. The two agree on the
characters of a scene, since the id selects the same entity as the binding and the rest of the path
is followed by the same steps. For the tie of a scene they agree only where it is bound by its id:
an expression can also see the tie from the actor to the target, which no path that is written out
reaches.
-/

namespace StoryWorld

/-! ### Outcomes that find the same -/

namespace Outcome

variable {α β : Type}

/-- Nothing was found where a path leads. -/
def Missing (x : Outcome α) : Prop := ∃ message, x = .error (.refused .pathNotFound message)

/-- The same result, or no result in both, which are missing both or none. -/
structure Alike (x y : Outcome α) : Prop where
  result : ∀ a, x = .ok a ↔ y = .ok a
  missing : x.Missing ↔ y.Missing

theorem Alike.refl (x : Outcome α) : x.Alike x := ⟨fun _ => Iff.rfl, Iff.rfl⟩

theorem Agree.alike {x y : Outcome α} (h : x.Agree y) : x.Alike y :=
  ⟨h.result, h.refused .pathNotFound⟩

theorem Alike.bind {x y : Outcome α} {f g : α → Outcome β} (h : x.Alike y)
    (hfg : ∀ a, x = .ok a → (f a).Alike (g a)) : (x >>= f).Alike (y >>= g) := by
  constructor
  · intro b
    rw [bind_ok, bind_ok]
    constructor
    · rintro ⟨a, ha, hb⟩
      exact ⟨a, (h.result a).1 ha, ((hfg a ha).result b).1 hb⟩
    · rintro ⟨a, ha, hb⟩
      have ha' := (h.result a).2 ha
      exact ⟨a, ha', ((hfg a ha').result b).2 hb⟩
  · constructor
    · rintro ⟨m, hm⟩
      rcases bind_error.1 hm with hx | ⟨a, ha, hfa⟩
      · obtain ⟨n, hn⟩ := h.missing.1 ⟨m, hx⟩
        exact ⟨n, bind_error.2 (.inl hn)⟩
      · obtain ⟨n, hn⟩ := (hfg a ha).missing.1 ⟨m, hfa⟩
        exact ⟨n, bind_error.2 (.inr ⟨a, (h.result a).1 ha, hn⟩)⟩
    · rintro ⟨m, hm⟩
      rcases bind_error.1 hm with hy | ⟨a, ha, hga⟩
      · obtain ⟨n, hn⟩ := h.missing.2 ⟨m, hy⟩
        exact ⟨n, bind_error.2 (.inl hn)⟩
      · have ha' := (h.result a).2 ha
        obtain ⟨n, hn⟩ := (hfg a ha').missing.2 ⟨m, hga⟩
        exact ⟨n, bind_error.2 (.inr ⟨a, ha', hn⟩)⟩

theorem Alike.map {x y : Outcome α} (h : x.Alike y) (f : α → β) :
    Alike (x.map f) (y.map f) := by
  constructor
  · intro b
    rw [map_ok, map_ok]
    constructor
    · rintro ⟨a, ha, rfl⟩
      exact ⟨a, (h.result a).1 ha, rfl⟩
    · rintro ⟨a, ha, rfl⟩
      exact ⟨a, (h.result a).2 ha, rfl⟩
  · simp only [Missing, map_error]
    exact h.missing

end Outcome

/-- The text of a path is for messages only. -/
theorem Locate.stepsFrom_alike (p q : String) (v : Value) (segments : List Segment) :
    (stepsFrom p v segments).Alike (stepsFrom q v segments) :=
  (stepsFrom_agree p q v segments).alike

/-! ### Cutting a path that is written out -/

namespace Segment

/-- A path is cut after its root, and what follows is trimmed at its end only. -/
theorem split_append {c : Char} {s : List Char} (hc : Text.isBlank c = false)
    (h : '.' ∉ c :: s) (rest : List Char) :
    split (c :: s ++ '.' :: rest) = (c :: s) :: Text.splitAt '.' (Text.trimRight rest) := by
  have hpoint : Text.isBlank '.' = false := by decide
  rw [split, Text.trim, List.cons_append, Text.trimLeft_cons hc, ← List.cons_append,
    Text.trimRight_append hpoint, Text.splitAt_append h]

theorem parse_congr {raw : List Char} {p : String} (q : String) {segment : Segment}
    (h : parse raw p = .ok segment) : parse raw q = .ok segment :=
  ((parse_agree p q raw).result segment).1 h

theorem parseAll_congr {raws : List (List Char)} {p : String} (q : String)
    {segments : List Segment} (h : parseAll p raws = .ok segments) :
    parseAll q raws = .ok segments :=
  ((parseAll_agree p q raws).result segments).1 h

/-- A text that a path can hold as one name. -/
structure IsName (s : String) : Prop where
  ne_empty : s ≠ ""
  plain : s.toList.all (fun c => c != '.' && !isBracket c) = true

theorem IsName.of_mem {s : String} (h : IsName s) {c : Char} (hc : c ∈ s.toList) :
    c ≠ '.' ∧ isBracket c = false := by
  simpa using List.all_eq_true.1 h.plain c hc

theorem parse_of_isName {s : String} (h : IsName s) (p : String) :
    parse s.toList p = .ok ⟨s, none⟩ := by
  have hempty : s.toList.isEmpty = false := by
    rw [List.isEmpty_eq_false_iff]
    exact fun hnil => h.ne_empty (String.toList_injective (by simpa using hnil))
  have hplain : s.toList.any isBracket = false := by
    rw [List.any_eq_false]
    intro c hc
    simp [(h.of_mem hc).2]
  rw [parse, hempty, hplain]
  simp

end Segment

namespace Place

/-- The place that steps lead to from an item of a root. -/
def under (root : Root) (i : Nat) (steps : List Step) : Place where
  root := root
  before := (.item i :: steps).dropLast
  last := (.item i :: steps).getLast (List.cons_ne_nil _ _)

theorem steps_under (root : Root) (i : Nat) (steps : List Step) :
    (under root i steps).steps = .item i :: steps :=
  List.dropLast_append_getLast _

theorem ofSteps_cons (root : Root) (i : Nat) (steps : List Step) :
    ofSteps root (.item i :: steps) = some (under root i steps) := by
  rw [← steps_under root i steps]
  exact ofSteps_steps (under root i steps)

variable {story : Story} {root : Root} {xs : List Value} {id : String} {i : Nat} {e : Value}

/-- A path that is written out has the parts of the id between its root and its rest. -/
theorem split_spliced (root : Root) (id : String) (rest : List Char) :
    Segment.split (root.name ++ "." ++ id ++ "." ++ String.ofList rest).toList =
      root.name.toList ::
        (Text.splitAt '.' id.toList ++ Text.splitAt '.' (Text.trimRight rest)) := by
  have hroot : ∃ c s, root.name.toList = c :: s ∧ Text.isBlank c = false ∧ '.' ∉ c :: s := by
    cases root <;> exact ⟨_, _, rfl, by decide, by decide⟩
  obtain ⟨c, s, hname, hc, hpoint⟩ := hroot
  have htext : (root.name ++ "." ++ id ++ "." ++ String.ofList rest).toList =
      c :: s ++ '.' :: (id.toList ++ '.' :: rest) := by
    simp [String.toList_append, hname]
  rw [htext, Segment.split_append hc hpoint, Text.trimRight_append (by decide),
    Text.splitAt_separator, hname]

theorem split_written (root : Root) (h : Segment.IsName id) (rest : List Char) :
    Segment.split (root.name ++ "." ++ id ++ "." ++ String.ofList rest).toList =
      root.name.toList :: id.toList :: Text.splitAt '.' (Text.trimRight rest) := by
  have hid : '.' ∉ id.toList := fun hmem => (h.of_mem hmem).1 rfl
  rw [split_spliced, Text.splitAt_of_not_mem hid, List.singleton_append]

/-- A path that is written out resolves to where its rest leads from the entity of the id. -/
theorem resolve_written (hroot : story.root root = .list xs) (h : Segment.IsName id)
    (hi : xs.findIdx? (Locate.hasId id) = some i) (he : xs[i]? = some e) {rest : List Char}
    {p : String} {segments : List Segment}
    (hparse : Segment.parseAll p (Text.splitAt '.' (Text.trimRight rest)) = .ok segments) :
    resolve story (root.name ++ "." ++ id ++ "." ++ String.ofList rest) =
      (Locate.stepsFrom (root.name ++ "." ++ id ++ "." ++ String.ofList rest) e segments).map
        (under root i) := by
  have hsplit := split_written root h rest
  generalize root.name ++ "." ++ id ++ "." ++ String.ofList rest = path at hsplit ⊢
  have hsegments : Segment.parseAll path (id.toList :: Text.splitAt '.' (Text.trimRight rest)) =
      .ok (⟨id, none⟩ :: segments) := by
    simp only [Segment.parseAll, Segment.parse_of_isName h, Segment.parseAll_congr path hparse,
      Outcome.ok_bind]
    rfl
  have hsome : ∃ next more, segments = next :: more := by
    cases segments with
    | cons next more => exact ⟨next, more, rfl⟩
    | nil =>
      rw [Segment.parseAll_ok] at hparse
      exact absurd (List.forall₂_nil_right_iff.1 hparse) (Text.splitAt_ne_nil _ _)
  obtain ⟨next, more, rfl⟩ := hsome
  have hlocate : Locate.locate path (story.root root) (⟨id, none⟩ :: next :: more) =
      (Locate.stepsFrom path e (next :: more)).map (.item i :: ·) := by
    have hstep : Locate.stepsOf path (.list xs) ⟨id, none⟩ = .ok [.item i] := by
      simp [Locate.stepsOf, Locate.child, hi, Outcome.ok_bind, pure, Except.pure]
    have hfollow : (Value.list xs).follow [.item i] = .ok e := by
      simp [Value.follow, Value.read, he, Outcome.ok_bind]
    have hnext : next :: more ≠ [] := List.cons_ne_nil _ _
    rw [hroot, Locate.locate, if_neg (by simp), Locate.stepsFrom.eq_3 _ _ _ _ hnext, hstep,
      Outcome.ok_bind, hfollow, Outcome.ok_bind]
    cases Locate.stepsFrom path e (next :: more) <;> rfl
  simp only [resolve, hsplit, String.ofList_toList, Root.ofName?_name, hsegments, Outcome.ok_bind,
    hlocate]
  cases Locate.stepsFrom path e (next :: more) with
  | error fault => rfl
  | ok steps => simp only [Except.map, Outcome.ok_bind, ofSteps_cons]; rfl

/-- Reading it is following the rest from there. -/
theorem readPath_written (hroot : story.root root = .list xs) (h : Segment.IsName id)
    (hi : xs.findIdx? (Locate.hasId id) = some i) (he : xs[i]? = some e) {rest : List Char}
    {p : String} {segments : List Segment}
    (hparse : Segment.parseAll p (Text.splitAt '.' (Text.trimRight rest)) = .ok segments) :
    story.readPath (root.name ++ "." ++ id ++ "." ++ String.ofList rest) =
      (Locate.stepsFrom (root.name ++ "." ++ id ++ "." ++ String.ofList rest) e segments >>=
        e.follow) := by
  rw [Story.readPath, resolve_written hroot h hi he hparse]
  cases Locate.stepsFrom (root.name ++ "." ++ id ++ "." ++ String.ofList rest) e segments with
  | error fault => rfl
  | ok steps =>
    show (under root i steps).read story = e.follow steps
    rw [read_eq, steps_under, under, hroot]
    simp [Value.follow, Value.read, he, Outcome.ok_bind]

end Place

/-! ### Roles -/

/-- The roles of a scene that paths are written out for. -/
inductive Role where
  | actor | target | relationship
  deriving DecidableEq, Repr

namespace Role

/-- The name that paths start with. -/
def name : Role → String
  | actor => "actor"
  | target => "target"
  | relationship => "relationship"

/-- The root that the entity of the role is in. -/
def root : Role → Root
  | actor => .characters
  | target => .characters
  | relationship => .relationships

/-- The id that is bound to the role. -/
def id? (bindings : Bindings) : Role → Option String
  | actor => Text.present? bindings.actor
  | target => Text.present? bindings.target
  | relationship => Text.present? bindings.relationship

/-- The text of a path that starts from the role. -/
def path (role : Role) (rest : List Char) : String :=
  String.ofList (role.name.toList ++ '.' :: rest)

theorem after?_path (role other : Role) (rest : List Char) :
    Bindings.after? other.name (role.path rest) = if other = role then some rest else none := by
  rw [Bindings.after?, path, String.toList_ofList]
  cases role <;> cases other <;> simp [name, List.isPrefixOf]

variable {bindings : Bindings} {role : Role}

theorem expand_bound {id : String} (h : role.id? bindings = some id) (rest : List Char) :
    bindings.expand (role.path rest) =
      role.root.name ++ "." ++ id ++ "." ++ String.ofList rest := by
  have hafter := fun other => after?_path role other rest
  have hactor := hafter actor
  have htarget := hafter target
  have htie := hafter relationship
  cases role <;> simp_all [Bindings.expand, name, root, Root.name, id?]

theorem expand_unbound (h : role.id? bindings = none) (rest : List Char) :
    bindings.expand (role.path rest) = role.path rest := by
  have hafter := fun other => after?_path role other rest
  have hactor := hafter actor
  have htarget := hafter target
  have htie := hafter relationship
  cases role <;> simp_all [Bindings.expand, name, id?]

theorem split_path (role : Role) (rest : List Char) :
    Segment.split (role.path rest).toList =
      role.name.toList :: Text.splitAt '.' (Text.trimRight rest) := by
  have hrole : ∃ c s, role.name.toList = c :: s ∧ Text.isBlank c = false ∧ '.' ∉ c :: s := by
    cases role <;> exact ⟨_, _, rfl, by decide, by decide⟩
  obtain ⟨c, s, hname, hc, hpoint⟩ := hrole
  rw [path, String.toList_ofList, hname, Segment.split_append hc hpoint]

/-- A path from a role has the rest of its text for its segments. -/
theorem parse_rest {t : Token} {ref : PathRef} (h : t.IsPath ref) {rest : List Char}
    (ht : String.ofList t.value = role.path rest) :
    ref.root = role.name ∧ ref.text = role.path rest ∧
      Segment.parseAll ref.text (Text.splitAt '.' (Text.trimRight rest)) = .ok ref.segments := by
  obtain ⟨-, hparts, hparsed⟩ := h
  have hsplit := split_path role rest
  rw [← ht, String.toList_ofList, hparts] at hsplit
  cases hsplit
  exact ⟨String.ofList_toList, ht, Segment.parseAll_ok.2 hparsed⟩

/-- No root goes by the name of a role. -/
theorem resolve_path_ne_ok (story : Story) (role : Role) (rest : List Char) (place : Place) :
    Place.resolve story (role.path rest) ≠ .ok place := by
  obtain ⟨raw, raws, hraws⟩ :=
    List.exists_cons_of_ne_nil (Text.splitAt_ne_nil '.' (Text.trimRight rest))
  have hroot : Root.ofName? role.name = none := by cases role <;> decide
  rw [Place.resolve, split_path, hraws]
  simp only [String.ofList_toList, hroot]
  exact Outcome.refuse_ne_ok
end Role

/-! ### Characters of a scene -/

/-- Whether a path of an expression is one of those with a value derived from the whole story: a
single name after the actor or the target. -/
def PathRef.IsDerived (ref : PathRef) : Prop :=
  ∃ name ∈ ["location", "offices", "knowledge"], ref.segments = [⟨name, none⟩]

/-- The value, not told what it belongs to: only expressions tell the place of something built
in. -/
def Value.unowned (v : Value) : Value := v.ownedAt []

theorem Value.unowned_ownedAt (v : Value) (place : List String) :
    (v.ownedAt place).unowned = v.unowned := by
  cases v with
  | builtin b =>
    rcases b with ⟨name, typeName, kind | place⟩
    · rfl
    · rfl
  | _ => rfl

namespace Context

variable {story : Story} {bindings : Bindings} {context : Context} {ref : PathRef}

theorem derived_eq_none (h : ¬ ref.IsDerived) (character : Value) :
    derived context ref character = .ok none := by
  unfold derived
  split
  · rfl
  · split
    · next hs => exact absurd ⟨"location", by simp, hs⟩ h
    · next hs => exact absurd ⟨"offices", by simp, hs⟩ h
    · next hs => exact absurd ⟨"knowledge", by simp, hs⟩ h
    · rfl

/-- A path that has no derived value is followed from the entity of its role. -/
theorem resolve_unowned {e : Value} (hstart : context.roleValue ref.root = .ok e)
    (hderived : ¬ ref.IsDerived) (hsegments : ref.segments ≠ []) :
    (context.resolve ref).map Value.unowned =
      (Locate.stepsFrom ref.text e ref.segments >>= e.follow).map Value.unowned := by
  have hempty : ref.segments.isEmpty = false := by simpa using hsegments
  rw [resolve, hstart, Outcome.ok_bind, derived_eq_none hderived, Outcome.ok_bind, Locate.locate,
    hempty]
  simp only [Bool.false_eq_true, if_false]
  cases Locate.stepsFrom ref.text e ref.segments with
  | error fault => rfl
  | ok steps =>
    simp only [Outcome.ok_bind]
    cases e.follow steps with
    | error fault => rfl
    | ok v => simp [Outcome.ok_bind, pure, Except.pure, Except.map, Value.unowned_ownedAt]

/-- What an expression reads from the actor or the target of a story that was read is what its path
leads to when it is written out; where the one finds nothing, neither does the other. -/
theorem resolve_alike_readPath {document : Value} (h : Story.read document = .ok story)
    {role : Role} (hrole : role ≠ .relationship) {id : String}
    (hbound : role.id? bindings = some id) (hname : Segment.IsName id)
    (hcharacter : ∃ c ∈ story.characters.items, c.id? = some id) {t : Token}
    (hpath : t.IsPath ref) {rest : List Char} (htext : String.ofList t.value = role.path rest)
    (hderived : ¬ ref.IsDerived) :
    ∃ context, ofStory story bindings = .ok context ∧
      Outcome.Alike ((context.resolve ref).map Value.unowned)
        ((story.readPath (bindings.expand ref.text)).map Value.unowned) := by
  have hnamed := Story.named_of_read h
  refine ⟨_, ofStory_eq hnamed bindings, ?_⟩
  obtain ⟨hroot, hreftext, hparsed⟩ := Role.parse_rest hpath htext
  obtain ⟨xs, hxs, hids⟩ := hnamed.characters
  rw [hxs] at hcharacter
  obtain ⟨e, he⟩ : ∃ e, Story.firstNamed? xs id = some e := by
    obtain ⟨c, hc, hcid⟩ := hcharacter
    rw [← Option.isSome_iff_exists, Story.firstNamed?, List.find?_isSome]
    exact ⟨c, hc, by simp [hcid]⟩
  obtain ⟨i, hi, hei⟩ := Story.findIdx?_hasId hids he
  have hsegments : ref.segments ≠ [] := by
    intro hnil
    rw [Segment.parseAll_ok, hnil] at hparsed
    exact Text.splitAt_ne_nil _ _ (List.forall₂_nil_right_iff.1 hparsed)
  have hstart : (⟨boundIn story.characters.items bindings.actor,
      boundIn story.characters.items bindings.target, some story.world, tieIn story bindings,
      some story, bindings.actor == bindings.target⟩ : Context).roleValue ref.root = .ok e := by
    rw [hroot, hxs]
    cases role with
    | actor => simp_all [Role.name, Role.id?, roleValue, role?, boundIn, Value.items]
    | target => simp_all [Role.name, Role.id?, roleValue, role?, boundIn, Value.items]
    | relationship => exact absurd rfl hrole
  have hroot' : story.root role.root = .list xs := by
    cases role with
    | actor => exact hxs
    | target => exact hxs
    | relationship => exact absurd rfl hrole
  rw [resolve_unowned hstart hderived hsegments, hreftext, Role.expand_bound hbound,
    Place.readPath_written hroot' hname hi hei (hreftext ▸ hparsed)]
  refine Outcome.Alike.map ?_ _
  refine (Locate.stepsFrom_alike _ _ e ref.segments).bind ?_
  rintro steps -
  exact .refl _

/-- The document of a story with two characters and a tie from the one to the other. -/
def pairDocument : Value :=
  .mapping [("characters", .list [
      .mapping [("id", .text "a"), ("stats", .mapping [("wit", .int 7)])],
      .mapping [("id", .text "b")]]),
    ("relationships", .list [
      .mapping [("id", .text "r"), ("from", .text "a"), ("to", .text "b"),
        ("weights", .mapping [("trust", .int 5)])]])]

/-- The path of an expression to a number of the actor. -/
def witPath : PathRef := ⟨"actor.stats.wit", "actor", [⟨"stats", none⟩, ⟨"wit", none⟩]⟩

/-- A number of an actor that is bound. -/
theorem resolve_alike_readPath_number : ∃ story context,
    Story.read pairDocument = .ok story ∧
      ofStory story ⟨some "a", none, none⟩ = .ok context ∧
      (context.resolve witPath).map Value.unowned = .ok (.int 7) := by
  obtain ⟨story, hread, hcharacter, hnumber⟩ := Story.exists_read pairDocument (fun story =>
    (∃ c ∈ story.characters.items, c.id? = some "a") ∧
      ((story.readPath "characters.a.stats.wit").map Value.unowned).map Value.number? =
        .ok (some (.int 7))) (by decide +kernel)
  have hsplit : Segment.split "actor.stats.wit".toList =
      ["actor".toList, "stats".toList, "wit".toList] := by decide
  have hpath : (⟨.path, "actor.stats.wit".toList, 0⟩ : Token).IsPath witPath :=
    .intro rfl hsplit (.cons rfl (.cons rfl .nil))
  have hbound : Role.actor.id? ⟨some "a", none, none⟩ = some "a" := rfl
  have hderived : ¬ witPath.IsDerived := by
    rintro ⟨name, -, hname⟩
    simp [witPath] at hname
  obtain ⟨context, hcontext, halike⟩ := resolve_alike_readPath hread (by decide) hbound
    ⟨by decide, by decide⟩ hcharacter hpath rfl hderived
  refine ⟨story, context, hread, hcontext, (halike.result _).2 ?_⟩
  obtain ⟨v, hv, hn⟩ := Outcome.map_ok.1 hnumber
  cases v with
  | number n =>
    cases hn
    exact hv
  | _ => cases hn

/-! ### The tie of a scene -/

/-- What an expression reaches on the tie of a scene can be reached by the path that is written out
if and only if the tie is bound by its id: the one from the actor to the target is seen by
expressions only. -/
theorem tie_reachable_iff {document : Value} (h : Story.read document = .ok story)
    (hcontext : ofStory story bindings = .ok context) {e : Value}
    (htie : context.relationship = some e) {id : String} (hid : e.id? = some id)
    (hname : Segment.IsName id) {t : Token} (hpath : t.IsPath ref) {rest : List Char}
    (htext : String.ofList t.value = Role.relationship.path rest) {steps : List Step}
    (hsteps : Locate.locate ref.text e ref.segments = .ok steps) :
    (∃ i, story.relationships.items[i]? = some e ∧
      Place.resolve story (bindings.expand ref.text) = .ok (.under .relationships i steps)) ↔
    (Role.relationship.id? bindings).isSome := by
  obtain ⟨-, hreftext, hparsed⟩ := Role.parse_rest hpath htext
  cases hbound : Role.relationship.id? bindings with
  | none =>
    rw [hreftext, Role.expand_unbound hbound]
    constructor
    · rintro ⟨i, -, hresolve⟩
      exact absurd hresolve (Role.resolve_path_ne_ok story _ rest _)
    · intro hsome
      cases hsome
  | some bound =>
    refine ⟨fun _ => rfl, fun _ => ?_⟩
    have hnamed := Story.named_of_read h
    have hfound : boundIn story.relationships.items bindings.relationship = some e := by
      rw [ofStory_eq hnamed] at hcontext
      cases hcontext
      have hsome : (Text.present? bindings.relationship).isSome = true :=
        Option.isSome_iff_exists.2 ⟨bound, hbound⟩
      rwa [tieIn, if_pos hsome] at htie
    obtain ⟨xs, hxs, hties⟩ := hnamed.relationships
    obtain ⟨s, hs, hfirst⟩ := Option.bind_eq_some_iff.1 hfound
    obtain rfl : s = bound := Option.some.inj (hs.symm.trans hbound)
    obtain rfl : s = id := Option.some.inj ((Story.id?_of_firstNamed? hfirst).symm.trans hid)
    rw [hxs] at hfirst
    obtain ⟨i, hi, hei⟩ := Story.findIdx?_hasId (fun x hx => (hties x hx).1) hfirst
    refine ⟨i, by rw [hxs]; exact hei, ?_⟩
    have hsteps' : Locate.stepsFrom ref.text e ref.segments = .ok steps := by
      rw [Locate.locate] at hsteps
      split at hsteps
      · cases hsteps
      · exact hsteps
    have hroot : story.root Role.relationship.root = .list xs := hxs
    rw [hreftext, Role.expand_bound hbound,
      Place.resolve_written hroot hname hi hei (hreftext ▸ hparsed),
      ((Locate.stepsFrom_alike _ _ e ref.segments).result steps).1 hsteps']
    rfl

/-- The path of an expression to a number of the tie. -/
def trustPath : PathRef :=
  ⟨"relationship.weights.trust", "relationship", [⟨"weights", none⟩, ⟨"trust", none⟩]⟩

/-- A number of a tie that is bound by its id. -/
theorem tie_reachable_bound : ∃ story e i, Story.read pairDocument = .ok story ∧
    story.relationships.items[i]? = some e ∧
      Place.resolve story ((⟨some "a", some "b", some "r"⟩ : Bindings).expand trustPath.text) =
        .ok (.under .relationships i [.slot (.field "weights"), .key "trust"]) := by
  obtain ⟨story, hread, hid, hlocate⟩ := Story.exists_read pairDocument (fun story =>
    ((tieIn story ⟨some "a", some "b", some "r"⟩).bind Value.id?) = some "r" ∧
      (tieIn story ⟨some "a", some "b", some "r"⟩).map (fun e =>
        Locate.locate trustPath.text e trustPath.segments) =
          some (.ok [.slot (.field "weights"), .key "trust"])) (by decide +kernel)
  have hsplit : Segment.split "relationship.weights.trust".toList =
      ["relationship".toList, "weights".toList, "trust".toList] := by decide
  have hpath : (⟨.path, "relationship.weights.trust".toList, 0⟩ : Token).IsPath trustPath :=
    .intro rfl hsplit (.cons rfl (.cons rfl .nil))
  obtain ⟨e, htie, hsteps⟩ := Option.map_eq_some_iff.1 hlocate
  rw [htie] at hid
  obtain ⟨i, hi, hresolve⟩ := (tie_reachable_iff hread
    (ofStory_eq (Story.named_of_read hread) ⟨some "a", some "b", some "r"⟩) htie hid
    ⟨by decide, by decide⟩ hpath rfl hsteps).2 rfl
  exact ⟨story, e, i, hread, hi, hresolve⟩

/-- The tie from the actor to the target is seen by an expression, and no path reaches it. -/
theorem tie_unreachable_between : ∃ story context, Story.read pairDocument = .ok story ∧
    ofStory story ⟨some "a", some "b", none⟩ = .ok context ∧
      story.relationships.items.length = 1 ∧ context.relationship.bind Value.id? = some "r" ∧
        (context.resolve trustPath).map Value.number? = .ok (some (.int 5)) ∧
          Place.resolve story ((⟨some "a", some "b", none⟩ : Bindings).expand trustPath.text) =
            refuse .unknownRoot
              "Unknown root 'relationship' in path: relationship.weights.trust" := by
  obtain ⟨story, hread, hcontext, hone, hresolve⟩ := Story.exists_read pairDocument (fun story =>
    (ofStory story ⟨some "a", some "b", none⟩).map (fun context =>
      (context.relationship.bind Value.id?, (context.resolve trustPath).map Value.number?)) =
        .ok (some "r", .ok (some (.int 5))) ∧
      story.relationships.items.length = 1 ∧
        Place.resolve story ((⟨some "a", some "b", none⟩ : Bindings).expand trustPath.text) =
          refuse .unknownRoot
            "Unknown root 'relationship' in path: relationship.weights.trust") (by decide +kernel)
  obtain ⟨context, hof, hpair⟩ := Outcome.map_ok.1 hcontext
  obtain ⟨hid, hvalue⟩ := Prod.mk.inj hpair
  exact ⟨story, context, hread, hof, hone, hid, hvalue, hresolve⟩

end Context

end StoryWorld
