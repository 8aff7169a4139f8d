import StoryWorld.Proofs.Evaluations
import StoryWorld.Proofs.Fading
import StoryWorld.Proofs.TypedAlong

/-!
What can be asked of a story whose entities are typed.

On such a story a scene is told what it is about, the principals and the urgent threads are found,
the values that are derived for a character are there, and an episode comes to its end. A story
that was read is typed, and stays so over deltas that keep to the types, so after any such run of
deltas all this can be asked again. A delta that does not keep to them can be applied all the same,
and what looks into the field that it changed then fails.
-/

namespace StoryWorld

open Schema

namespace Story

variable {story : Story} {limited : Bool} {character : Value}

/-- Items can be selected by a test that decides each of them. -/
theorem selectItems_decided {test : Value → Outcome Bool} : ∀ {xs : List Value},
    (∀ x ∈ xs, ∃ b, test x = .ok b) → ∃ ys, selectItems test xs = .ok ys
  | [], _ => ⟨[], rfl⟩
  | x :: xs, h => by
    rw [List.forall_mem_cons] at h
    obtain ⟨b, hb⟩ := h.1
    obtain ⟨ys, hys⟩ := selectItems_decided h.2
    rw [selectItems, hb, Outcome.ok_bind, hys]
    exact ⟨_, rfl⟩

/-! ### Principals -/

/-- The threshold for the stats of a principal is a number. -/
theorem threshold_number {options config : Value}
    (h : Schema.read .worldConfig options = .ok config) :
    ∃ n, config.field "principal_threshold" = .number n := by
  obtain ⟨slots, x, rfl, hx, hadmits⟩ :=
    read_field (Verdict.outcome_ok.1 h) "principal_threshold" rfl
  have hget : (Value.entity .worldConfig slots).field "principal_threshold" = x := by
    simp [Value.field, Value.field?, hx]
  rw [hget]
  rcases hadmits with hfallback | ⟨given, -, hgiven⟩
  · exact ⟨_, (Option.some.inj hfallback).symm⟩
  · obtain ⟨y, hy, hcheck⟩ := Verdict.andThen_accepted.1 hgiven
    unfold validate at hy
    obtain ⟨z, -, rfl⟩ := Verdict.map_accepted.1 hy
    exact ⟨_, (Verdict.accepted.inj hcheck).symm⟩

theorem reaches_ok (h : Schema.typed limited Kind.character.shape character = true) (n : Number) :
    ∀ names, ∃ b, reaches character (.number n) names = .ok b
  | [] => ⟨false, rfl⟩
  | name :: names => by
    obtain ⟨stats, hstats, hnumbers⟩ := get_mapping "stats" rfl h rfl rfl
    obtain ⟨b, hb⟩ := reaches_ok h n names
    obtain ⟨m, hm⟩ := number_of_key (numbers_of_typed hnumbers) (name.textOr "")
    have hholds : (Value.number m).holds .ge (.number n) = .ok (Relation.ge.ofNumbers m n) := rfl
    rw [reaches, hstats, Outcome.ok_bind, Value.getKey, Outcome.ok_bind, hm, hholds,
      Outcome.ok_bind, hb]
    split
    · exact ⟨true, rfl⟩
    · exact ⟨b, rfl⟩

/-- The principals of a story with typed entities are found, for any configuration. -/
theorem principals_ok (h : story.Entities limited) {options config : Value}
    (hconfig : Schema.read .worldConfig options = .ok config) :
    ∃ found, story.principals config = .ok found := by
  obtain ⟨n, hn⟩ := threshold_number hconfig
  refine selectItems_decided fun character hc => ?_
  have htyped := h.characters character hc
  obtain ⟨archetype, harchetype, -⟩ := exists_get "archetype" rfl htyped
  rw [isPrincipal, calling_of_typed htyped (by decide), Outcome.ok_bind, harchetype,
    Outcome.ok_bind, hn]
  split
  · exact ⟨true, rfl⟩
  · exact reaches_ok htyped n _

/-! ### Urgent threads -/

/-- The urgent threads of a story with typed entities are found. -/
theorem urgentThreads_ok (h : story.Entities limited) :
    ∃ found, story.urgentThreads = .ok found := by
  refine selectItems_decided fun thread ht => ?_
  obtain ⟨urgent, hurgent⟩ := urgent_known (h.threads thread ht)
  exact ⟨_, by rw [hurgent]; rfl⟩

end Story

namespace Context

variable {story : Story} {context : Context} {limited : Bool}

/-- The characters of a context are typed, and so are the entities of its story. -/
structure IsTyped (limited : Bool) (context : Context) : Prop where
  actor : ∀ v ∈ context.actor, Schema.typed limited Kind.character.shape v = true
  target : ∀ v ∈ context.target, Schema.typed limited Kind.character.shape v = true
  story : ∀ story ∈ context.story, story.Entities limited

theorem bound_character (h : story.Entities limited) (id : Option String) :
    ∃ found, bound story.character? id = .ok found ∧
      ∀ v ∈ found, Schema.typed limited Kind.character.shape v = true := by
  unfold bound
  cases Text.present? id with
  | none => exact ⟨none, rfl, by simp⟩
  | some s =>
    obtain ⟨found, hfound, hmem⟩ := Subgraph.character?_ok h (.text s)
    exact ⟨found, hfound, fun v hv => h.characters v (hmem v hv)⟩

theorem bound_relationship (h : story.Entities limited) (id : Option String) :
    ∃ found, bound story.relationshipById? id = .ok found := by
  unfold bound
  cases Text.present? id with
  | none => exact ⟨none, rfl⟩
  | some s =>
    have hid : ∀ tie ∈ story.ties, Story.fieldIs "id" (.text s) tie =
        .ok ((tie.field "id").equal (.text s)) :=
      fun tie ht => fieldIs_of_typed "id" rfl (h.ties tie ht) (.text s)
    exact ⟨_, Story.findItem_of_ok hid⟩

theorem between_ok (h : story.Entities limited) {actor target : Option Value}
    (hactor : ∀ v ∈ actor, Schema.typed limited Kind.character.shape v = true)
    (htarget : ∀ v ∈ target, Schema.typed limited Kind.character.shape v = true) :
    ∃ found, between story actor target = .ok found := by
  cases actor with
  | none => exact ⟨none, rfl⟩
  | some a =>
    cases target with
    | none => exact ⟨none, rfl⟩
    | some b =>
      obtain ⟨source, hsource, -⟩ := exists_get "id" rfl (hactor a rfl)
      obtain ⟨goal, hgoal, -⟩ := exists_get "id" rfl (htarget b rfl)
      have htie : ∀ tie ∈ story.ties, (do
          if ← Story.fieldIs "from_" source tie then Story.fieldIs "to" goal tie
          else return false) = .ok ((tie.field "from_").equal source &&
            (tie.field "to").equal goal) := by
        intro tie ht
        rw [fieldIs_of_typed "from_" rfl (h.ties tie ht),
          fieldIs_of_typed "to" rfl (h.ties tie ht), Outcome.ok_bind]
        cases (tie.field "from_").equal source <;> rfl
      rw [between, hsource, Outcome.ok_bind, hgoal, Outcome.ok_bind]
      exact ⟨_, Story.findItem_of_ok htie⟩

/-- The context of a story with typed entities is there for any bindings, and typed. -/
theorem ofStory_ok (h : story.Entities limited) (bindings : Bindings) :
    ∃ context, ofStory story bindings = .ok context ∧ context.IsTyped limited := by
  obtain ⟨actor, hactor, hactor'⟩ := bound_character h bindings.actor
  obtain ⟨target, htarget, htarget'⟩ := bound_character h bindings.target
  obtain ⟨byId, hbyId⟩ := bound_relationship h bindings.relationship
  obtain ⟨byEnds, hbyEnds⟩ := between_ok h hactor' htarget'
  have hstory : ∀ s ∈ some story, s.Entities limited := by
    rintro s ⟨⟩
    exact h
  rw [ofStory, hactor, Outcome.ok_bind, htarget, Outcome.ok_bind]
  split
  · rw [hbyId]
    exact ⟨_, rfl, hactor', htarget', hstory⟩
  · rw [hbyEnds]
    exact ⟨_, rfl, hactor', htarget', hstory⟩

/-- The names of the values that are derived for a character. -/
def derivedNames : List String := ["location", "offices", "knowledge"]

theorem IsTyped.role (h : context.IsTyped limited) {root : String}
    (hroot : root ∈ ["actor", "target"]) {v : Value} (hv : context.roleValue root = .ok v) :
    Schema.typed limited Kind.character.shape v = true := by
  have hrole := role?_of_roleValue hv
  rcases List.mem_cons.1 hroot with rfl | hroot
  · exact h.actor v (Option.some.inj hrole)
  · obtain rfl := List.mem_singleton.1 hroot
    exact h.target v (Option.some.inj hrole)

/-- A path to a derived value leads to one, or its role is refused. -/
theorem answered_resolve_derived (h : context.IsTyped limited) (text : String) {root name : String}
    (hroot : root ∈ ["actor", "target"]) (hname : name ∈ derivedNames) :
    (context.resolve ⟨text, root, [⟨name, none⟩]⟩).Answered := by
  refine .bind answered_roleValue fun character hcharacter => ?_
  have htyped := h.role hroot hcharacter
  obtain ⟨-, x, -, -, hlocation⟩ := locationOf_ok htyped
  obtain ⟨offices, hoffices, -⟩ := officesOf_ok htyped h.story
  obtain ⟨known, hknown, -⟩ := knowledgeOf_ok htyped h.story
  have hderived : ∃ v, derived context ⟨text, root, [⟨name, none⟩]⟩ character = .ok (some v) := by
    have hrole : ¬(root ≠ "actor" ∧ root ≠ "target") := by
      rintro ⟨hactor, htarget⟩
      simp [hactor, htarget] at hroot
    rw [derived, if_neg hrole]
    simp only [derivedNames, List.mem_cons, List.not_mem_nil, or_false] at hname
    rcases hname with rfl | rfl | rfl
    · exact ⟨x, by simp only [hlocation]; rfl⟩
    · exact ⟨.list offices, by simp only [hoffices]; rfl⟩
    · exact ⟨.list known, by simp only [hknown]; rfl⟩
  obtain ⟨v, hv⟩ := hderived
  rw [hv]
  exact Outcome.failsOnly_ok v

/-- The text of a path to a derived value is such a path. -/
theorem parse_derived : ∀ root ∈ ["actor", "target"], ∀ name ∈ derivedNames,
    Parser.parseText (root ++ "." ++ name).toList =
      .ok (.path ⟨root ++ "." ++ name, root, [⟨name, none⟩]⟩) := by
  decide +kernel

/-- Evaluating a path to a derived value comes to a finding. -/
theorem evaluate_derived (h : context.IsTyped limited) {root name : String}
    (hroot : root ∈ ["actor", "target"]) (hname : name ∈ derivedNames) :
    ∃ finding, (Expr.evaluate context (root ++ "." ++ name)).2 = .ok finding := by
  rw [Expr.evaluate_ok_iff, parse_derived root hroot name hname, Outcome.ok_bind,
    Expr.answered_result, Expr.value]
  exact answered_resolve_derived h _ hroot hname

end Context

/-! ### All that can be asked -/

/-- That a story answers whatever it is asked: for a scene, for its principals by any configuration,
for its urgent threads, and for what is derived for an actor or a target. It also comes to the end of
any episode, where it is asked that extra stats can fade. -/
structure Story.Answers (limited : Bool) (story : Story) : Prop where
  scene : ∀ (seeds : List String) (limits : Limits),
    ∃ g, Subgraph.extract story (seeds.map .text) limits = .ok g
  episode : limited = true → ∀ number, ∃ r, (Decay.apply story number).outcome = .ok r
  principals : ∀ options config, Schema.read .worldConfig options = .ok config →
    ∃ found, story.principals config = .ok found
  threads : ∃ found, story.urgentThreads = .ok found
  derived : ∀ bindings, ∀ root ∈ ["actor", "target"], ∀ name ∈ Context.derivedNames,
    ∃ context finding, Context.ofStory story bindings = .ok context ∧
      (Expr.evaluate context (root ++ "." ++ name)).2 = .ok finding

theorem Story.answers_of_typed {story : Story} {limited : Bool} (h : story.typed limited = true) :
    story.Answers limited where
  scene := Subgraph.extract_of_typed (entities_of_typed h)
  episode hlimited := by
    subst hlimited
    exact Decay.apply_ok (entities_of_typed h)
  principals _ _ := principals_ok (entities_of_typed h)
  threads := urgentThreads_ok (entities_of_typed h)
  derived bindings root hroot name hname := by
    obtain ⟨context, hcontext, htyped⟩ := Context.ofStory_ok (entities_of_typed h) bindings
    obtain ⟨finding, hfinding⟩ := Context.evaluate_derived htyped hroot hname
    exact ⟨context, finding, hcontext, hfinding⟩

namespace Delta

variable {document : Value} {story : Story} {deltas : List Delta} {tag : Tag}

/-- A story that was read can be asked for everything after any deltas that are applied and that
keep to the types, each in its turn. -/
theorem answers_applyAll (limited : Bool) (hdocument : document.isDocument = true)
    (hread : Story.read document = .ok story) (hfade : limited = true → story.statsFade = true)
    (hd : ∀ d ∈ deltas, d.value.isDocument = true) (hu : InTurn Unshadowed story deltas)
    (happlied : InTurn (fun s d => (apply s d tag).isApplied = true) story deltas)
    (hkeeps : InTurn (fun s d => keepsTypes limited s d = true) story deltas) :
    (applyAll story deltas tag).story.Answers limited := by
  have htyped : story.typed limited = true := by
    have hfirst := Story.typed_of_read hdocument hread
    cases limited with
    | false => exact hfirst
    | true => exact Story.typed_of_statsFade hfirst (hfade rfl)
  rw [applyAll_story]
  exact Story.answers_of_typed (typed_applyEach (Story.standing_of_read hdocument hread) hd hu
    happlied hkeeps htyped)

/-- The document of a story with a character and a secret that has an extra stat and fades. -/
def heatedDocument : Value :=
  .mapping [("characters", .list [.mapping [("id", .text "a")]]),
    ("secrets", .list [.mapping [("id", .text "letter"), ("stats", .mapping [("heat", .int 2)]),
      ("decay", .mapping [("half_life_episodes", .int 2), ("applies_to", .list [.text "heat"])])]])]

/-- A delta with a path and a value. -/
def change (op : DeltaOp) (path : String) (value : Value) : Delta :=
  ⟨op, path, value, none, none, none, none⟩

/-- An archetype, a holder of the secret, and more heat. -/
def heatedBatch : List Delta :=
  [change .set "characters.a.archetype" (.text "rival"),
    change .append "secrets.letter.holders" (.text "a"),
    change .add "secrets.letter.stats.heat" (.int 3)]

theorem answers_applyAll_heated : ∃ story, Story.read heatedDocument = .ok story ∧
    (applyAll story heatedBatch ⟨none, none⟩).story.Answers true := by
  obtain ⟨story, hread, hfade, hu, happlied, hkeeps⟩ := Story.exists_read heatedDocument
    (fun story => story.statsFade = true ∧ InTurn Unshadowed story heatedBatch ∧
      InTurn (fun s d => (apply s d ⟨none, none⟩).isApplied = true) story heatedBatch ∧
        InTurn (fun s d => keepsTypes true s d = true) story heatedBatch) (by decide +kernel)
  exact ⟨story, hread, answers_applyAll true (by decide +kernel) hread (fun _ => hfade)
    (by decide +kernel) hu happlied hkeeps⟩

/-- A character can be given a number for a mind, and no scene with it is told of anything. -/
theorem scene_lost_mindless : ∃ story, Story.read heatedDocument = .ok story ∧
    InTurn (fun s d => (apply s d ⟨none, none⟩).isApplied = true) story
      [change .set "characters.a.bdi" (.int 5)] ∧
    ¬∃ g, Subgraph.extract
      (applyAll story [change .set "characters.a.bdi" (.int 5)] ⟨none, none⟩).story
      [.text "a"] Limits.standard = .ok g := by
  obtain ⟨story, hread, happlied, hlost⟩ := Story.exists_read heatedDocument
    (fun story => InTurn (fun s d => (apply s d ⟨none, none⟩).isApplied = true) story
      [change .set "characters.a.bdi" (.int 5)] ∧ (Subgraph.extract
      (applyAll story [change .set "characters.a.bdi" (.int 5)] ⟨none, none⟩).story
      [.text "a"] Limits.standard).toOption.isSome = false) (by decide +kernel)
  refine ⟨story, hread, happlied, ?_⟩
  rintro ⟨g, hg⟩
  rw [hg] at hlost
  cases hlost

end Delta

end StoryWorld
