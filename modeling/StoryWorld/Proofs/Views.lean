import StoryWorld.Proofs.Growth
import StoryWorld.Proofs.Named
import StoryWorld.Proofs.Typed
import StoryWorld.Retrieval.Subgraph

/-!
What a scene is told can always be put together.

The fields of typed entities, and so of those of a story that was read, hold values of the types
that the views of a scene ask for. So each view of a tie, a secret, a belief or a holding is put
together, whatever is sorted has numbers for its keys, and extracting what a scene is told never
fails. Which secrets and holdings are told of is decided by the participants among the ids in their
fields.
-/

namespace StoryWorld

/-- A mapped run that cannot fail, and where its results come from. -/
theorem Outcome.mapM_ok {α β : Type} {f : α → Outcome β} {xs : List α}
    (h : ∀ x ∈ xs, ∃ y, f x = .ok y) :
    ∃ ys, xs.mapM f = .ok ys ∧ ∀ y ∈ ys, ∃ x ∈ xs, f x = .ok y := by
  induction xs with
  | nil => exact ⟨[], rfl, by simp⟩
  | cons x xs ih =>
    rw [List.forall_mem_cons] at h
    obtain ⟨y, hy⟩ := h.1
    obtain ⟨ys, hys, hfrom⟩ := ih h.2
    refine ⟨y :: ys, by simp [List.mapM_cons, hy, hys, Outcome.ok_bind], ?_⟩
    rw [List.forall_mem_cons]
    refine ⟨⟨x, List.mem_cons_self, hy⟩, fun z hz => ?_⟩
    obtain ⟨w, hw, hz⟩ := hfrom z hz
    exact ⟨w, List.mem_cons_of_mem _ hw, hz⟩

theorem Outcome.mapM_eq {α β : Type} {f : α → Outcome β} {g : α → β} {xs : List α}
    (h : ∀ x ∈ xs, f x = .ok (g x)) : xs.mapM f = .ok (xs.map g) := by
  induction xs with
  | nil => rfl
  | cons x xs ih =>
    rw [List.forall_mem_cons] at h
    rw [List.mapM_cons, h.1, Outcome.ok_bind, ih h.2]
    rfl

/-- What a mapped run gives, it gives item by item. -/
theorem Outcome.forall₂_of_mapM {α β : Type} {f : α → Outcome β} {xs : List α} {ys : List β}
    (h : xs.mapM f = .ok ys) : List.Forall₂ (fun x y => f x = .ok y) xs ys := by
  induction xs generalizing ys with
  | nil =>
    obtain rfl : [] = ys := by simpa using h
    exact .nil
  | cons x xs ih =>
    rw [List.mapM_cons] at h
    obtain ⟨z, hz, h⟩ := bind_ok.1 h
    obtain ⟨zs, hzs, h⟩ := bind_ok.1 h
    obtain rfl := pure_ok.1 h
    exact .cons hz (ih hzs)

theorem Outcome.mem_of_mapM {α β : Type} {f : α → Outcome β} {xs : List α} {ys : List β}
    (h : xs.mapM f = .ok ys) : ∀ y ∈ ys, ∃ x ∈ xs, f x = .ok y := by
  intro y hy
  have hall := forall₂_of_mapM h
  clear h
  induction hall with
  | nil => cases hy
  | @cons x z xs zs hxz _ ih =>
    rcases List.mem_cons.1 hy with rfl | hy
    · exact ⟨x, List.mem_cons_self, hxz⟩
    · obtain ⟨w, hw, hfw⟩ := ih hy
      exact ⟨w, List.mem_cons_of_mem _ hw, hfw⟩

theorem Value.holds_lt (m n : Number) :
    (Value.number m).holds .lt (.number n) = .ok (m.less n) := by
  have hless : m.less n = Relation.lt.ofNumbers m n := by
    rw [Number.less, Relation.ofNumbers]
    cases m.compare? n <;> rfl
  rw [hless]
  rfl

/-! ### Reading what is given in full -/

namespace Schema

@[simp] theorem validate_text (s : String) : validate .text (.text s) = .accepted (.text s) := rfl

@[simp] theorem validate_whole (n : ℤ) : validate .whole (.int n) = .accepted (.int n) := rfl

/-- A document that gives every field of a kind, as the kind takes it, is read if other entries are
passed over. -/
theorem read_of_given {kind : Kind} {es : List (String × Value)} (hkind : kind.unknown = .ignore)
    (h : ∀ f ∈ kind.fields, f.1.rule = .free ∧ ∃ name v, given? f.1.accepted es = some (name, v) ∧
      validate f.2 v = .accepted v) : ∃ w, read kind (.mapping es) = .ok w := by
  have hprepare : prepare kind es = es := prepare_of_ne (by rintro rfl; cases hkind) es
  have hfields : ∀ fields : Fields, (∀ f ∈ fields, f.1.rule = .free ∧
      ∃ name v, given? f.1.accepted es = some (name, v) ∧ validate f.2 v = .accepted v) →
        ∃ slots, validateFields fields es = .accepted slots := by
    intro fields h
    induction fields with
    | nil => exact ⟨[], rfl⟩
    | cons f fields ih =>
      rw [List.forall_mem_cons] at h
      obtain ⟨⟨hrule, name, v, hgiven, hv⟩, hrest⟩ := h
      obtain ⟨slots, hslots⟩ := ih hrest
      refine ⟨(.field f.1.name, v) :: slots, ?_⟩
      rw [validateFields, hgiven, hslots, hrule]
      show ((((validate f.2 v).andThen _).under name).both _ _) = _
      rw [hv]
      rfl
  obtain ⟨slots, hslots⟩ := hfields kind.fields h
  refine ⟨.entity kind slots, ?_⟩
  rw [read, Verdict.outcome_ok, Kind.shape, validate, hprepare]
  simp only [hslots, unknownSlots, hkind, Verdict.both, Verdict.andThen, List.append_nil]
  exact checkWhole_of_ne (by rintro rfl; cases hkind) _

end Schema

namespace Subgraph

open Schema

variable {limited : Bool}

/-! ### Ties -/

section Tie

variable {tie : Value}

/-- What the weights of a tie say depends on numbers. -/
theorem weightsSay_ok {es : List (String × Value)} (hes : tie.get "weights" = .ok (.mapping es))
    (hnumbers : ∀ e ∈ es, ∃ n, e.2 = .number n) :
    ∀ labels, ∃ said, weightsSay tie labels = .ok said
  | [] => ⟨[], rfl⟩
  | (name, threshold, label) :: labels => by
    obtain ⟨said, hsaid⟩ := weightsSay_ok hes hnumbers labels
    obtain ⟨n, hn⟩ := number_of_key hnumbers name
    rw [weightsSay, hes, Outcome.ok_bind, Value.getKey, Outcome.ok_bind, hn, hsaid]
    exact ⟨_, rfl⟩

theorem flagsSay_ok {es : List (String × Value)} (hes : tie.get "flags" = .ok (.mapping es)) :
    ∀ labels, ∃ said, flagsSay tie labels = .ok said
  | [] => ⟨[], rfl⟩
  | (name, label) :: labels => by
    obtain ⟨said, hsaid⟩ := flagsSay_ok hes labels
    rw [flagsSay, hes, Outcome.ok_bind, Value.getKey, Outcome.ok_bind, hsaid]
    exact ⟨_, rfl⟩

/-- The view of a typed tie is put together. -/
theorem relationshipView_ok {w : Walk.Walked}
    (h : typed limited Kind.relationship.shape w.tie = true) :
    ∃ view, relationshipView w = .ok view := by
  obtain ⟨source, hsource⟩ := get_text "from_" rfl h rfl rfl
  obtain ⟨target, htarget⟩ := get_text "to" rfl h rfl rfl
  obtain ⟨type, htype⟩ := get_text "type" rfl h rfl rfl
  obtain ⟨weights, hweights, hnumbers⟩ := get_mapping "weights" rfl h rfl rfl
  obtain ⟨flags, hflags, -⟩ := get_mapping "flags" rfl h rfl rfl
  have hnumber := numbers_of_typed hnumbers
  have hdynamic : ∃ s, dynamic w.tie = .ok (.text s) := by
    obtain ⟨said, hsaid⟩ :=
      weightsSay_ok hweights hnumber weightLabels
    obtain ⟨said', hsaid'⟩ := flagsSay_ok hflags flagLabels
    rw [dynamic, hsaid, Outcome.ok_bind, hsaid', Outcome.ok_bind]
    simp only
    split
    · exact ⟨type, htype⟩
    · exact ⟨_, rfl⟩
  obtain ⟨s, hs⟩ := hdynamic
  have hread : validate (.mapping .number) (.mapping weights) = .accepted (.mapping weights) := by
    have hmap := @validate_mapping .number id id weights fun e he => by
      obtain ⟨n, hn⟩ := hnumber e he
      rw [hn]
      rfl
    simpa using hmap
  rw [relationshipView, hsource, htarget, htype, hs, hweights]
  refine read_of_given rfl ?_
  simp [Kind.fields, Fields.relationshipView, Shape.required, Shape.named, Shape.plain, given?,
    Table.get?, hread]

end Tie

/-! ### Sorting -/

/-- An item is put in before the first one of a lower key. -/
theorem insertSorted_split (n : Number) (item : Value) :
    ∀ {sorted : List (Value × Value)}, (∀ e ∈ sorted, ∃ m, e.1 = .number m) →
      ∃ l r, sorted = l ++ r ∧
        insertSorted (.number n) item sorted = .ok (l ++ (.number n, item) :: r) ∧
        (∀ e ∈ l, ∃ m, e.1 = .number m ∧ m.less n = false) ∧
        ∀ e ∈ r.head?, ∃ m, e.1 = .number m ∧ m.less n = true
  | [], _ => ⟨[], [], rfl, rfl, by simp, by simp⟩
  | (k, v) :: rest, h => by
    rw [List.forall_mem_cons] at h
    obtain ⟨⟨m, hk⟩, hrest⟩ := h
    obtain rfl : k = .number m := hk
    rw [insertSorted, Value.holds_lt, Outcome.ok_bind]
    split
    · next hless =>
      refine ⟨[], _, rfl, rfl, by simp, fun e he => ?_⟩
      obtain rfl : (.number m, v) = e := Option.some.inj he
      exact ⟨m, rfl, hless⟩
    · next hless =>
      obtain ⟨l, r, rfl, hinsert, hl, hr⟩ := insertSorted_split n item hrest
      refine ⟨(.number m, v) :: l, r, rfl, by rw [hinsert]; rfl, ?_, hr⟩
      exact List.forall_mem_cons.2 ⟨⟨m, rfl, Bool.eq_false_iff.2 hless⟩, hl⟩

theorem foldlM_insertSorted : ∀ {keyed sorted : List (Value × Value)},
    (∀ e ∈ keyed ++ sorted, ∃ n, e.1 = .number n) →
      ∃ out, keyed.foldlM (fun sorted e => insertSorted e.1 e.2 sorted) sorted = .ok out ∧
        ∀ e ∈ out, e ∈ keyed ++ sorted
  | [], sorted, _ => ⟨sorted, rfl, fun e he => he⟩
  | (k, v) :: keyed, sorted, h => by
    rw [List.cons_append, List.forall_mem_cons, List.forall_mem_append] at h
    obtain ⟨⟨n, hn⟩, hkeyed, hsorted⟩ := h
    obtain rfl : k = .number n := hn
    obtain ⟨l, r, rfl, hout, -⟩ := insertSorted_split n v hsorted
    have hmem : ∀ e, e ∈ l ++ (.number n, v) :: r ↔ e = (.number n, v) ∨ e ∈ l ++ r := fun e => by
      simp only [List.mem_append, List.mem_cons]
      tauto
    have hall : ∀ e ∈ keyed ++ (l ++ (.number n, v) :: r), ∃ n, e.1 = .number n := by
      refine List.forall_mem_append.2 ⟨hkeyed, fun e he => ?_⟩
      rcases (hmem e).1 he with rfl | he
      · exact ⟨n, rfl⟩
      · exact hsorted e he
    obtain ⟨out', hout', hfrom'⟩ := foldlM_insertSorted hall
    refine ⟨out', by rw [List.foldlM_cons, hout, Outcome.ok_bind, hout'], fun e he => ?_⟩
    rcases List.mem_append.1 (hfrom' e he) with he | he
    · exact List.mem_cons_of_mem _ (List.mem_append_left _ he)
    · rcases (hmem e).1 he with rfl | he
      · exact List.mem_cons_self
      · exact List.mem_cons_of_mem _ (List.mem_append_right _ he)

/-- Items that have numbers for their keys are sorted. -/
theorem sorted_ok {key : Value → Outcome Value} {items : List Value}
    (h : ∀ item ∈ items, ∃ n, key item = .ok (.number n)) :
    ∃ keyed sorted, withKeys key items = .ok keyed ∧ sortDescending keyed = .ok sorted ∧
      ∀ v ∈ sorted, v ∈ items := by
  have hkey : ∀ item ∈ items, ∃ e, ((key item).map fun k => (k, item)) = .ok e := fun item hi => by
    obtain ⟨n, hn⟩ := h item hi
    exact ⟨_, by rw [hn]; rfl⟩
  obtain ⟨keyed, hkeyed, hfrom⟩ := Outcome.mapM_ok hkey
  have hentry : ∀ e ∈ keyed, (∃ n, e.1 = .number n) ∧ e.2 ∈ items := by
    intro e he
    obtain ⟨item, hi, heq⟩ := hfrom e he
    obtain ⟨n, hn⟩ := h item hi
    rw [hn] at heq
    cases heq
    exact ⟨⟨n, rfl⟩, hi⟩
  obtain ⟨out, hout, hmem⟩ := @foldlM_insertSorted keyed [] fun e he =>
    (hentry e (by simpa using he)).1
  refine ⟨keyed, out.map Prod.snd, hkeyed, by rw [sortDescending, hout]; rfl, fun v hv => ?_⟩
  obtain ⟨e, he, rfl⟩ := List.mem_map.1 hv
  exact (hentry e (by simpa using hmem e he)).2

/-- The first of some sorted items have views if all have. -/
theorem ranked_ok {key view : Value → Outcome Value} {items : List Value} (count : ℕ)
    (hkey : ∀ item ∈ items, ∃ n, key item = .ok (.number n))
    (hview : ∀ item ∈ items, ∃ v, view item = .ok v) :
    ∃ views, (do
      let sorted ← sortDescending (← withKeys key items)
      (sorted.take count).mapM view) = Except.ok views := by
  obtain ⟨keyed, sorted, hkeyed, hsorted, hmem⟩ := sorted_ok hkey
  obtain ⟨views, hviews, -⟩ := @Outcome.mapM_ok _ _ view (sorted.take count)
    fun v hv => hview v (hmem v (List.mem_of_mem_take hv))
  exact ⟨views, by rw [hkeyed, Outcome.ok_bind, hsorted, Outcome.ok_bind, hviews]⟩

/-! ### Participants -/

/-- Whether a participant is among the ids that a field lists. -/
def lists (participants : List Value) (name : String) (v : Value) : Bool :=
  (v.field name).items.any fun id => Walk.isAmong id participants

/-- Whether a secret is about a participant, or held by one. -/
def concerns (participants : List Value) (secret : Value) : Bool :=
  lists participants "subject_ids" secret || lists participants "holders" secret

/-- Whether a holding is owned by a participant. -/
def isOwned (participants : List Value) (holding : Value) : Bool :=
  Walk.isAmong (holding.field "owner") participants

variable {participants : List Value}

theorem meets_eq {name : String} {v : Value} {xs : List Value} (hget : v.get name = .ok (.list xs))
    (hxs : ∀ x ∈ xs, ∃ s, x = .text s) :
    meets participants (.list xs) = .ok (lists participants name v) := by
  have hkeys : xs.all Value.isKey = true := by
    rw [List.all_eq_true]
    intro x hx
    obtain ⟨s, rfl⟩ := hxs x hx
    rfl
  rw [meets, Value.iterate, Outcome.ok_bind, if_pos hkeys, lists, Value.field_of_get hget]
  rfl

/-! ### Secrets -/

/-- Numbers that fit floats add up to a number. -/
theorem plus_eq {a b : Number} (ha : a.fits = true) (hb : b.fits = true) :
    (Value.number a).plus (.number b) = .ok (.number ((a.add? b).getD (.int 0))) := by
  obtain ⟨n, hn⟩ : ∃ n, a.add? b = some n :=
    Option.isSome_iff_exists.1 (Number.combine?_isSome.2 (.inr ⟨ha, hb⟩))
  show (Outcome.ofSize (a.add? b)).map Value.number = _
  rw [hn]
  rfl

/-- What a secret is worth to a scene: its legal value and its public damage added up. -/
def relevanceOf (secret : Value) : Number :=
  let stat := fun name => ((secret.field "stats").field name).number?.getD (.int 0)
  ((stat "legal_value").add? (stat "public_damage")).getD (.int 0)

section Secret

variable {secret : Value} (h : typed limited Kind.secret.shape secret = true)
include h

theorem involves_eq : involves participants secret = .ok (concerns participants secret) := by
  obtain ⟨subjects, hsubjects, htexts⟩ := get_list "subject_ids" rfl h rfl rfl
  obtain ⟨holders, hholders, htexts'⟩ := get_list "holders" rfl h rfl rfl
  rw [involves, calling_of_typed h (by decide), Outcome.ok_bind, hsubjects, Outcome.ok_bind,
    meets_eq hsubjects (texts_of_typed htexts), Outcome.ok_bind, hholders, Outcome.ok_bind,
    meets_eq hholders (texts_of_typed htexts'), concerns]
  cases lists participants "subject_ids" secret <;> rfl

/-- A secret is a candidate if it concerns a participant, and is active where this is asked. -/
theorem isCandidate_eq (limits : Limits) : isCandidate participants limits secret =
    .ok (concerns participants secret &&
      (limits.inactive || (secret.field "status").equal (.text "active"))) := by
  rw [isCandidate, involves_eq h, fieldIs_of_typed "status" rfl h]
  cases limits.inactive
  · cases (secret.field "status").equal (.text "active") <;> simp
    all_goals rfl
  · simp

/-- The relevance of a secret is the sum of its two values. -/
theorem computed_relevance :
    secret.computed "relevance_score" = .ok (.number (relevanceOf secret)) := by
  obtain ⟨stats, hstats, hinner, -⟩ := get_of_typed "stats" rfl h rfl
  obtain ⟨a, hlegal, hfits⟩ := get_number "legal_value" rfl hinner rfl (.inr (.inl rfl))
  obtain ⟨b, hdamage, hfits'⟩ := get_number "public_damage" rfl hinner rfl (.inr (.inl rfl))
  have hrelevance : relevanceOf secret = (a.add? b).getD (.int 0) := by
    simp only [relevanceOf, Value.field_of_get hstats, Value.field_of_get hlegal,
      Value.field_of_get hdamage]
    rfl
  have hcompute : Value.compute "relevance_score" secret = .ok (.number (relevanceOf secret)) := by
    rw [Value.compute, if_neg (by decide), if_pos rfl, Value.relevance, hstats, Outcome.ok_bind,
      hlegal, Outcome.ok_bind, hdamage, Outcome.ok_bind, hrelevance]
    exact plus_eq (fits_of_fades hfits) (fits_of_fades hfits')
  rw [Value.computed, hcompute]

theorem secretView_ok : ∃ view, secretView secret = .ok view := by
  obtain ⟨id, hid⟩ := get_text "id" rfl h rfl rfl
  obtain ⟨holders, hholders, htexts⟩ := get_list "holders" rfl h rfl rfl
  obtain ⟨summary, hsummary⟩ := get_text "description" rfl h rfl rfl
  have hread : validate (.list .text) (.list holders) = .accepted (.list holders) := by
    have hmap := @validate_list .text (fun v => v) (fun v => v) holders fun x hx => by
      obtain ⟨s, rfl⟩ := text_of_typed (htexts x hx)
      rfl
    simpa using hmap
  rw [secretView, hid, hholders, hsummary]
  refine read_of_given rfl ?_
  simp [Kind.fields, Fields.secretView, Shape.required, Shape.many, Shape.withDefault,
    Shape.plain, given?, Table.get?, hread]

end Secret

section Told

variable {story : Story} (h : story.Entities limited)
include h

/-- The candidates among the secrets are those that concern a participant, as far as they count. -/
theorem selectItems_isCandidate (limits : Limits) :
    Story.selectItems (isCandidate participants limits) story.secrets.items =
      .ok ((story.secrets.items.filter (concerns participants)).filter fun secret =>
        limits.inactive || (secret.field "status").equal (.text "active")) := by
  rw [Story.selectItems_of_ok fun secret hs => isCandidate_eq (h.secrets secret hs) limits,
    List.filter_filter]
  simp only [Bool.and_comm]

theorem secretViews_ok (limits : Limits) :
    ∃ views, secretViews story participants limits = .ok views := by
  rw [secretViews, selectItems_isCandidate h, Outcome.ok_bind]
  have htyped : ∀ secret ∈ (story.secrets.items.filter (concerns participants)).filter
      (fun secret => limits.inactive || (secret.field "status").equal (.text "active")),
        typed limited Kind.secret.shape secret = true := fun secret hs =>
    h.secrets secret (List.mem_of_mem_filter (List.mem_of_mem_filter hs))
  exact ranked_ok limits.secrets (fun secret hs => ⟨_, computed_relevance (htyped secret hs)⟩)
    fun secret hs => secretView_ok (htyped secret hs)

end Told

/-! ### Beliefs -/

theorem beliefsOf_ok (holder : String) {character : Value}
    (h : typed limited Kind.character.shape character = true) (limits : Limits) :
    ∃ views, beliefsOf (.text holder) character limits = .ok views := by
  obtain ⟨mind, hmind, hinner, -⟩ := get_of_typed "bdi" rfl h rfl
  obtain ⟨beliefs, hbeliefs, hitems⟩ := get_list "beliefs" rfl hinner rfl rfl
  rw [beliefsOf, hmind, Outcome.ok_bind, hbeliefs, Outcome.ok_bind, Value.iterate, Outcome.ok_bind]
  refine ranked_ok limits.beliefs (fun belief hb => ?_) fun belief hb => ?_
  · obtain ⟨n, hn, -⟩ := get_number "confidence" rfl (hitems belief hb) rfl (.inr (.inl rfl))
    exact ⟨n, hn⟩
  · obtain ⟨text, htext⟩ := get_text "text" rfl (hitems belief hb) rfl rfl
    rw [beliefView, htext, Outcome.ok_bind]
    refine read_of_given rfl ?_
    simp [Kind.fields, Fields.beliefView, Shape.required, Shape.plain, given?, Table.get?]

/-- Looking a character up never fails, and finds one of the characters if any. -/
theorem character?_ok {story : Story} (h : story.Entities limited) (id : Value) :
    ∃ found, story.character? id = .ok found ∧ ∀ c ∈ found, c ∈ story.characters.items := by
  have hid : ∀ character ∈ story.characters.items,
      Story.fieldIs "id" id character = .ok ((character.field "id").equal id) :=
    fun character hc => fieldIs_of_typed "id" rfl (h.characters character hc) id
  exact ⟨_, Story.findItem_of_ok hid, fun c hc => List.mem_of_find?_eq_some hc⟩

/-- What a participant tells: the strongest beliefs of the character of that id, nothing if there is
none. -/
def Tells (story : Story) (limits : Limits) (id : String) (own : List Value) : Prop :=
  ∃ found, story.character? (.text id) = .ok found ∧
    match found with
    | none => own = []
    | some character =>
      character ∈ story.characters.items ∧ beliefsOf (.text id) character limits = .ok own

theorem exists_tells {story : Story} (h : story.Entities limited) (limits : Limits) (id : String) :
    ∃ own, Tells story limits id own := by
  obtain ⟨found, hfound, hmem⟩ := character?_ok h (.text id)
  cases found with
  | none => exact ⟨[], none, hfound, rfl⟩
  | some character =>
    have hc := hmem character rfl
    obtain ⟨own, hown⟩ := beliefsOf_ok id (h.characters character hc) limits
    exact ⟨own, some character, hfound, hc, hown⟩

/-- What a participant tells stands before what those after it tell. -/
theorem Tells.beliefViews_cons {story : Story} {limits : Limits} {id : String} {own : List Value}
    (h : Tells story limits id own) (ids : List Value) :
    beliefViews story limits (.text id :: ids) = (beliefViews story limits ids).map (own ++ ·) := by
  obtain ⟨found, hfound, htells⟩ := h
  rw [beliefViews, hfound, Outcome.ok_bind]
  cases found with
  | none =>
    obtain rfl : own = [] := htells
    cases beliefViews story limits ids <;> rfl
  | some character =>
    simp only [htells.2, Outcome.ok_bind]
    cases beliefViews story limits ids <;> rfl

/-- The beliefs that are told of are those of one participant after the other. -/
theorem exists_told {story : Story} (h : story.Entities limited) (limits : Limits) :
    ∃ told : String → List Value, (∀ id, Tells story limits id (told id)) ∧
      ∀ ids : List String, beliefViews story limits (ids.map .text) = .ok (ids.flatMap told) := by
  choose told htold using exists_tells h limits
  refine ⟨told, htold, fun ids => ?_⟩
  induction ids with
  | nil => rfl
  | cons id ids ih =>
    rw [List.map_cons, (htold id).beliefViews_cons, ih]
    rfl

/-! ### Holdings -/

section Holding

variable {holding : Value}

theorem assetView_ok (id status context : String) :
    ∃ view, assetView (.text id) (.text status) context = .ok view := by
  unfold assetView
  refine read_of_given rfl ?_
  simp [Kind.fields, Fields.assetView, Shape.required, Shape.nullable, Shape.withDefault,
    Shape.plain, given?, Table.get?, validate]

/-- A holding has a view just if it is told of. -/
def Decides (view : Viewer) (participants : List Value) (told : Bool) (holding : Value) : Prop :=
  ∃ v, view participants holding = .ok (if told then some v else none)

theorem isParticipant_text (owner : String) :
    isParticipant participants (.text owner) = .ok (Walk.isAmong (.text owner) participants) := rfl

theorem networkView_decides (h : typed limited Kind.network.shape holding = true) :
    Decides networkView participants (isOwned participants holding) holding := by
  obtain ⟨owner, howner⟩ := get_text "owner" rfl h rfl rfl
  obtain ⟨id, hid⟩ := get_text "id" rfl h rfl rfl
  obtain ⟨name, hname⟩ := get_text "name" rfl h rfl rfl
  obtain ⟨type, htype⟩ := get_text "type" rfl h rfl rfl
  obtain ⟨view, hview⟩ := assetView_ok id "active" ((Value.text name).shownText ++ " (" ++
    (Value.text type).shownText ++ ") owned by " ++ (Value.text owner).shownText)
  refine ⟨view, ?_⟩
  rw [networkView, howner, Outcome.ok_bind, isParticipant_text, Outcome.ok_bind, isOwned,
    Value.field_of_get howner]
  cases Walk.isAmong (.text owner) participants with
  | false => rfl
  | true =>
    rw [hid, hname, htype]
    simp only [Outcome.ok_bind, hview]
    rfl

theorem joined_ok {values : List Value} (h : ∀ v ∈ values, ∃ s, v = .text s) :
    ∃ s, joined values = .ok s := by
  have htext : ∀ v ∈ values, ∃ s, asText v = .ok s := fun v hv => by
    obtain ⟨s, rfl⟩ := h v hv
    exact ⟨s, rfl⟩
  obtain ⟨texts, htexts, -⟩ := Outcome.mapM_ok htext
  exact ⟨_, by rw [joined, htexts]; rfl⟩

theorem officeView_decides (h : typed limited Kind.office.shape holding = true) :
    Decides officeView participants (isOwned participants holding) holding := by
  obtain ⟨owner, howner⟩ := get_text "owner" rfl h rfl rfl
  obtain ⟨id, hid⟩ := get_text "id" rfl h rfl rfl
  obtain ⟨name, hname⟩ := get_text "name" rfl h rfl rfl
  obtain ⟨powers, hpowers, htexts⟩ := get_list "powers" rfl h rfl rfl
  obtain ⟨text, htext⟩ := joined_ok (texts_of_typed htexts)
  obtain ⟨view, hview⟩ :=
    assetView_ok id "held" ((Value.text name).shownText ++ " with powers: " ++ text)
  refine ⟨view, ?_⟩
  rw [officeView, howner, Outcome.ok_bind, isParticipant_text, Outcome.ok_bind, isOwned,
    Value.field_of_get howner]
  cases Walk.isAmong (.text owner) participants with
  | false => rfl
  | true =>
    rw [hid, hname, hpowers]
    simp only [Outcome.ok_bind, Value.iterate, htext, hview]
    rfl

theorem contractView_decides (h : typed limited Kind.contract.shape holding = true) :
    Decides contractView participants (lists participants "stakeholders" holding) holding := by
  obtain ⟨stakeholders, hstakeholders, htexts⟩ := get_list "stakeholders" rfl h rfl rfl
  obtain ⟨id, hid⟩ := get_text "id" rfl h rfl rfl
  obtain ⟨status, hstatus⟩ := get_text "status" rfl h rfl rfl
  obtain ⟨type, htype⟩ := get_text "type" rfl h rfl rfl
  obtain ⟨view, hview⟩ := assetView_ok id status ((Value.text type).shownText ++ " contract")
  refine ⟨view, ?_⟩
  rw [contractView, hstakeholders, Outcome.ok_bind, meets_eq hstakeholders (texts_of_typed htexts),
    Outcome.ok_bind]
  cases lists participants "stakeholders" holding with
  | false => rfl
  | true =>
    rw [hid, hstatus, htype]
    simp only [Outcome.ok_bind, hview]
    rfl

end Holding

/-- The views of some holdings are those of the ones that are told of. -/
theorem viewsOf_filter {view : Viewer} {told : Value → Bool} :
    ∀ {items : List Value}, (∀ item ∈ items, Decides view participants (told item) item) →
      viewsOf view participants items = viewsOf view participants (items.filter told) ∧
        ∃ views, viewsOf view participants items = .ok views
  | [], _ => ⟨rfl, [], rfl⟩
  | item :: items, h => by
    obtain ⟨⟨v, hv⟩, hrest⟩ := List.forall_mem_cons.1 h
    obtain ⟨hsame, others, hothers⟩ := viewsOf_filter hrest
    constructor
    · rw [List.filter_cons, viewsOf, hv, Outcome.ok_bind]
      cases htold : told item with
      | false =>
        rw [if_neg Bool.false_ne_true, if_neg Bool.false_ne_true, ← hsame, hothers]
        rfl
      | true => rw [if_pos rfl, if_pos rfl, viewsOf, hv, htold, Outcome.ok_bind, hsame, if_pos rfl]
    · exact ⟨_, by rw [viewsOf, hv, Outcome.ok_bind, hothers]; rfl⟩

/-- The views of the holdings depend on those that participants own or have a stake in. -/
theorem assetViews_eq {story : Story} (h : story.Entities limited) :
    (assetViews story participants = do
      let networks ← viewsOf networkView participants
        ((story.assets.field "networks").items.filter (isOwned participants))
      let offices ← viewsOf officeView participants
        ((story.assets.field "offices").items.filter (isOwned participants))
      let contracts ← viewsOf contractView participants
        ((story.assets.field "contracts").items.filter (lists participants "stakeholders"))
      return networks ++ offices ++ contracts) ∧
    ∃ views, assetViews story participants = .ok views := by
  obtain ⟨hnetworks, ns, hns⟩ := @viewsOf_filter participants _ _ _ fun network hn =>
    networkView_decides (h.networks network hn)
  obtain ⟨hoffices, os, hos⟩ := @viewsOf_filter participants _ _ _ fun office ho =>
    officeView_decides (h.offices office ho)
  obtain ⟨hcontracts, cs, hcs⟩ := @viewsOf_filter participants _ _ _ fun contract hc =>
    contractView_decides (h.contracts contract hc)
  constructor
  · rw [assetViews, hnetworks, hoffices, hcontracts]
  · exact ⟨ns ++ os ++ cs, by rw [assetViews, hns, hos, hcs]; rfl⟩

/-! ### All that a scene is told -/

/-- Extracting what a scene is told of a story with typed entities never fails. -/
theorem extract_of_typed {story : Story} (h : story.Entities limited) (seeds : List String)
    (limits : Limits) : ∃ g, extract story (seeds.map .text) limits = .ok g := by
  have hties : ∀ tie ∈ story.ties, tie.IsTie := fun tie ht => isTie_of_typed (h.ties tie ht)
  obtain ⟨ws, hreached, hbetween⟩ := Walk.reached_between hties seeds limits.hops
  obtain ⟨walked, hwalk, hperm⟩ := Walk.walk_of_reached hreached fun w hw =>
    hties _ (hbetween w hw).1
  obtain ⟨relationships, hrelationships, -⟩ :=
    @Outcome.mapM_ok _ _ relationshipView (walked.take limits.relationships) fun w hw =>
      relationshipView_ok (h.ties _ (hbetween w (hperm.mem_iff.1 (List.mem_of_mem_take hw))).1)
  obtain ⟨assets, hassets⟩ := (@assetViews_eq _ (seeds.map .text) _ h).2
  obtain ⟨told, -, hbeliefs⟩ := exists_told h limits
  obtain ⟨secrets, hsecrets⟩ := @secretViews_ok _ (seeds.map .text) _ h limits
  rw [extract, hwalk, Outcome.ok_bind, hrelationships, Outcome.ok_bind, hassets, Outcome.ok_bind,
    hbeliefs seeds, Outcome.ok_bind, hsecrets]
  exact ⟨_, rfl⟩

/-- What a scene is told is put together from what each part of it comes to. -/
theorem parts_of_extract {story : Story} {seeds : List Value} {limits : Limits} {g : Subgraph}
    (h : extract story seeds limits = .ok g) :
    (∃ walked, Walk.walk story seeds limits.hops = .ok walked ∧
      (walked.take limits.relationships).mapM relationshipView = .ok g.relationships) ∧
    assetViews story seeds = .ok g.assets ∧ beliefViews story limits seeds = .ok g.beliefs ∧
    secretViews story seeds limits = .ok g.secrets := by
  obtain ⟨walked, hwalked, h⟩ := Outcome.bind_ok.1 h
  obtain ⟨relationships, hrelationships, h⟩ := Outcome.bind_ok.1 h
  obtain ⟨assets, hassets, h⟩ := Outcome.bind_ok.1 h
  obtain ⟨beliefs, hbeliefs, h⟩ := Outcome.bind_ok.1 h
  obtain ⟨secrets, hsecrets, h⟩ := Outcome.bind_ok.1 h
  cases h
  exact ⟨⟨walked, hwalked, hrelationships⟩, hassets, hbeliefs, hsecrets⟩

/-- Extracting what a scene is told of a story that was read never fails. -/
theorem extract_ok {document : Value} {story : Story} (hd : document.isDocument = true)
    (h : Story.read document = .ok story) (seeds : List String) (limits : Limits) :
    ∃ g, extract story (seeds.map .text) limits = .ok g :=
  extract_of_typed (Story.entities_of_typed (Story.typed_of_read hd h)) seeds limits

end Subgraph

end StoryWorld
