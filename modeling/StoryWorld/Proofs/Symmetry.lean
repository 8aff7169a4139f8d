import StoryWorld.Proofs.Equality
import StoryWorld.Proofs.TidyAlong

/-!
When the two sides of a comparison can be exchanged.

Equality of values is symmetric wherever no key stands twice, and no value of a story has a key
twice. The strict comparison reads a mapping as an entity only where the entity stands on the left;
with the mapping on the left the two are never equal. So the sides can be exchanged unless one of
them is an entity and the other a mapping that is read as an equal one.
-/

namespace StoryWorld

namespace Value

variable {v w left right : Value}

/-- The keys of the slots that count are those of the entity. -/
theorem nodup_counted {slots : List (Slot × Value)} (h : (Table.keys slots).Nodup) :
    (Table.keys (counted slots)).Nodup := Table.nodup_keys_filter h _

theorem mem_of_counted {slots : List (Slot × Value)} {e : Slot × Value} (h : e ∈ counted slots) :
    e ∈ slots := List.mem_of_mem_filter h

/-- Equality of tidy values is symmetric. -/
theorem equal_symm (hv : v.Tidy) (hw : w.Tidy) (h : v.equal w = true) : w.equal v = true := by
  induction v using induct generalizing w with
  | list xs ih =>
    cases w with
    | list ys =>
      rw [equal_list_iff] at h ⊢
      refine ⟨h.1.symm, fun i y x hy hx => ?_⟩
      have hxs := List.mem_of_getElem? hx
      exact ih x hxs (tidy_list.1 hv x hxs) (tidy_list.1 hw y (List.mem_of_getElem? hy))
        (h.2 i x y hx hy)
    | _ => simp [equal] at h
  | mapping es ih =>
    cases w with
    | mapping fs =>
      obtain ⟨hes, hev⟩ := tidy_mapping.1 hv
      obtain ⟨hfs, hfw⟩ := tidy_mapping.1 hw
      rw [equal_mapping_iff] at h ⊢
      exact (h.symm hes hfs).imp fun f hf e he hequal => ih e he (hev e he) (hfw f hf) hequal
    | _ => simp [equal] at h
  | entity kind slots ih =>
    cases w with
    | entity l ts =>
      obtain ⟨-, hss, hev⟩ := tidy_entity.1 hv
      obtain ⟨-, hts, hfw⟩ := tidy_entity.1 hw
      rw [equal_entity_iff] at h ⊢
      obtain ⟨rfl, hmatches⟩ := h
      refine ⟨rfl, (hmatches.symm (nodup_counted hss.unique) (nodup_counted hts.unique)).imp
        fun f hf e he hequal => ?_⟩
      exact ih e (mem_of_counted he) (hev e (mem_of_counted he)) (hfw f (mem_of_counted hf)) hequal
    | _ => simp [equal] at h
  | bool a =>
    cases w with
    | bool b =>
      simp only [equal, beq_iff_eq] at h ⊢
      exact h.symm
    | number n =>
      simp only [equal] at h ⊢
      rwa [Number.equal_comm]
    | _ => simp [equal] at h
  | number m =>
    cases w with
    | bool b =>
      simp only [equal] at h ⊢
      rwa [Number.equal_comm]
    | number n =>
      simp only [equal] at h ⊢
      rwa [Number.equal_comm]
    | _ => simp [equal] at h
  | null => cases w <;> simp_all [equal]
  | text s => cases w <;> simp_all [equal]
  | builtin b => cases w <;> simp_all [equal]

theorem equal_comm (hv : v.Tidy) (hw : w.Tidy) : v.equal w = w.equal v :=
  Bool.eq_iff_iff.2 ⟨equal_symm hv hw, equal_symm hw hv⟩

/-- Where an entity is taken for a mapping, the comparison does not say that they differ. -/
theorem TakenFor.strictEqual_ne (h : left.TakenFor right) : left.strictEqual right ≠ .ok false := by
  obtain ⟨kind, slots, es, rfl, rfl, hoverflow | ⟨w, hw, hequal⟩⟩ := h
  · simp [strictEqual, isBool, hoverflow]
  · simp [strictEqual, isBool, hw, hequal]

/-- With the mapping on the left it does. -/
theorem TakenFor.strictEqual_swap (h : left.TakenFor right) : right.strictEqual left = .ok false := by
  obtain ⟨kind, slots, es, rfl, rfl, -⟩ := h
  simp [strictEqual, isBool, equal]

/-- Tidy values compare the same either way round just if neither is taken for the other. -/
theorem strictEqual_comm_iff (hl : left.Tidy) (hr : right.Tidy) :
    (∃ b, left.strictEqual right = .ok b ∧ right.strictEqual left = .ok b) ↔
      ¬left.TakenFor right ∧ ¬right.TakenFor left := by
  constructor
  · rintro ⟨b, hlr, hrl⟩
    constructor
    · intro h
      obtain rfl : false = b := by simpa [h.strictEqual_swap] using hrl
      exact h.strictEqual_ne hlr
    · intro h
      obtain rfl : false = b := by simpa [h.strictEqual_swap] using hlr
      exact h.strictEqual_ne hrl
  · rintro ⟨hlr, hrl⟩
    refine ⟨_, strictEqual_eq_of_not_takenFor hlr, ?_⟩
    rw [strictEqual_eq_of_not_takenFor hrl, equal_comm hr hl, Bool.beq_comm]

end Value

/-! ### What paths lead to is tidy -/

namespace Story

variable {test : Value → Outcome Bool} {xs ys : List Value}

theorem mem_of_findItem {x : Value} (h : findItem test xs = .ok (some x)) : x ∈ xs := by
  induction xs with
  | nil => simp [findItem] at h
  | cons y xs ih =>
    obtain ⟨found, -, h⟩ := Outcome.bind_ok.1 h
    split at h
    · obtain rfl : y = x := by simpa using h
      exact List.mem_cons_self
    · exact List.mem_cons_of_mem _ (ih h)

theorem mem_of_selectItems (h : selectItems test xs = .ok ys) : ∀ y ∈ ys, y ∈ xs := by
  induction xs generalizing ys with
  | nil =>
    obtain rfl : [] = ys := by simpa [selectItems] using h
    simp
  | cons x xs ih =>
    obtain ⟨keep, -, h⟩ := Outcome.bind_ok.1 h
    obtain ⟨rest, hrest, h⟩ := Outcome.bind_ok.1 h
    obtain rfl := Outcome.pure_ok.1 h
    intro y hy
    split at hy
    · rcases List.mem_cons.1 hy with rfl | hy
      · exact List.mem_cons_self
      · exact List.mem_cons_of_mem _ (ih hrest y hy)
    · exact List.mem_cons_of_mem _ (ih hrest y hy)

end Story

theorem Value.Tidy.items {v : Value} (h : v.Tidy) : ∀ x ∈ v.items, x.Tidy := by
  cases v with
  | list xs => exact tidy_list.1 h
  | _ => exact fun x hx => absurd hx (by simp [Value.items])

theorem Value.Tidy.ownedAt {v : Value} (h : v.Tidy) (place : List String) :
    (v.ownedAt place).Tidy := by
  unfold Value.ownedAt
  split
  · exact .builtin _
  · exact h

namespace Context

/-- All that a context starts from is tidy. -/
structure IsTidy (context : Context) : Prop where
  roles : ∀ root v, context.role? root = some (some v) → v.Tidy
  story : ∀ story ∈ context.story, story.toEntity.Tidy

variable {story : Story} {context : Context} {v : Value}

theorem tidy_bound {find : Value → Outcome (Option Value)} {id : Option String} {found : Option Value}
    (hfind : ∀ id x, find id = .ok (some x) → x.Tidy) (h : bound find id = .ok found) :
    ∀ x ∈ found, x.Tidy := by
  unfold bound at h
  split at h
  · intro x hx
    exact hfind _ x (hx ▸ h)
  · cases h
    simp

theorem tidy_between {actor target found : Option Value}
    (hfind : ∀ source goal x, story.relationship? source goal = .ok (some x) → x.Tidy)
    (h : between story actor target = .ok found) : ∀ x ∈ found, x.Tidy := by
  unfold between at h
  split at h
  · obtain ⟨source, -, h⟩ := Outcome.bind_ok.1 h
    obtain ⟨goal, -, h⟩ := Outcome.bind_ok.1 h
    intro x hx
    exact hfind _ _ x (hx ▸ h)
  · cases h
    simp

/-- A context is put together from what its three roles are bound to. -/
theorem ofStory_bind (story : Story) (bindings : Bindings) : ofStory story bindings =
    bound story.character? bindings.actor >>= fun actor =>
      bound story.character? bindings.target >>= fun target =>
        (if (Text.present? bindings.relationship).isSome then
          bound story.relationshipById? bindings.relationship
        else between story actor target) >>= fun tie =>
          .ok ⟨actor, target, some story.world, tie, some story,
            bindings.actor == bindings.target⟩ := by
  unfold ofStory
  split <;> rfl

/-- The context of a tidy story is tidy. -/
theorem tidy_ofStory {bindings : Bindings} (hstory : story.toEntity.Tidy)
    (h : ofStory story bindings = .ok context) : context.IsTidy := by
  have hcharacters : ∀ id x, story.character? id = .ok (some x) → x.Tidy := fun id x hx =>
    (Story.tidy_root hstory .characters).items x (Story.mem_of_findItem hx)
  have hties : ∀ x ∈ story.relationships.items, x.Tidy :=
    (Story.tidy_root hstory .relationships).items
  rw [ofStory_bind] at h
  obtain ⟨actor, hactor, h⟩ := Outcome.bind_ok.1 h
  obtain ⟨target, htarget, h⟩ := Outcome.bind_ok.1 h
  obtain ⟨tie, htie, h⟩ := Outcome.bind_ok.1 h
  obtain rfl := Except.ok.inj h
  have htie : ∀ x ∈ tie, x.Tidy := by
    split at htie
    · exact tidy_bound (fun id x hx => hties x (Story.mem_of_findItem hx)) htie
    · exact tidy_between (fun source goal x hx => hties x (Story.mem_of_findItem hx)) htie
  refine ⟨fun root v hv => ?_, fun s hs => Option.some.inj hs ▸ hstory⟩
  unfold role? at hv
  simp only at hv
  split at hv
  · exact tidy_bound hcharacters hactor v (Option.some.inj hv)
  split at hv
  · exact tidy_bound hcharacters htarget v (Option.some.inj hv)
  split at hv
  · exact Option.some.inj (Option.some.inj hv) ▸ Story.tidy_root hstory .world
  split at hv
  · exact htie v (Option.some.inj hv)
  · cases hv

namespace IsTidy

variable (h : context.IsTidy)
include h

/-- The values that are derived for a path are tidy. -/
theorem derived {ref : PathRef} {start : Value} {found : Option Value} (hstart : start.Tidy)
    (hfound : context.derived ref start = .ok found) : ∀ v ∈ found, v.Tidy := by
  have htexts : ∀ xs : List Value, (Value.list (xs.map fun power =>
      .text ("powers." ++ power.shownText))).Tidy := by
    intro xs
    refine .list fun x hx => ?_
    obtain ⟨power, -, rfl⟩ := List.mem_map.1 hx
    exact .text _
  unfold Context.derived at hfound
  split at hfound
  · cases hfound
    simp
  split at hfound
  · obtain ⟨w, hw, rfl⟩ := Outcome.map_ok.1 hfound
    obtain ⟨status, hstatus, hw⟩ := Outcome.bind_ok.1 hw
    exact fun v hv => Option.some.inj hv ▸ (hstart.get hstatus).get hw
  · obtain ⟨w, hw, rfl⟩ := Outcome.map_ok.1 hfound
    refine fun v hv => Option.some.inj hv ▸ ?_
    unfold officesOf at hw
    split at hw
    · cases hw
      exact .list (by simp)
    · obtain ⟨id, -, hw⟩ := Outcome.bind_ok.1 hw
      obtain ⟨powers, -, hw⟩ := Outcome.bind_ok.1 hw
      exact Outcome.pure_ok.1 hw ▸ htexts powers
  · obtain ⟨w, hw, rfl⟩ := Outcome.map_ok.1 hfound
    refine fun v hv => Option.some.inj hv ▸ ?_
    unfold knowledgeOf at hw
    split at hw
    · cases hw
      exact .list (by simp)
    · next story hstory =>
      obtain ⟨id, -, hw⟩ := Outcome.bind_ok.1 hw
      obtain ⟨secrets, hsecrets, hw⟩ := Outcome.bind_ok.1 hw
      obtain ⟨ids, hids, hw⟩ := Outcome.bind_ok.1 hw
      refine Outcome.pure_ok.1 hw ▸ .list fun x hx => ?_
      obtain ⟨secret, hsecret, hget⟩ := Outcome.mem_of_mapM hids x hx
      have hmem := Story.mem_of_selectItems hsecrets secret hsecret
      exact ((Story.tidy_root (h.story story hstory) .secrets).items secret hmem).get hget
  · cases hfound
    simp

/-- What a path of a condition stands for is tidy. -/
theorem resolve {ref : PathRef} (hv : context.resolve ref = .ok v) : v.Tidy := by
  obtain ⟨start, hrole, hv⟩ := Outcome.bind_ok.1 hv
  obtain ⟨found, hfound, hv⟩ := Outcome.bind_ok.1 hv
  have hstart : start.Tidy := by
    unfold roleValue at hrole
    split at hrole
    · cases hrole
    · cases hrole
    · next hbound => exact h.roles _ _ (Except.ok.inj hrole ▸ hbound)
  split at hv
  · obtain rfl := Outcome.pure_ok.1 hv
    exact h.derived hstart hfound _ rfl
  split at hv
  · exact Outcome.pure_ok.1 hv ▸ hstart
  · obtain ⟨steps, -, hv⟩ := Outcome.bind_ok.1 hv
    obtain ⟨w, hw, hv⟩ := Outcome.bind_ok.1 hv
    exact Outcome.pure_ok.1 hv ▸ (hstart.follow hw).ownedAt _

end IsTidy

end Context

/-- A value that a path reads from a story: a path of the story itself, or one of a condition. -/
inductive Story.Reads (story : Story) : Value → Prop
  | path {path : String} {v : Value} (h : story.readPath path = .ok v) : Reads story v
  | condition {bindings : Bindings} {context : Context} {ref : PathRef} {v : Value}
    (hcontext : Context.ofStory story bindings = .ok context) (h : context.resolve ref = .ok v) :
    Reads story v

theorem Story.Reads.tidy {story : Story} (hstory : story.toEntity.Tidy) {v : Value}
    (h : story.Reads v) : v.Tidy := by
  cases h with
  | path h =>
    obtain ⟨place, -, hread⟩ := Outcome.bind_ok.1 h
    obtain ⟨w, hw, hread⟩ := Outcome.bind_ok.1 hread
    exact ((Story.tidy_root hstory place.root).follow hw).read hread
  | condition hcontext h => exact (Context.tidy_ofStory hstory hcontext).resolve h

/-- A condition that asks whether two paths are equal compares what they stand for. -/
theorem Expr.result_equality {context : Context} {a b : PathRef} {left right : Value}
    (ha : context.resolve a = .ok left) (hb : context.resolve b = .ok right) :
    Expr.result context (.comparison .eq (.path a) (.path b)) =
      (left.strictEqual right).map Value.bool := by
  simp only [Expr.result, Expr.value, ha, hb, Outcome.ok_bind, Expr.compareValues, Expr.relation?]
  cases left.strictEqual right <;> rfl

namespace Story

/-- The answers of comparing what two paths read, either way round. -/
def compared (story : Story) (a b : String) : Outcome (Bool × Bool) := do
  let left ← story.readPath a
  let right ← story.readPath b
  return (← left.strictEqual right, ← right.strictEqual left)

theorem compared_ok {story : Story} {a b : String} {answers : Bool × Bool}
    (h : (story.compared a b).toOption = some answers) :
    ∃ left right, story.readPath a = .ok left ∧ story.readPath b = .ok right ∧
      left.strictEqual right = .ok answers.1 ∧ right.strictEqual left = .ok answers.2 := by
  obtain ⟨r, hr⟩ : ∃ r, story.compared a b = .ok r := by
    cases hc : story.compared a b with
    | error fault =>
      rw [hc] at h
      cases h
    | ok r => exact ⟨r, rfl⟩
  rw [hr] at h
  obtain rfl : r = answers := Option.some.inj h
  obtain ⟨left, hleft, hr⟩ := Outcome.bind_ok.1 hr
  obtain ⟨right, hright, hr⟩ := Outcome.bind_ok.1 hr
  obtain ⟨x, hx, hr⟩ := Outcome.bind_ok.1 hr
  obtain ⟨y, hy, hr⟩ := Outcome.bind_ok.1 hr
  obtain rfl := Outcome.pure_ok.1 hr
  exact ⟨left, right, hleft, hright, hx, hy⟩

/-- A character whose extra field is an object that every entity of the kind of its status can be
read from. -/
def twinDocument : Value :=
  .mapping [("characters", .list [.mapping [("id", .text "a"), ("twin", .mapping []),
    ("stats", .mapping [("luck", .int 1)]), ("chances", .mapping [("luck", .float 1)])]])]

end Story

end StoryWorld
