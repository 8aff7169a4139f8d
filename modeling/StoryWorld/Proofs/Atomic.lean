import StoryWorld.Proofs.Kinds
import StoryWorld.Proofs.Runs

/-!
Path deltas that do not succeed change nothing.

A failed assignment leaves its entity as it is, with one exception: assets keep a value that only
the check of the ledger as a whole refuses. No assets stand anywhere outside their own root, as the
kinds of entity in the other roots show; and in the root of the assets an assignment that worked on
the copy works in earnest. So whatever comes of a path delta, the story is either changed by a delta
that is reported applied, or as it was.
-/

namespace StoryWorld

/-! ### Kinds that stand outside the assets -/

/-- Whether entities of a kind can stand outside the root of the assets. None that guards its fields
does. -/
def Kind.elsewhere (kind : Kind) : Bool := !kind.guarded && kind != .worldState

/-- An entity that can stand there has parts that can. -/
theorem Kind.within_shape {kind : Kind} (h : kind.elsewhere = true) :
    kind.shape.within elsewhere = true := by
  cases kind <;> first | rfl | cases h

/-- The fields of such an entity, with what they hold if nothing is given. -/
theorem Kind.within_field? {kind : Kind} {name : String} {f : Field} {shape : Shape}
    (h : kind.elsewhere = true) (hf : kind.field? name = some (f, shape)) :
    shape.within elsewhere = true := by
  have hshape := within_shape h
  rw [Kind.shape, Shape.within, Bool.and_eq_true] at hshape
  exact Shape.within_of_mem hshape.2 (List.mem_of_find?_eq_some hf)

/-- A value without entities in it, as a document is. -/
def Value.isPlain (v : Value) : Bool := v.within fun _ => false

mutual

theorem Value.within_of_isPlain (ok : Kind → Bool) : ∀ {v : Value}, v.isPlain = true →
    v.within ok = true
  | .list xs, h => by
    rw [Value.isPlain, Value.within] at h
    rw [Value.within]
    exact withinItems_of_isPlain ok h
  | .mapping es, h => by
    rw [Value.isPlain, Value.within] at h
    rw [Value.within]
    exact withinEntries_of_isPlain ok h
  | .entity kind slots, h => by simp [Value.isPlain] at h
  | .null, _ => rfl
  | .bool _, _ => rfl
  | .number _, _ => rfl
  | .text _, _ => rfl
  | .builtin _, _ => rfl

theorem Value.withinItems_of_isPlain (ok : Kind → Bool) : ∀ {xs : List Value},
    Value.withinItems (fun _ => false) xs = true → Value.withinItems ok xs = true
  | [], _ => rfl
  | x :: xs, h => by
    rw [Value.withinItems, Bool.and_eq_true] at h ⊢
    exact ⟨within_of_isPlain ok h.1, withinItems_of_isPlain ok h.2⟩

theorem Value.withinEntries_of_isPlain (ok : Kind → Bool) : ∀ {es : List (String × Value)},
    Value.withinEntries (fun _ => false) es = true → Value.withinEntries ok es = true
  | [], _ => rfl
  | (_, x) :: es, h => by
    rw [Value.withinEntries, Bool.and_eq_true] at h ⊢
    exact ⟨within_of_isPlain ok h.1, withinEntries_of_isPlain ok h.2⟩

end

namespace Story

/-- Nothing that guards its fields stands outside the root of the assets. -/
def Apart (story : Story) : Prop :=
  ∀ r, r ≠ .assets → (story.root r).within Kind.elsewhere = true

theorem Apart.setRoot {story : Story} (h : story.Apart) {r : Root} {v : Value}
    (hv : r ≠ .assets → v.within Kind.elsewhere = true) : (story.setRoot r v).Apart := by
  intro s hs
  by_cases hsr : s = r
  · subst hsr
    rw [root_setRoot_self]
    exact hv hs
  · rw [root_setRoot_of_ne story hsr]
    exact h s hs

/-- A story that a document gave has no assets outside their own root. -/
theorem apart_of_read {document : Value} {story : Story} (hd : document.isPlain = true)
    (h : read document = .ok story) : story.Apart := by
  obtain ⟨w, hw, rfl⟩ := Outcome.map_ok.1 h
  have hv := Verdict.outcome_ok.1 hw
  have hplain := Value.within_of_isPlain Kind.elsewhere hd
  intro r hr
  cases r with
  | assets => exact absurd rfl hr
  | _ => exact Schema.within_field hv hplain rfl rfl rfl

end Story

/-! ### Assignments -/

namespace Assign

variable {kind : Kind} {slots : List (Slot × Value)} {value : Value}

/-- Where a value settles, entities of the value's and the entity's kinds stand. -/
theorem within_settle {ok : Kind → Bool} {slot : Slot}
    (he : (Value.entity kind slots).within ok = true) (hv : value.within ok = true) :
    (settle kind slots slot value).1.within ok = true := by
  unfold settle
  split
  · rw [Value.within_entity] at he ⊢
    exact ⟨he.1, Value.within_put_table (fun e h => he.2 e (List.mem_filter.1 h).1) hv⟩
  · exact he

/-- An assignment brings in no kinds but those of the value. -/
theorem within_assign {c : Value} {step : Step} (hc : c.within Kind.elsewhere = true)
    (hv : value.within Kind.elsewhere = true) :
    (assign c step value).1.within Kind.elsewhere = true := by
  unfold assign
  split
  · rename_i kind slots
    have heffect := toEntity_effect kind slots step value
    generalize toEntity kind slots step value = r at heffect ⊢
    have hslots := Value.within_entity.1 hc
    cases heffect with
    | failed fault => exact hc
    | placed slot h => exact Value.within_entity.2 ⟨hslots.1, Value.within_put_table hslots.2 hv⟩
    | unnoted name => exact Value.within_entity.2 ⟨hslots.1, Value.within_put_table hslots.2 hv⟩
    | replaced es hs heq =>
      subst heq
      refine Value.within_entity.2 ⟨hslots.1, fun e he => ?_⟩
      rcases List.mem_append.1 he with he | he
      · obtain ⟨f, hf, rfl⟩ := List.mem_map.1 he
        exact Value.within_mapping.1 hv f hf
      · exact hslots.2 e (List.mem_filter.1 he).1
    | settled slot h => exact within_settle hc hv
    | settledField name f shape v hf hverdict =>
      obtain ⟨u, hu, hw⟩ := Verdict.andThen_accepted.1 hverdict
      have hshape := Kind.within_field? hslots.1 hf
      exact within_settle hc (Schema.within_check (Schema.within_validate shape hshape hv hu) hw)
  · exact Value.within_put hc hv

/-- If a value does not settle in an entity, the entity is as it was, but for assets that come to be
checked as a whole. -/
theorem settle_error (hk : kind = .assets → notes slots = false) {slot : Slot} {fault : Fault}
    (h : (settle kind slots slot value).2 = .error fault) :
    (settle kind slots slot value).1 = .entity kind slots := by
  unfold settle at h ⊢
  split
  · rename_i hn
    have hne : kind ≠ .assets := fun heq => by simp [hk heq] at hn
    rw [if_pos hn] at h
    cases kind <;> first | cases h | exact absurd rfl hne
  · rfl

/-- Whether an assignment of a value to a place of an entity puts it into a declared field of it
that cannot be noted as given. -/
def unnoted (c : Value) (step : Step) : Bool :=
  match c, step with
  | .entity kind slots, .slot (.field _) => !kind.guarded && !notes slots
  | _, _ => false

/-- A failed assignment leaves any entity as it was, but assets that come to be checked as a whole,
and one whose field cannot be noted as given. -/
theorem assign_error {c : Value} {step : Step} {fault : Fault}
    (hc : ∀ slots, c = .entity .assets slots → notes slots = false) (hn : unnoted c step = false)
    (h : (assign c step value).2 = .error fault) : (assign c step value).1 = c := by
  cases c with
  | entity kind slots =>
    have hk : kind = .assets → notes slots = false := by
      rintro rfl
      exact hc slots rfl
    simp only [assign] at h ⊢
    have heffect := toEntity_effect kind slots step value
    generalize toEntity kind slots step value = r at heffect h ⊢
    cases heffect with
    | failed fault => rfl
    | placed slot => cases h
    | unnoted name hs hg hfalse =>
      subst hs
      simp [unnoted, hg, hfalse] at hn
    | replaced es => cases h
    | settled slot => exact settle_error hk h
    | settledField name f shape v => exact settle_error hk h
  | _ => cases h

end Assign

/-! ### Path deltas keep the assets apart -/

namespace Place

variable {story : Story} {place : Place}

theorem within_container {w : Value} (h : story.Apart) (hroot : place.root ≠ .assets)
    (hw : place.container story = .ok w) : w.within Kind.elsewhere = true :=
  Value.within_follow (h _ hroot) hw

theorem within_read {v : Value} (h : story.Apart) (hroot : place.root ≠ .assets)
    (hv : place.read story = .ok v) : v.within Kind.elsewhere = true := by
  rw [read_eq] at hv
  exact Value.within_follow (h _ hroot) hv

theorem apart_write {value : Value} (h : story.Apart) (hroot : place.root ≠ .assets) (path : String)
    (hv : value.within Kind.elsewhere = true) : (place.write story path value).1.Apart := by
  unfold write
  split
  · exact h
  · have hw := within_container h hroot ‹_›
    exact h.setRoot fun _ => Value.within_replace (h _ hroot) (Assign.within_assign hw hv)

theorem apart_put {value : Value} (h : story.Apart) (hroot : place.root ≠ .assets)
    (hv : value.within Kind.elsewhere = true) : (place.put story value).Apart :=
  h.setRoot fun _ => Value.within_replace (h _ hroot) hv

/-- A list outside the assets is declared to hold what can stand there. -/
theorem elsewhere_itemKind? {kind : Kind} (h : story.Apart) (hroot : place.root ≠ .assets)
    (hk : place.itemKind? story = some kind) : kind.elsewhere = true := by
  unfold itemKind? at hk
  split at hk
  · rename_i container slots name hcontainer hlast
    split at hk
    · rename_i f item fields hf
      obtain rfl := by simpa using hk
      have hc := (Value.within_entity.1 (within_container h hroot hcontainer)).1
      have hshape := Kind.within_field? hc hf
      simp only [Shape.within, Bool.and_eq_true] at hshape
      exact hshape.1
    · cases hk
  · cases hk

end Place

namespace Delta

variable {story : Story} {place : Place} {delta : Delta}

theorem within_fit {kind : Kind} {v : Value} (hk : kind.elsewhere = true)
    (hd : delta.value.isPlain = true) (h : fit kind delta = .ok v) :
    v.within Kind.elsewhere = true := by
  unfold fit at h
  split at h
  · cases h
  · exact Schema.within_validate _ (Kind.within_shape hk)
      (Value.within_of_isPlain Kind.elsewhere hd) (Verdict.outcome_ok.1 h)

theorem within_replacement {v : Value} (h : story.Apart) (hroot : place.root ≠ .assets)
    (hd : delta.value.isPlain = true) (hv : replacement story place delta = .ok v) :
    v.within Kind.elsewhere = true := by
  have hplain := Value.within_of_isPlain Kind.elsewhere hd
  unfold replacement at hv
  split at hv
  · obtain ⟨w, hw, hv⟩ := Outcome.bind_ok.1 hv
    split at hv
    · exact within_fit (Value.within_entity.1 (Place.within_read h hroot hw)).1 hd hv
    · obtain rfl := Outcome.pure_ok.1 hv
      exact hplain
  · obtain rfl := by simpa using hv
    exact hplain

theorem within_appended {xs : List Value} (h : story.Apart) (hroot : place.root ≠ .assets)
    (hd : delta.value.isPlain = true) (hxs : appended story place delta = .ok xs) :
    (Value.list xs).within Kind.elsewhere = true := by
  obtain ⟨ys, hys, hxs⟩ := Outcome.bind_ok.1 hxs
  obtain ⟨x, hx, hxs⟩ := Outcome.bind_ok.1 hxs
  obtain rfl := Outcome.pure_ok.1 hxs
  have hlist := Value.within_list.1 (Place.within_read h hroot (requireList_ok hys))
  refine Value.within_list.2 fun y hy => ?_
  rcases List.mem_append.1 hy with hy | hy
  · exact hlist y hy
  · obtain rfl := by simpa using hy
    unfold newItem at hx
    split at hx
    · exact within_fit (Place.elsewhere_itemKind? h hroot ‹_›) hd hx
    · obtain rfl := by simpa using hx
      exact Value.within_of_isPlain Kind.elsewhere hd

theorem within_removed {xs : List Value} (h : story.Apart) (hroot : place.root ≠ .assets)
    (hxs : removed story place delta = .ok xs) : (Value.list xs).within Kind.elsewhere = true := by
  obtain ⟨ys, hread, hsub⟩ := removed_ok hxs
  have hlist := Value.within_list.1 (Place.within_read h hroot hread)
  exact Value.within_list.2 fun x hx => hlist x (hsub x hx)

/-- A delta at a place keeps the assets apart, whatever comes of it. -/
theorem apart_amend (h : story.Apart) (hd : delta.value.isPlain = true) :
    (amend story place delta).1.Apart := by
  by_cases hroot : place.root = .assets
  · have hsame : story.root place.root = story.root place.root := rfl
    obtain ⟨v, o, heq, -⟩ := amend_congr hsame delta
    rw [heq]
    exact h.setRoot fun hne => absurd hroot hne
  refine amend_keeps h
    (fun v hv => Place.apart_write h hroot delta.path (within_replacement h hroot hd hv))
    (fun f v hv => Place.apart_write h hroot delta.path ?_)
    (fun xs hxs => Place.apart_put h hroot (within_appended h hroot hd hxs))
    fun xs hxs => Place.apart_put h hroot (within_removed h hroot hxs)
  obtain ⟨n, rfl⟩ := computed_ok hv
  rfl

/-- A transfer changes the assets only. -/
theorem apart_transfer (h : story.Apart) : (transfer story delta).1.Apart :=
  transfer_keeps (fun _ _ hs => hs.setRoot fun hne => absurd rfl hne) h

/-- Any delta keeps the assets apart. -/
theorem apart_perform (hd : delta.value.isPlain = true) (h : story.Apart) :
    (perform story delta).1.Apart := by
  unfold perform
  split
  · exact apart_transfer h
  · exact amendPath_keeps h fun _ _ => apart_amend h hd

end Delta

/-! ### The end of an episode keeps the assets apart -/

namespace Decay

variable {ok : Kind → Bool}

theorem within_fadeStat {x : Float} {slots after : List (Slot × Value)} {name : Value} {hit : Bool}
    (hs : ∀ e ∈ slots, e.2.within ok = true) (h : fadeStat x slots name = .ok (after, hit)) :
    ∀ e ∈ after, e.2.within ok = true := by
  have htimes : ∀ {v w : Value}, v.times x = .ok w → w.within ok = true := by
    intro v w h
    unfold Value.times at h
    split at h
    · obtain ⟨n, -, rfl⟩ := Outcome.map_ok.1 h
      rfl
    · cases h
  unfold fadeStat at h
  split at h
  · cases h
  · simp only at h
    split at h
    · obtain ⟨faded, hf, h⟩ := Outcome.bind_ok.1 h
      obtain ⟨rfl, -⟩ := Prod.mk.inj (Outcome.pure_ok.1 h)
      exact Value.within_put_table hs (htimes hf)
    · obtain ⟨faded, hf, h⟩ := Outcome.bind_ok.1 h
      obtain ⟨rfl, -⟩ := Prod.mk.inj (Outcome.pure_ok.1 h)
      exact Value.within_put_table hs (htimes hf)
    · obtain ⟨rfl, -⟩ := by simpa using h
      exact hs

theorem within_fadeStats {x : Float} : ∀ {names : List Value} {slots : List (Slot × Value)}
    {touched : Bool}, (∀ e ∈ slots, e.2.within ok = true) →
      ∀ e ∈ (fadeStats x slots touched names).1, e.2.within ok = true
  | [], _, _, hs => hs
  | name :: names, slots, touched, hs => by
    unfold fadeStats
    split
    · exact hs
    · exact within_fadeStats (within_fadeStat hs ‹_›)

theorem within_fadeSecret {secret : Value} (decay : Value) (h : secret.within ok = true) :
    (fadeSecret secret decay).1.within ok = true := by
  unfold fadeSecret
  simp only
  split
  · exact h
  · rename_i x kind slots names hprepared
    obtain ⟨halfLife, -, hprepared⟩ := Outcome.bind_ok.1 hprepared
    obtain ⟨y, -, hprepared⟩ := Outcome.bind_ok.1 hprepared
    obtain ⟨stats, hstats, hprepared⟩ := Outcome.bind_ok.1 hprepared
    have hw := Value.within_get h hstats
    split at hprepared
    · obtain ⟨applied, -, hprepared⟩ := Outcome.bind_ok.1 hprepared
      obtain ⟨names', -, hprepared⟩ := Outcome.bind_ok.1 hprepared
      have heq := Outcome.pure_ok.1 hprepared
      simp only [Prod.mk.injEq] at heq
      obtain ⟨rfl, rfl, rfl, rfl⟩ := heq
      rw [Value.within_entity] at hw
      exact Value.within_setField h (Value.within_entity.2 ⟨hw.1, within_fadeStats hw.2⟩)
    · cases hprepared

theorem within_ofSecret (episode : Option Int) {secret : Value} (h : secret.within ok = true) :
    (ofSecret episode secret).1.within ok = true := by
  unfold ofSecret
  split
  · exact h
  · exact h
  · rename_i decay hfading
    have hdecay : decay.within ok = true := by
      obtain ⟨status, -, hfading⟩ := Outcome.bind_ok.1 hfading
      split at hfading
      · cases hfading
      · obtain ⟨d, hd, hfading⟩ := Outcome.bind_ok.1 hfading
        split at hfading
        · cases hfading
        · obtain ⟨halfLife, -, hfading⟩ := Outcome.bind_ok.1 hfading
          obtain ⟨none, -, hfading⟩ := Outcome.bind_ok.1 hfading
          split at hfading
          · cases hfading
          · obtain rfl : d = decay := by simpa using Outcome.pure_ok.1 hfading
            exact Value.within_get h hd
    have hnoted : (noteEpisode secret decay episode).within ok = true := by
      unfold noteEpisode
      split
      · exact h
      · exact Value.within_setField h (Value.within_setField hdecay rfl)
    have hfaded := within_fadeSecret decay hnoted
    split
    · exact h
    · exact h
    · simp only
      split
      · exact hfaded
      · exact hfaded
      · exact Value.within_setField hfaded rfl
      · exact hfaded

theorem within_ofSecrets {episode : Option Int} : ∀ {secrets : List Value},
    (∀ s ∈ secrets, s.within ok = true) → ∀ s ∈ (ofSecrets episode secrets).1, s.within ok = true
  | [], _ => by simp [ofSecrets]
  | secret :: rest, h => by
    have hone := within_ofSecret episode (h secret List.mem_cons_self)
    have hrest : ∀ s ∈ rest, s.within ok = true := fun s hs => h s (List.mem_cons_of_mem _ hs)
    unfold ofSecrets
    split
    · rename_i after fault heq
      rw [heq] at hone
      exact List.forall_mem_cons.2 ⟨hone, hrest⟩
    · rename_i after effect heq
      rw [heq] at hone
      exact List.forall_mem_cons.2 ⟨hone, within_ofSecrets hrest⟩

/-- An episode that ends, whatever comes of it, changes the secrets and nothing else. -/
theorem apply_story (story : Story) (episode : Option Int) : (apply story episode).story =
    story.setRoot .secrets (.list (ofSecrets episode story.secrets.items).1) := by
  unfold apply
  simp only
  split <;> rfl

theorem apart_apply {story : Story} (episode : Option Int) (h : story.Apart) :
    (apply story episode).story.Apart := by
  have hsecrets : story.secrets.within Kind.elsewhere = true := h .secrets (by decide)
  rw [apply_story]
  exact h.setRoot fun _ => Value.within_list.2 (within_ofSecrets (Value.within_items hsecrets))

end Decay

/-! ### Path deltas are atomic -/

/-- The stories that a document and calls on it lead to, whatever came of the calls. -/
inductive Reachable : Story → Prop
  | read {document : Value} {story : Story} (hd : document.isPlain = true)
    (h : Story.read document = .ok story) : Reachable story
  | call {story : Story} (h : Reachable story) (c : Call)
    (hc : ∀ delta ∈ c.deltas, delta.value.isPlain = true) : Reachable (c.run story)

theorem Reachable.apart {story : Story} (h : Reachable story) : story.Apart := by
  induction h with
  | read hd h => exact Story.apart_of_read hd h
  | call h c hc ih =>
    exact Call.run_keeps (fun _ _ hd h => Delta.apart_perform hd h)
      (fun _ episode h => Decay.apart_apply episode h) hc ih

/-- Putting back what holds a place changes nothing. -/
theorem Place.setContainer_container {story : Story} {place : Place} {w : Value}
    (hw : place.container story = .ok w) : place.setContainer story w = story := by
  rw [setContainer, Value.replace_follow hw, Story.setRoot_root]

/-- Whether a place is a declared field of an entity that can no longer note what it is given. -/
def Place.isUnnoted (story : Story) (place : Place) : Bool :=
  match place.container story with
  | .ok w => Assign.unnoted w place.last
  | .error _ => false

/-- A failed write leaves the story as it was, if a failed assignment there leaves what holds the
place as it was. -/
theorem Place.write_error {story : Story} {place : Place} {path : String} {value : Value}
    {fault : Fault}
    (hsame : ∀ w, place.container story = .ok w → ∀ cause,
      (Assign.assign w place.last value).2 = .error cause →
        (Assign.assign w place.last value).1 = w)
    (h : (place.write story path value).2 = .error fault) :
    (place.write story path value).1 = story := by
  unfold Place.write at h ⊢
  split
  · rfl
  · rename_i w hw
    simp only [hw] at h ⊢
    cases ha : (Assign.assign w place.last value).2 with
    | ok u => rw [ha] at h; cases h
    | error cause =>
      rw [hsame w hw cause ha, setContainer_container hw]

namespace Delta

variable {story : Story} {place : Place} {delta : Delta}

/-- A delta that fails at a place changes nothing, if no write there that fails so changes
anything. -/
theorem amend_error_of_write {fault : Fault}
    (hwrite : ∀ value, (place.write story delta.path value).2 = .error fault →
      (place.write story delta.path value).1 = story)
    (hf : (amend story place delta).2 = .error fault) : (amend story place delta).1 = story := by
  have hput : ∀ xs, (putOutcome story place xs).2 = .error fault →
      (putOutcome story place xs).1 = story := by
    intro xs hxs
    cases xs with
    | ok ys => cases hxs
    | error fault => rfl
  have hwritten : ∀ value, (writeOutcome story place delta.path value).2 = .error fault →
      (writeOutcome story place delta.path value).1 = story := by
    intro value hvalue
    cases value with
    | ok v => exact hwrite v hvalue
    | error fault => rfl
  have heffect := amend_effect story place delta
  generalize amend story place delta = r at heffect hf ⊢
  cases heffect with
  | replaced => exact hwritten _ hf
  | computed f => exact hwritten _ hf
  | appended => exact hput _ hf
  | removed => exact hput _ hf
  | unchanged o => rfl

/-- A failed delta at a place outside the assets changes nothing, if what is assigned there can be
noted. -/
theorem amend_error {fault : Fault} (h : story.Apart) (hroot : place.root ≠ .assets)
    (hn : place.isUnnoted story = false) (hf : (amend story place delta).2 = .error fault) :
    (amend story place delta).1 = story := by
  refine amend_error_of_write (fun v hv => ?_) hf
  refine Place.write_error (fun w hw cause hcause => ?_) hv
  refine Assign.assign_error ?_ (by rwa [Place.isUnnoted, hw] at hn) hcause
  rintro slots rfl
  have := (Value.within_entity.1 (Place.within_container h hroot hw)).1
  cases this

/-- A path delta that is not reported applied, because it is refused or because it breaks off, leaves
every reachable story as it was, unless it assigns to a field outside the assets that cannot be noted
as given. -/
theorem eq_of_not_applied (h : Reachable story) (hop : delta.op ≠ .transfer)
    (hn : ∀ place, Place.resolve story delta.path = .ok place → place.root ≠ .assets →
      place.isUnnoted story = false) {tag : Tag}
    (hr : ∀ c, (apply story delta tag).outcome ≠ .ok (.applied c)) :
    (apply story delta tag).story = story := by
  rw [apply_story]
  have hfail : ∃ fault, (perform story delta).2 = .error fault := by
    rcases hp : perform story delta with ⟨after, outcome⟩
    cases outcome with
    | ok _ => exact absurd (by rw [apply, hp]) (hr ⟨delta, tag⟩)
    | error fault => exact ⟨fault, rfl⟩
  obtain ⟨fault, hfault⟩ := hfail
  rw [perform_path hop] at hfault ⊢
  rcases amendPath_cases story delta with ⟨_, heq⟩ | ⟨place, hplace, heq, hassets⟩
  · rw [heq]
  · rw [heq] at hfault ⊢
    by_cases hroot : place.root = .assets
    · rw [(hassets hroot).1] at hfault
      cases hfault
    · exact amend_error h.apart hroot (hn place hplace hroot) hfault

/-- The document of a story whose character has an extra field with the name of its set of given
fields, and another one. -/
def luckyDocument : Value :=
  .mapping [("characters", .list [.mapping [("id", .text "a"), (Kind.givenName, .int 0),
    ("luck", .text "good")]])]

/-- A delta on a field of that character. -/
def fortune (op : DeltaOp) (field : String) (value : Value) : Delta :=
  ⟨op, "characters.a." ++ field, value, none, none, none, none⟩

/-- The story once something else took the place of that set. -/
def unnotedStory (story : Story) : Story :=
  (apply story (fortune .set Kind.givenName (.int 5)) ⟨none, none⟩).story

theorem reachable_unnotedStory (h : Story.read luckyDocument = .ok story) :
    Reachable (unnotedStory story) :=
  .call (.read (by decide +kernel) h) (.apply (fortune .set Kind.givenName (.int 5)) ⟨none, none⟩)
    fun delta hdelta => by
      obtain rfl := List.mem_singleton.1 hdelta
      rfl

/-- Even then an append to an extra field that is no list is refused, and the story is as it was. -/
theorem eq_of_refused_append : ∃ story, Story.read luckyDocument = .ok story ∧
    (apply (unnotedStory story) (fortune .append "luck" (.int 1)) ⟨none, none⟩).isApplied = false ∧
    (apply (unnotedStory story) (fortune .append "luck" (.int 1)) ⟨none, none⟩).story =
      unnotedStory story := by
  obtain ⟨story, hread, hrefused, hnoted⟩ := Story.exists_read luckyDocument (fun story =>
    (apply (unnotedStory story) (fortune .append "luck" (.int 1)) ⟨none, none⟩).isApplied = false ∧
      (Place.resolve (unnotedStory story) (fortune .append "luck" (.int 1)).path).map
        (·.isUnnoted (unnotedStory story)) = .ok false) (by decide +kernel)
  refine ⟨story, hread, hrefused, eq_of_not_applied (reachable_unnotedStory hread) (by decide)
    (fun place hplace _ => ?_) (Run.isApplied_eq_false_iff.1 hrefused)⟩
  rw [hplace] at hnoted
  exact Except.ok.inj hnoted

/-- A name that is set breaks off then, and stays. -/
theorem name_lingers_unnoted : ∃ story, Story.read luckyDocument = .ok story ∧
    Reachable (unnotedStory story) ∧
    (∀ c, (apply (unnotedStory story) (fortune .set "name" (.text "x")) ⟨none, none⟩).outcome ≠
      .ok (.applied c)) ∧
    (apply (unnotedStory story) (fortune .set "name" (.text "x")) ⟨none, none⟩).story ≠
      unnotedStory story := by
  obtain ⟨story, hread, hbroken, hbefore, hafter⟩ := Story.exists_read luckyDocument (fun story =>
    (apply (unnotedStory story) (fortune .set "name" (.text "x")) ⟨none, none⟩).isApplied = false ∧
      ((unnotedStory story).readPath "characters.a.name").map (·.textOr "?") = .ok "" ∧
      ((apply (unnotedStory story) (fortune .set "name" (.text "x")) ⟨none, none⟩).story.readPath
        "characters.a.name").map (·.textOr "?") = .ok "x") (by decide +kernel)
  refine ⟨story, hread, reachable_unnotedStory hread, Run.isApplied_eq_false_iff.1 hbroken,
    fun heq => ?_⟩
  rw [heq, hbefore] at hafter
  simp at hafter

end Delta

end StoryWorld
