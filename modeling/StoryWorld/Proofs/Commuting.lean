import StoryWorld.Proofs.Settled

/-!
Arithmetic in different places.

What arithmetic comes to at a place depends on the number there and on the kind of what holds it,
and the only thing that it changes is that number. So of two such deltas at different places neither
can tell whether the other was made before: both have the same outcome in either order and leave the
same story. This holds of balances too: the rehearsal on the ledger looks at holders, and no
arithmetic changes one.
-/

namespace StoryWorld

namespace Assign

/-- Whether an entity of a kind takes a number where a step leads. -/
def admits (kind : Kind) (step : Step) (n : Number) : Outcome Unit :=
  match step with
  | .slot (.field name) =>
    if kind.guarded then
      match kind.field? name with
      | none => .error .noField
      | some (field, shape) =>
        ((((Schema.validate shape (.number n)).andThen field.rule.check).under name).map
          fun _ => ()).outcome kind
    else .ok ()
  | _ => .ok ()

/-- Whether a value takes a number where a step leads. -/
def takes (w : Value) (step : Step) (n : Number) : Outcome Unit :=
  match w with
  | .entity kind _ => admits kind step n
  | _ => .ok ()

/-- A guarded field that takes a number takes it as it is. -/
theorem eq_of_guarded {kind : Kind} (hk : kind.guarded = true) {name : String} {f : Field}
    {shape : Shape} (hf : kind.field? name = some (f, shape)) {n : Number} {v : Value}
    (h : (Schema.validate shape (.number n)).andThen f.rule.check = .accepted v) :
    v = .number n ∧ kind = .ledgerEntry := by
  obtain ⟨u, hu, hv⟩ := Verdict.andThen_accepted.1 h
  have hmem := List.mem_of_find?_eq_some hf
  cases kind with
  | ledgerEntry =>
    simp only [Kind.fields, Fields.ledgerEntry, List.mem_cons, List.not_mem_nil, or_false] at hmem
    rcases hmem with heq | heq <;> cases heq
    · cases hu
    · obtain rfl : .number n = u := by
        simpa [Schema.validate, Shape.withDefault, Shape.plain, Shape.ruled, Numeral.toNumber,
          Verdict.map] using hu
      exact ⟨Rule.eq_of_checkBalance hv, rfl⟩
  | assets =>
    simp only [Kind.fields, Fields.assets, List.mem_cons, List.not_mem_nil, or_false] at hmem
    rcases hmem with heq | heq | heq | heq | heq <;> cases heq <;> cases hu
  | _ => cases hk

/-- What is not guarded takes every number. -/
theorem takes_of_unguarded {w : Value} (step : Step) (n : Number)
    (h : ∀ kind slots, w = .entity kind slots → kind.guarded = false) : takes w step n = .ok () := by
  unfold takes
  split
  · unfold admits
    split
    · simp [h _ _ rfl]
    · rfl
  · rfl

/-- Nothing is attached to an entity in order. -/
theorem filter_documented {kind : Kind} {slots : List (Slot × Value)}
    (h : (Value.entity kind slots).Orderly) : slots.filter documented = slots := by
  cases h with
  | entity hkeys _ =>
    rw [List.filter_eq_self]
    rintro ⟨slot, x⟩ hmem
    have hslot : slot.isDocumented = true := hkeys.isDocumented _ (List.mem_map_of_mem hmem)
    cases slot <;> first | rfl | cases hslot

section Guarded

variable {kind : Kind} {slots : List (Slot × Value)} {n : Number}

/-- A field of a guarded entity has its new value checked alone. -/
theorem assign_field_number (horder : (Value.entity kind slots).Orderly)
    (hkind : kind.guarded = true) (name : String) :
    assign (.entity kind slots) (.slot (.field name)) (.number n) =
      match takes (.entity kind slots) (.slot (.field name)) n with
      | .ok () => ((Value.entity kind slots).put (.slot (.field name)) (.number n), .ok ())
      | .error fault => (.entity kind slots, .error fault) := by
  simp only [assign, toEntity, hkind, if_true, takes, admits, guardedField]
  cases hf : kind.field? name with
  | none => rfl
  | some found =>
    obtain ⟨f, shape⟩ := found
    simp only
    cases hv : (Schema.validate shape (.number n)).andThen f.rule.check with
    | rejected problems => rfl
    | overflow => rfl
    | accepted v =>
      obtain ⟨rfl, rfl⟩ := eq_of_guarded hkind hf hv
      simp only [Verdict.under, Verdict.map, Verdict.outcome, settle, horder.notes, if_true,
        filter_documented horder]
      rfl

/-- An extra field has no part in the check of a guarded entity as a whole. -/
theorem checkWhole_put_extra {name : String}
    (hassets : kind = .assets → Ledger.flaw? (.entity kind slots) = .ok none) (v : Value) :
    Schema.checkWhole kind (Table.put (.extra name) v slots) =
      .accepted (.entity kind (Table.put (.extra name) v slots)) := by
  by_cases hk : kind = .assets
  · subst hk
    have hflaw : Ledger.flaw? (.entity .assets (Table.put (.extra name) v slots)) = .ok none := by
      rw [← hassets rfl]
      simp only [Ledger.flaw?, Value.get, Value.field?,
        Table.get?_put_of_ne (show Slot.field "cash_ledger" ≠ .extra name by simp)]
    simp only [Schema.checkWhole, hflaw]
  · unfold Schema.checkWhole
    split
    · exact absurd rfl hk
    · rfl

end Guarded

/-- A part of the document of an entity either takes a number in the place of what it holds, or the
assignment fails and the entity is as it was. -/
theorem assign_number {w old : Value} {s : Step} {n : Number} (horder : w.Orderly)
    (hs : s.isDocumented = true) (hprivate : s.isPrivate = false) (hold : w.read s = .ok old)
    (hassets : ∀ slots, w = .entity .assets slots → Ledger.flaw? w = .ok none) :
    assign w s (.number n) =
      match takes w s n with
      | .ok () => (w.put s (.number n), .ok ())
      | .error fault => (w, .error fault) := by
  by_cases hguarded : ∀ kind slots, w = .entity kind slots → kind.guarded = false
  · rw [takes_of_unguarded s n hguarded, assign_eq_put horder hs hprivate hold hguarded]
  · simp only [not_forall, Bool.not_eq_false] at hguarded
    obtain ⟨kind, slots, rfl, hkind⟩ := hguarded
    obtain ⟨slot, rfl, -⟩ := Value.read_entity hs hold
    cases slot with
    | attached name => cases hs
    | given => cases hs
    | field name => exact assign_field_number horder hkind name
    | extra name =>
      have hwhole := @checkWhole_put_extra kind slots name
        (fun hk => hassets slots (by rw [hk])) (.number n)
      rw [Step.isPrivate] at hprivate
      simp only [assign, toEntity, hprivate, Bool.false_eq_true, if_false, hkind, if_true, takes,
        admits, settle, horder.notes, filter_documented horder, hwhole]
      rfl

/-- What takes a number is told by the kind of an entity alone. -/
theorem takes_put {w old new : Value} {t : Step} (ht : t.isDocumented = true)
    (h : w.read t = .ok old) (s : Step) (n : Number) : takes (w.put t new) s n = takes w s n := by
  rcases Value.read_documented ht h with ⟨kind, slots, m, rfl, rfl, -⟩ | ⟨es, k, rfl, rfl, -⟩ |
    ⟨xs, i, rfl, rfl, -⟩
  all_goals rfl

end Assign

namespace Value

variable {v x old new : Value} {steps other : List Step}

/-- What stands anywhere but inside a change stays, or is changed inside. -/
theorem follow_after (hd : ∀ s ∈ steps, s.isDocumented = true)
    (hd' : ∀ s ∈ other, s.isDocumented = true) (hold : v.follow steps = .ok old)
    (hx : v.follow other = .ok x) (hin : ¬ steps <+: other) :
    (v.replace steps new).follow other = .ok x ∨
      ∃ s y z, s.isDocumented = true ∧ x.read s = .ok y ∧
        (v.replace steps new).follow other = .ok (x.put s z) := by
  by_cases hout : other <+: steps
  · obtain ⟨rest, rfl⟩ := hout
    cases rest with
    | nil => exact absurd (by simp) hin
    | cons s rest =>
      obtain ⟨x', hx', hrest⟩ := follow_append_ok.1 hold
      obtain rfl := Except.ok.inj (hx.symm.trans hx')
      obtain ⟨y, hy, -⟩ := follow_cons.1 hrest
      have hs := hd s (List.mem_append_right _ List.mem_cons_self)
      refine .inr ⟨s, y, y.replace rest new, hs, hy, ?_⟩
      rw [follow_replace_before hd hx, replace_cons hs hy]
  · exact .inl (by rw [follow_replace_of_apart hd hd' hin hout hold, hx])

theorem number?_of_read {s : Step} {y : Value} (hs : s.isDocumented = true)
    (h : v.read s = .ok y) : v.number? = none := by
  rcases read_documented hs h with ⟨kind, slots, m, rfl, rfl, -⟩ | ⟨es, k, rfl, rfl, -⟩ |
    ⟨xs, i, rfl, rfl, -⟩
  all_goals rfl

end Value

namespace Delta

/-- What arithmetic comes to at a place: the number that takes the place of the one there. -/
def comesTo (story : Story) (place : Place) (delta : Delta)
    (f : Number → Number → Option Number) : Outcome Number := do
  let (a, b) ← requireNumbers story place delta
  let n ← Outcome.ofSize (f a b)
  let w ← place.container story
  (Assign.takes w place.last n).mapError (Place.rejection delta.path (.number n))
  return n

/-- A delta of arithmetic that leads to a place along parts of the document. -/
structure ArithmeticAt (story : Story) (delta : Delta) (place : Place)
    (f : Number → Number → Option Number) : Prop where
  op : arithmetic? delta.op = some f
  leads : Place.resolve story delta.path = .ok place
  documented : place.isDocumented = true
  written : place.last.isPrivate = false

section One

variable {story : Story} {delta : Delta} {place : Place} {f : Number → Number → Option Number}
  {n : Number}

theorem ArithmeticAt.last (hp : ArithmeticAt story delta place f) :
    place.last.isDocumented = true :=
  Place.isDocumented_iff.1 hp.documented _ (List.mem_append_right _ List.mem_cons_self)

theorem read_of_requireNumbers {a b : Number} (h : requireNumbers story place delta = .ok (a, b)) :
    place.read story = .ok (.number a) := by
  obtain ⟨v, hv, hnumbers⟩ := Outcome.bind_ok.1 h
  split at hnumbers
  · rename_i ha hb
    obtain ⟨rfl, -⟩ := Prod.mk.inj (Outcome.pure_ok.1 hnumbers)
    rw [hv]
    cases v <;> simp_all [Value.number?]
  · exact absurd hnumbers Outcome.refuse_ne_ok

theorem read_of_comesTo (h : comesTo story place delta f = .ok n) :
    ∃ a, place.read story = .ok (.number a) := by
  obtain ⟨⟨a, b⟩, hab, -⟩ := Outcome.bind_ok.1 h
  exact ⟨a, read_of_requireNumbers hab⟩

/-- Arithmetic puts what it comes to in its place, or fails and changes nothing. -/
theorem amend_arithmetic (h : story.Settled) (hp : ArithmeticAt story delta place f) :
    amend story place delta =
      match comesTo story place delta f with
      | .ok n => (place.put story (.number n), .ok ())
      | .error fault => (story, .error fault) := by
  have hamend : amend story place delta =
      writeOutcome story place delta.path (computed story place delta f) := by
    have hop := hp.op
    unfold amend
    cases hd : delta.op <;> rw [hd] at hop <;> first | cases hop; done | simp only [hop]
  rw [hamend, computed, comesTo]
  cases hnumbers : requireNumbers story place delta with
  | error fault => rfl
  | ok pair =>
    obtain ⟨a, b⟩ := pair
    cases hsize : Outcome.ofSize (f a b) with
    | error fault => simp only [Outcome.ok_bind, hsize]; rfl
    | ok n =>
      obtain ⟨old, hold⟩ := Place.read_of_resolve h.orderly hp.documented hp.leads
      obtain ⟨w, hw, hread⟩ := Outcome.bind_ok.1 hold
      have hbefore : ∀ s ∈ place.before, s.isDocumented = true := fun s hs =>
        Place.isDocumented_iff.1 hp.documented s (List.mem_append_left _ hs)
      have horder : w.Orderly := (Story.orderly_root h.orderly place.root).follow hbefore hw
      have hassets : ∀ slots, w = .entity .assets slots → Ledger.flaw? w = .ok none := by
        rintro slots rfl
        exact Place.flaw?_container h.apart h.sound h.within
          (fun s hs => Step.isHeld_of_isDocumented (hbefore s hs)) hw
      have hassign := @Assign.assign_number w old _ n horder hp.last hp.written hread hassets
      simp only [Outcome.ok_bind, hsize, hw]
      show Place.write story place delta.path (.number n) = _
      rw [Place.write, hw]
      cases ht : Assign.takes w place.last n with
      | ok u =>
        rw [ht] at hassign
        simp only [hassign, Place.setContainer_put hp.documented hw hread]
        rfl
      | error fault =>
        rw [ht] at hassign
        simp only [hassign, Place.setContainer_container hw]
        rfl

/-- Arithmetic leaves a story settled. -/
theorem settled_of_comesTo (h : story.Settled) (hp : ArithmeticAt story delta place f)
    (hn : comesTo story place delta f = .ok n) : (place.put story (.number n)).Settled := by
  obtain ⟨a, ha⟩ := read_of_comesTo hn
  refine Place.settled_put h hp.documented ha ?_
  have hamend := amend_arithmetic h hp
  rw [hn] at hamend
  by_cases hroot : place.root = .assets
  · have hown : Step.builtin Kind.ownName ∉ place.steps := fun hmem => by
      have := Place.isDocumented_iff.1 hp.documented _ hmem
      cases this
    have hassets := @isAssets_amend story place delta hroot hown h.sound.entries
    rwa [hamend] at hassets
  · rw [show (place.put story (.number n)).assets = story.assets from
      Story.root_setRoot_of_ne story (Ne.symm hroot) _]
    exact h.sound.entries

/-- The rehearsal of arithmetic never refuses what would work. -/
theorem perform_arithmetic (h : story.Settled) (hp : ArithmeticAt story delta place f) :
    perform story delta =
      match comesTo story place delta f with
      | .ok n => (place.put story (.number n), .ok ())
      | .error fault => (story, .error fault) := by
  have hamend := amend_arithmetic h hp
  have hop : delta.op ≠ .transfer := by
    intro hd
    have hop := hp.op
    rw [hd] at hop
    cases hop
  rw [perform_path hop, ← hamend]
  by_cases hroot : place.root = .assets
  · rw [amendPath, hp.leads]
    simp only [rehearse_eq hp.leads hroot]
    cases hn : comesTo story place delta f with
    | error fault =>
      rw [hn] at hamend
      simp only [hamend]
      rfl
    | ok n =>
      rw [hn] at hamend
      have hflaw := Ledger.flaw?_of_sound (settled_of_comesTo h hp hn).sound
      simp only [hamend, Outcome.ok_bind, hflaw]
      rfl
  · exact amendPath_of_ne hp.leads hroot

end One

/-! ### Two places -/

section Two

variable {story : Story} {delta : Delta} {place other : Place}
  {f : Number → Number → Option Number} {a m : Number}

/-- Inside a number there is nothing, so no other place lies on the way past it. -/
theorem not_inside_number {v : Value} (hdoc : place.isDocumented = true)
    (hv : place.read story = .ok v) (hold : other.read story = .ok (.number a))
    (hne : place ≠ other) : ¬ other.route <+: place.route := by
  rintro ⟨rest, hrest⟩
  obtain ⟨x, hx, hxv⟩ := Value.follow_append_ok.1 (hrest ▸ Place.follow_route.2 hv)
  obtain rfl := Except.ok.inj ((Place.follow_route.2 hold).symm.trans hx)
  obtain rfl := Value.follow_number (fun s hs => Place.documented_route hdoc s (by
    rw [← hrest]
    exact List.mem_append_right _ hs)) hxv
  rw [List.append_nil] at hrest
  exact hne (Place.route_injective hrest).symm

/-- The numbers that arithmetic takes, and its complaint if they are none, do not depend on a number
elsewhere. -/
theorem requireNumbers_put {v : Value} (hdoc : place.isDocumented = true)
    (hdoc' : other.isDocumented = true) (hv : place.read story = .ok v)
    (hold : other.read story = .ok (.number a)) (hin : ¬ other.route <+: place.route) :
    requireNumbers (other.put story (.number m)) place delta =
      requireNumbers story place delta := by
  rcases @Value.follow_after _ _ _ (.number m) _ _ (Place.documented_route hdoc')
      (Place.documented_route hdoc) (Place.follow_route.2 hold) (Place.follow_route.2 hv) hin
    with hsame | ⟨s, y, z, hs, hy, hchanged⟩
  · rw [← Place.toEntity_put, Place.follow_route] at hsame
    rw [requireNumbers, requireNumbers, hsame, hv]
  · rw [← Place.toEntity_put, Place.follow_route] at hchanged
    rw [requireNumbers, requireNumbers, hchanged, hv]
    simp only [Outcome.ok_bind, Value.number?_of_read hs hy,
      Value.number?_of_read hs (Value.read_put_self hs hy), Value.category_put hs hy]

theorem container_eq_of_follow {w : Value}
    (h : story.toEntity.follow (.slot (.field place.root.name) :: place.before) = .ok w) :
    place.container story = .ok w := by
  obtain ⟨x, hx, h⟩ := Value.follow_cons.1 h
  rw [Story.read_root] at hx
  obtain rfl := Except.ok.inj hx
  exact h

/-- What holds a place takes the same numbers whatever number is elsewhere. -/
theorem takes_container_put {w : Value} (hdoc : place.isDocumented = true)
    (hdoc' : other.isDocumented = true) (hw : place.container story = .ok w)
    (hold : other.read story = .ok (.number a)) (hin : ¬ other.route <+: place.route) :
    ∃ w', place.container (other.put story (.number m)) = .ok w' ∧
      ∀ n, Assign.takes w' place.last n = Assign.takes w place.last n := by
  have hcut : (Step.slot (.field place.root.name) :: place.before) <+: place.route :=
    ⟨[place.last], by rw [Place.route, Place.steps, List.cons_append]⟩
  rcases @Value.follow_after _ _ _ (.number m) _ _ (Place.documented_route hdoc')
      (fun s hs => Place.documented_route hdoc s (hcut.mem hs)) (Place.follow_route.2 hold)
      (Value.follow_cons.2 ⟨_, story.read_root _, hw⟩) (fun h => hin (h.trans hcut))
    with hsame | ⟨s, y, z, hs, hy, hchanged⟩
  · rw [← Place.toEntity_put] at hsame
    exact ⟨w, container_eq_of_follow hsame, fun _ => rfl⟩
  · rw [← Place.toEntity_put] at hchanged
    exact ⟨_, container_eq_of_follow hchanged, fun n => Assign.takes_put hs hy place.last n⟩

/-- What arithmetic comes to does not depend on a number elsewhere. -/
theorem comesTo_put (horder : story.toEntity.Orderly) (hp : ArithmeticAt story delta place f)
    (hdoc : other.isDocumented = true) (hold : other.read story = .ok (.number a))
    (hne : place ≠ other) :
    comesTo (other.put story (.number m)) place delta f = comesTo story place delta f := by
  obtain ⟨v, hv⟩ := Place.read_of_resolve horder hp.documented hp.leads
  obtain ⟨w, hw, -⟩ := Outcome.bind_ok.1 hv
  have hin := not_inside_number hp.documented hv hold hne
  obtain ⟨w', hw', htakes⟩ := @takes_container_put _ _ _ _ m _ hp.documented hdoc hw hold hin
  simp only [comesTo, requireNumbers_put hp.documented hdoc hv hold hin, hw, hw', Outcome.ok_bind,
    htakes]

/-- A delta of arithmetic leads to the same place after arithmetic elsewhere. -/
theorem ArithmeticAt.put (horder : story.toEntity.Orderly) (hp : ArithmeticAt story delta place f)
    (hdoc : other.isDocumented = true) (hold : other.read story = .ok (.number a))
    (hne : place ≠ other) : ArithmeticAt (other.put story (.number m)) delta place f := by
  have hfollow : (story.root other.root).follow other.steps = .ok (.number a) := by
    rw [← hold, Place.read_eq]
  refine ⟨hp.op, Place.resolve_put hdoc hp.documented hold
    (Value.keepsIds_of_number (Place.isDocumented_iff.1 hdoc) hfollow) ?_ hp.leads, hp.documented,
    hp.written⟩
  obtain ⟨v, hv⟩ := Place.read_of_resolve horder hp.documented hp.leads
  exact fun t rest heq => not_inside_number hp.documented hv hold hne ⟨t :: rest, heq.symm⟩

end Two

section Order

variable {document : Value} {story : Story} {d e : Delta} {p q : Place}
  {f g : Number → Number → Option Number}

/-- What a delta of arithmetic does to a settled story. -/
theorem apply_arithmetic (h : story.Settled) (hp : ArithmeticAt story d p f) (tag : Tag) :
    (apply story d tag).story =
        (match comesTo story p d f with
        | .ok n => p.put story (.number n)
        | .error _ => story) ∧
      (apply story d tag).outcome =
        match comesTo story p d f with
        | .ok _ => .ok (.applied ⟨d, tag⟩)
        | .error (.refused code message) => .ok (.rejected code message)
        | .error fault => .error fault := by
  rw [apply, perform_arithmetic h hp]
  cases comesTo story p d f with
  | ok n => exact ⟨rfl, rfl⟩
  | error fault => cases fault <;> exact ⟨rfl, rfl⟩

/-- After one delta of arithmetic another one elsewhere comes to what it would come to without
it. -/
theorem comesTo_after (h : story.Settled) (hp : ArithmeticAt story d p f)
    (hq : ArithmeticAt story e q g) (hne : p ≠ q) (tag : Tag) :
    (apply story d tag).story.Settled ∧ ArithmeticAt (apply story d tag).story e q g ∧
      comesTo (apply story d tag).story q e g = comesTo story q e g := by
  rw [(apply_arithmetic h hp tag).1]
  cases hn : comesTo story p d f with
  | error fault => exact ⟨h, hq, rfl⟩
  | ok n =>
    obtain ⟨a, ha⟩ := read_of_comesTo hn
    exact ⟨settled_of_comesTo h hp hn, hq.put h.orderly hp.documented ha hne.symm,
      comesTo_put h.orderly hq hp.documented ha hne.symm⟩

/-- Two deltas of arithmetic at different parts of the document of a story, balances included, have
the same outcomes in either order and leave the same story. -/
theorem arithmetic_commutes (hd : document.isDocument = true)
    (h : Story.read document = .ok story) (hp : ArithmeticAt story d p f)
    (hq : ArithmeticAt story e q g) (hne : p ≠ q) (tag tag' : Tag) :
    (apply (apply story d tag).story e tag').story =
        (apply (apply story e tag').story d tag).story ∧
      (apply (apply story e tag').story d tag).outcome = (apply story d tag).outcome ∧
      (apply (apply story d tag).story e tag').outcome = (apply story e tag').outcome := by
  have hsettled := Story.settled_of_read hd h
  obtain ⟨hfirst, hq', hsecond⟩ := comesTo_after hsettled hp hq hne tag
  obtain ⟨hfirst', hp', hsecond'⟩ := comesTo_after hsettled hq hp hne.symm tag'
  have hstory := apply_arithmetic hsettled hp tag
  have hstory' := apply_arithmetic hsettled hq tag'
  have hafter := apply_arithmetic hfirst hq' tag'
  have hafter' := apply_arithmetic hfirst' hp' tag
  rw [hsecond] at hafter
  rw [hsecond'] at hafter'
  refine ⟨?_, by rw [hafter'.2, hstory.2], by rw [hafter.2, hstory'.2]⟩
  rw [hafter.1, hafter'.1, hstory.1, hstory'.1]
  cases hn : comesTo story p d f with
  | error fault => cases comesTo story q e g <;> rfl
  | ok n =>
    cases hm : comesTo story q e g with
    | error fault => rfl
    | ok m =>
      obtain ⟨a, ha⟩ := read_of_comesTo hn
      obtain ⟨b, hb⟩ := read_of_comesTo hm
      obtain ⟨u, hu⟩ := Place.read_of_resolve hsettled.orderly hp.documented hp.leads
      obtain ⟨v, hv⟩ := Place.read_of_resolve hsettled.orderly hq.documented hq.leads
      exact Place.put_put_comm hp.documented hq.documented
        ⟨not_inside_number hq.documented hv ha hne.symm, not_inside_number hp.documented hu hb hne⟩
        ha hb

/-- The document of a story with a balance, a weight, and two extra fields of its assets, one of
which starts with an underscore. -/
def reserveDocument : Value :=
  .mapping [("assets", .mapping [("_reserve", .int 1), ("spare", .int 1),
      ("cash_ledger", .list [.mapping [("holder", .text "a"), ("denarii", .int 5)]])]),
    ("relationships", .list [.mapping [("id", .text "r"), ("from", .text "a"), ("to", .text "b"),
      ("weights", .mapping [("trust", .int 5)])]])]

/-- A delta that adds a number where a path leads. -/
def adding (path : String) (n : Int) : Delta := ⟨.add, path, .int n, none, none, none, none⟩

/-- A balance and a weight are changed in either order. -/
theorem arithmetic_commutes_balance : ∃ story, Story.read reserveDocument = .ok story ∧
    (apply (apply story (adding "assets.cash_ledger[0].denarii" (-9)) ⟨none, none⟩).story
      (adding "relationships.r.weights.trust" 2) ⟨none, none⟩).story =
    (apply (apply story (adding "relationships.r.weights.trust" 2) ⟨none, none⟩).story
      (adding "assets.cash_ledger[0].denarii" (-9)) ⟨none, none⟩).story := by
  obtain ⟨story, hread, hbalance, hweight⟩ := Story.exists_read reserveDocument (fun story =>
    Place.resolve story "assets.cash_ledger[0].denarii" =
        .ok ⟨.assets, [.slot (.field "cash_ledger"), .item 0], .slot (.field "denarii")⟩ ∧
      Place.resolve story "relationships.r.weights.trust" =
        .ok ⟨.relationships, [.item 0, .slot (.field "weights")], .key "trust"⟩) (by decide +kernel)
  exact ⟨story, hread, (arithmetic_commutes (by decide +kernel) hread ⟨rfl, hbalance, rfl, rfl⟩
    ⟨rfl, hweight, rfl, rfl⟩ (by decide) ⟨none, none⟩ ⟨none, none⟩).1⟩

/-- A sum at an extra field of the assets whose name starts with an underscore is lost if something
else in the assets is added to later, and stays if that was done before. -/
theorem arithmetic_attached_lost : ∃ story p q, Story.read reserveDocument = .ok story ∧
    Place.resolve story "assets._reserve" = .ok p ∧ Place.resolve story "assets.spare" = .ok q ∧
    p ≠ q ∧
    (apply (apply story (adding "assets._reserve" 1) ⟨none, none⟩).story
      (adding "assets.spare" 1) ⟨none, none⟩).story.readPath "assets._reserve" = .ok (.int 1) ∧
    (apply (apply story (adding "assets.spare" 1) ⟨none, none⟩).story
      (adding "assets._reserve" 1) ⟨none, none⟩).story.readPath "assets._reserve" =
        .ok (.int 2) := by
  obtain ⟨story, hread, hp, hq, hlost, hkept⟩ := Story.exists_read reserveDocument (fun story =>
    Place.resolve story "assets._reserve" = .ok ⟨.assets, [], .slot (.extra "_reserve")⟩ ∧
      Place.resolve story "assets.spare" = .ok ⟨.assets, [], .slot (.extra "spare")⟩ ∧
      ((apply (apply story (adding "assets._reserve" 1) ⟨none, none⟩).story
        (adding "assets.spare" 1) ⟨none, none⟩).story.readPath "assets._reserve").map
          Value.number? = .ok (some (.int 1)) ∧
      ((apply (apply story (adding "assets.spare" 1) ⟨none, none⟩).story
        (adding "assets._reserve" 1) ⟨none, none⟩).story.readPath "assets._reserve").map
          Value.number? = .ok (some (.int 2))) (by decide +kernel)
  exact ⟨story, _, _, hread, hp, hq, by decide, eq_of_map_number? hlost, eq_of_map_number? hkept⟩

end Order

end Delta

end StoryWorld
