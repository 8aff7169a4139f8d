import StoryWorld.Proofs.Dumped
import StoryWorld.Proofs.Spared

/-!
How often a decay names a stat.

The names are gone through one by one, and each multiplies its stat on the spot. So the order of the
names makes no difference, but their number does: a stat that is named twice is multiplied twice. Two
decays that name the same stats lead to the same values just if that makes no difference to any of
them, and from the same values follow the same statuses and the same lists.
-/

namespace StoryWorld

/-- A declared field of a typed entity can be given another value of its type. -/
theorem Schema.typed_setField {limited : Bool} {kind : Kind} {v w : Value} {name : String}
    {f : Field × Shape} (hf : kind.field? name = some f)
    (h : typed limited kind.shape v = true) (hw : typedField limited kind f w = true) :
    typed limited kind.shape (v.setField name w) = true := by
  obtain ⟨slots, rfl⟩ := entity_of_typed h
  refine typed_put h (fun g hg hname => ?_) (Option.isSome_iff_exists.2 ⟨f, hf⟩)
  have hfound : f.1.name = name := by simpa using List.find?_some hf
  obtain rfl := List.inj_on_of_nodup_map (nodup_names kind) hg (List.mem_of_find?_eq_some hf)
    ((Slot.field.inj hname).trans hfound.symm)
  exact hw

namespace Decay

open Schema Value

variable {secret after decay v w : Value} {slots faded : List (Slot × Value)} {x : Float}
  {episode : Option Int} {touched hit : Bool} {name other : String} {names : List String}
  {slot : Slot}

/-! ### The stats, slot by slot -/

/-- The slot of the stat that fades under a name: a declared one, or else an extra one that holds a
number. -/
def statSlot? (slots : List (Slot × Value)) (name : String) : Option Slot :=
  if Table.has (.field name) slots then some (.field name)
  else if (Table.get? (.extra name) slots).map Value.category = some .number then
    some (.extra name)
  else none

/-- A value multiplied several times over. -/
def timesOver (x : Float) : ℕ → Value → Outcome Value
  | 0, v => .ok v
  | n + 1, v => do timesOver x n (← v.times x)

theorem statSlot?_some (h : statSlot? slots name = some slot) :
    slot = .field name ∨ slot = .extra name := by
  unfold statSlot? at h
  split at h
  · exact .inl (Option.some.inj h).symm
  · split at h
    · exact .inr (Option.some.inj h).symm
    · cases h

/-- Of different names the stats are different. -/
theorem statSlot?_inj (h : statSlot? slots name = some slot) :
    statSlot? slots other = some slot ↔ other = name := by
  refine ⟨fun h' => ?_, fun hname => hname ▸ h⟩
  rcases statSlot?_some h with rfl | rfl <;> rcases statSlot?_some h' with heq | heq <;>
    cases heq <;> rfl

theorem statSlot?_renumbered {named : List Value} (h : Renumbered named slots faded) :
    statSlot? faded = statSlot? slots := by
  have hhas : ∀ slot, Table.has slot faded = Table.has slot slots := by
    intro slot
    rw [Table.has, Table.has, ← Option.isSome_map (f := Value.category), h.category,
      Option.isSome_map]
  funext name
  simp only [statSlot?, hhas, h.category]

/-- Fading the stat of a name multiplies what is in its slot. -/
theorem fadeStat_cases (h : fadeStat x slots (.text name) = .ok (faded, hit)) :
    statSlot? slots name = none ∧ faded = slots ∨
      ∃ slot v w, statSlot? slots name = some slot ∧ Table.get? slot slots = some v ∧
        v.times x = .ok w ∧ faded = Table.put slot w slots := by
  simp only [fadeStat, isKey, textOr, Bool.not_true, Bool.false_eq_true, if_false] at h
  split at h
  · next v _ hv =>
    obtain ⟨w, hw, hput⟩ := Outcome.bind_ok.1 h
    cases hput
    exact .inr ⟨_, v, w, by simp [statSlot?, Table.has, hv], hv, hw, rfl⟩
  · next n _ hnone hv =>
    obtain ⟨w, hw, hput⟩ := Outcome.bind_ok.1 h
    cases hput
    exact .inr ⟨_, _, w, by simp [statSlot?, Table.has, hnone, hv, Value.category], hv, hw, rfl⟩
  · next hother hnumber =>
    cases h
    refine .inl ⟨?_, rfl⟩
    have hnone : Table.get? (.field name) slots = none :=
      Option.eq_none_iff_forall_ne_some.2 fun v hv => hother v rfl hv
    rw [statSlot?, Table.has, hnone, if_neg (by simp), if_neg]
    intro hcategory
    obtain ⟨v, hv, hv'⟩ := Option.map_eq_some_iff.1 hcategory
    obtain ⟨n, rfl⟩ := number_of_category hv'
    exact hnumber n rfl hnone hv

/-- Fading the stats of several names multiplies what is in a slot as often as it is named. -/
theorem get?_fadeStats : ∀ {names : List String} {slots : List (Slot × Value)} {touched : Bool}
    {v : Value}, Numeric slots → fadeStats x slots touched (names.map .text) = (faded, .ok hit) →
      Table.get? slot slots = some v →
        ∃ w, timesOver x (names.countP (statSlot? slots · = some slot)) v = .ok w ∧
          Table.get? slot faded = some w
  | [], slots, touched, v, _, h, hv => by
    cases h
    exact ⟨v, rfl, hv⟩
  | name :: names, slots, touched, v, hn, h, hv => by
    rw [List.map_cons, fadeStats] at h
    split at h
    · cases h
    · next between first hstat =>
      have hone := (renumbered_fadeStat hn hstat).1
      have hrest := @get?_fadeStats names between
      rw [statSlot?_renumbered hone] at hrest
      rw [List.countP_cons]
      rcases fadeStat_cases hstat with ⟨hnone, rfl⟩ | ⟨own, u, w, hown, hu, hw, rfl⟩
      · simpa [hnone] using hrest (hone.numeric hn) h hv
      · by_cases hslot : own = slot
        · subst hslot
          obtain rfl := Option.some.inj (hv.symm.trans hu)
          simpa [hown, timesOver, hw, Outcome.ok_bind] using
            hrest (hone.numeric hn) h (Table.get?_put_self _ _ _)
        · simpa [hown, hslot] using hrest (hone.numeric hn) h
            ((Table.get?_put_of_ne (Ne.symm hslot) _ _).trans hv)

/-- Stats each of which was multiplied as often as it is named. -/
structure Multiplied (x : Float) (names : List String) (slots faded : List (Slot × Value)) : Prop where
  keys : Table.keys faded = Table.keys slots
  stats : statSlot? faded = statSlot? slots
  values : ∀ {slot v}, Table.get? slot slots = some v →
    ∃ w, timesOver x (names.countP (statSlot? slots · = some slot)) v = .ok w ∧
      Table.get? slot faded = some w

theorem Renumbered.keys {named : List Value} (h : Renumbered named slots faded) :
    Table.keys faded = Table.keys slots := by
  induction h with
  | nil => rfl
  | cons hslot _ ih => rw [Table.keys, List.map_cons, hslot.1, ← Table.keys, ih]; rfl

theorem texts_eq {xs : List Value} (h : ∀ x ∈ xs, ∃ s, x = .text s) :
    (xs.map (·.textOr "")).map .text = xs := by
  rw [List.map_map]
  refine (List.map_congr_left fun x hx => ?_).trans (List.map_id xs)
  obtain ⟨s, rfl⟩ := h x hx
  rfl

theorem multiplied_fadeStats (hn : Numeric slots)
    (h : fadeStats x slots touched (names.map .text) = (faded, .ok hit)) :
    Multiplied x names slots faded where
  keys := (renumbered_fadeStats (by simp) hn h).1.keys
  stats := statSlot?_renumbered (renumbered_fadeStats (by simp) hn h).1
  values := get?_fadeStats hn h

theorem countP_statSlot? (h : statSlot? slots name = some slot) :
    names.countP (statSlot? slots · = some slot) = names.count name := by
  rw [List.count]
  refine List.countP_congr fun other _ => ?_
  rw [decide_eq_true_iff, beq_iff_eq, statSlot?_inj h]

/-- Two ways to name the same stats lead to the same values just if the numbers of times that each is
named make no difference to its value. -/
theorem Multiplied.eq_iff {names' : List String} {faded' : List (Slot × Value)}
    (hn : (Table.keys slots).Nodup) (h : Multiplied x names slots faded)
    (h' : Multiplied x names' slots faded') :
    faded' = faded ↔ ∀ name slot v, statSlot? slots name = some slot →
      Table.get? slot slots = some v →
        timesOver x (names'.count name) v = timesOver x (names.count name) v := by
  constructor
  · rintro rfl name slot v hslot hv
    obtain ⟨w, hw, hget⟩ := h.values hv
    obtain ⟨w', hw', hget'⟩ := h'.values hv
    rw [countP_statSlot? hslot] at hw hw'
    rw [hw, hw', Option.some.inj (hget.symm.trans hget')]
  · intro hsame
    refine Table.eq_of_get? (h.keys ▸ hn) (h'.keys.trans h.keys.symm) fun slot hslot => ?_
    obtain ⟨v, hv⟩ := Table.mem_keys_iff.1 (h.keys ▸ hslot)
    obtain ⟨w, hw, hget⟩ := h.values hv
    obtain ⟨w', hw', hget'⟩ := h'.values hv
    rw [hget, hget']
    by_cases hnamed : ∃ name, statSlot? slots name = some slot
    · obtain ⟨name, hname⟩ := hnamed
      rw [countP_statSlot? hname] at hw hw'
      exact congrArg some (Except.ok.inj (hw'.symm.trans ((hsame name slot v hname hv).trans hw)))
    · have hnever : ∀ names : List String,
          names.countP (statSlot? slots · = some slot) = 0 := fun names =>
        List.countP_eq_zero.2 fun name _ hname => hnamed ⟨name, by simpa using hname⟩
      rw [hnever] at hw hw'
      exact congrArg some (Except.ok.inj (hw'.symm.trans hw))

/-! ### One secret -/

/-- The names that the decay of a secret gives, in their order. -/
def named (secret : Value) : List String :=
  ((secret.field "decay").field "applies_to").items.map (·.textOr "")

/-- The value of the stat that fades under a name. -/
def stat? (stats : Value) (name : String) : Option Value :=
  match stats with
  | .entity _ slots => (statSlot? slots name).bind fun slot => Table.get? slot slots
  | _ => none

theorem stat?_entity {kind : Kind} : stat? (.entity kind slots) name = some v ↔
    ∃ slot, statSlot? slots name = some slot ∧ Table.get? slot slots = some v :=
  Option.bind_eq_some_iff

theorem namesStat_eq (secret : Value) :
    namesStat secret = (named secret).any (isStat (secret.field "stats")) := by
  rw [namesStat, named, List.any_map]
  rfl

/-- The stats of a secret that is not left alone are multiplied by the factor of its decay, each as
often as it is named. -/
theorem ofSecret_multiplied {effect : Effect} (h : Readable secret)
    (hspared : isSpared episode secret = false)
    (hok : ofSecret episode secret = (after, .ok effect)) :
    ∃ x slots faded, factor ((secret.field "decay").field "half_life_episodes") = .ok x ∧
      secret.field "stats" = .entity .secretStats slots ∧
      after.field "stats" = .entity .secretStats faded ∧
      Multiplied x (named secret) slots faded := by
  obtain ⟨hfading, hdone⟩ := fading_of_not_spared h hspared
  obtain ⟨between, hfade, -, hafter⟩ := ofSecret_inv hfading hdone hok
  obtain ⟨halfLife, x, kind, slots, list, items, faded, hhalf, hx, hstats, hlist, hitems, hrun, rfl⟩ :=
    fadeSecret_inv hfade
  obtain ⟨stats, hget, hinner, -⟩ := get_of_typed "stats" rfl h.typed rfl
  obtain rfl : .entity kind slots = stats :=
    Except.ok.inj (hstats.symm.trans ((get_noteEpisode (by decide)).trans hget))
  obtain ⟨rfl, -, -⟩ := typed_entity.1 hinner
  obtain ⟨texts, htexts, hall⟩ := get_list "applies_to" rfl (decay_of_fading h hfading) rfl rfl
  obtain rfl : .list texts = list := Except.ok.inj (htexts.symm.trans hlist)
  obtain rfl : texts = items := Except.ok.inj hitems
  have hnames : (named secret).map .text = texts := by
    rw [named, field_of_get hlist]
    exact texts_eq (texts_of_typed hall)
  rw [← hnames] at hrun
  refine ⟨x, slots, faded, by rwa [field_of_get hhalf], field_of_get hget, ?_,
    multiplied_fadeStats (numeric_of_typed hinner) hrun⟩
  have hkept := field_of_get (get_setField_self (w := .entity .secretStats faded) hstats)
  rw [hafter]
  split
  · rw [field_setField_of_ne (by decide), hkept]
  · exact hkept

/-- What is told of a secret and what its status is can be told from its stats afterwards. -/
theorem Becomes.status (h : Becomes episode secret after) :
    after.field "status" =
      if !isSpared episode secret && isLow (after.field "stats") then .text "inert"
      else secret.field "status" := by
  rw [Becomes] at h
  split at h
  · next hspared => rw [h, hspared]; rfl
  · next hspared =>
    obtain ⟨slots, faded, hstats, -, hafter⟩ := h
    obtain ⟨kind, rest, rfl⟩ : ∃ kind rest, secret = .entity kind rest := by
      cases secret with
      | entity kind rest => exact ⟨kind, rest, rfl⟩
      | _ => simp [field, field?] at hstats
    have hself : ∀ slots name w, ((Value.entity kind slots).setField name w).field name = w := by
      intro slots name w
      rw [setField, field, field?, Table.get?_put_self, Option.getD_some]
    have hlow : after.field "stats" = .entity .secretStats faded := by
      rw [hafter, field_setField_of_ne (by decide)]
      exact hself _ _ _
    rw [hlow, Bool.eq_false_iff.2 hspared, hafter]
    exact hself _ _ _

/-! ### Secrets that name the same stats -/

/-- A secret with other names in its decay. -/
def renamed (secret : Value) (names : List String) : Value :=
  secret.setField "decay"
    ((secret.field "decay").setField "applies_to" (.list (names.map .text)))

/-- Whether the numbers of times that two secrets name a stat make no difference to its value. -/
def AsOften (secret secret' : Value) : Prop :=
  ∀ x, factor ((secret.field "decay").field "half_life_episodes") = .ok x →
    ∀ name v, stat? (secret.field "stats") name = some v →
      timesOver x ((named secret').count name) v = timesOver x ((named secret).count name) v

/-- In another order each stat is named as often. -/
theorem AsOften.of_perm {secret' : Value} (h : (named secret').Perm (named secret)) :
    AsOften secret secret' := fun x _ name v _ => by rw [h.count_eq]

section Renamed

variable (names : List String) (h : Readable secret)
include h

theorem exists_decay : ∃ decay, secret.get "decay" = .ok decay ∧
    (renamed secret names).get "decay" =
      .ok (decay.setField "applies_to" (.list (names.map .text))) ∧
    (decay = .null ∨ typed false Kind.secretDecay.shape decay = true) := by
  obtain ⟨decay, hdecay, hinner, -⟩ := get_of_typed "decay" rfl h.typed rfl
  refine ⟨decay, hdecay, ?_, ?_⟩
  · rw [renamed, field_of_get hdecay, get_setField_self hdecay]
  · rcases (Bool.or_eq_true _ _).mp hinner with hnull | htyped
    · cases decay <;> first | exact .inl rfl | cases hnull
    · exact .inr htyped

/-- Other names in the decay leave a secret readable. -/
theorem readable_renamed : Readable (renamed secret names) := by
  obtain ⟨decay, hdecay, hrenamed, hnull | hentity⟩ := exists_decay names h
  · have hsame : renamed secret names = secret := by
      subst hnull
      rw [renamed, field_of_get hdecay]
      exact setField_of_get hdecay
    rwa [hsame]
  have htyped : typed false Kind.secretDecay.shape
      (decay.setField "applies_to" (.list (names.map .text))) = true := by
    refine typed_setField rfl hentity ?_
    show (_ || typed false (.list .text) _ && _) = true
    simp [typed, fades, Value.category]
  refine ⟨typed_setField rfl h.typed ?_, ?_, fun d hd _ => ?_⟩
  · rw [field_of_get hdecay]
    show (_ || (_ || typed false Kind.secretDecay.shape _) && _) = true
    simp [htyped, fades]
  · obtain ⟨s, hs⟩ := h.status
    exact ⟨s, (get_setField_of_ne (by decide)).trans hs⟩
  · obtain rfl := Except.ok.inj (hrenamed.symm.trans hd)
    obtain ⟨n, hn⟩ := h.marked decay hdecay (by
      obtain ⟨slots, rfl⟩ := entity_of_typed hentity
      simp [Value.category])
    exact ⟨n, (get_setField_of_ne (by decide)).trans hn⟩

theorem isSpared_renamed : isSpared episode (renamed secret names) = isSpared episode secret := by
  obtain ⟨decay, hdecay, hrenamed, -⟩ := exists_decay names h
  have hstatus : (renamed secret names).field "status" = secret.field "status" :=
    field_setField_of_ne (by decide)
  have hcategory : (decay.setField "applies_to" (.list (names.map .text))).category =
      decay.category := by cases decay <;> rfl
  have hhalf : (decay.setField "applies_to" (.list (names.map .text))).field "half_life_episodes" =
      decay.field "half_life_episodes" := field_setField_of_ne (by decide)
  have hlast : (decay.setField "applies_to" (.list (names.map .text))).field
      "last_decayed_episode" = decay.field "last_decayed_episode" :=
    field_setField_of_ne (by decide)
  simp only [isSpared, lasts, marker?, hstatus, field_of_get hdecay, field_of_get hrenamed,
    hcategory, hhalf, hlast]

theorem halfLife_renamed : ((renamed secret names).field "decay").field "half_life_episodes" =
    (secret.field "decay").field "half_life_episodes" := by
  obtain ⟨decay, hdecay, hrenamed, -⟩ := exists_decay names h
  rw [field_of_get hdecay, field_of_get hrenamed]
  exact field_setField_of_ne (by decide)

theorem named_renamed (hspared : isSpared episode secret = false) :
    named (renamed secret names) = names := by
  obtain ⟨decay, hdecay, hrenamed, hnull | hentity⟩ := exists_decay names h
  · simp [isSpared, lasts, field_of_get hdecay, hnull, Value.category] at hspared
  · obtain ⟨list, hlist, -⟩ := exists_get "applies_to" rfl hentity
    rw [named, field_of_get hrenamed, field_of_get (get_setField_self hlist), items, List.map_map]
    exact (List.map_congr_left fun _ _ => rfl).trans (List.map_id names)

end Renamed

/-- Whether no two stats of a secret have the same slot. -/
def StatsApart (secret : Value) : Prop :=
  ∀ kind slots, secret.field "stats" = .entity kind slots → (Table.keys slots).Nodup

section Renamed

variable {names : List String} {after' : Value} {effect effect' : Effect} (h : Readable secret)
include h

/-- Whether a secret names one of its stats does not depend on the order and the number of names. -/
theorem namesStat_renamed (hnames : ∀ name, name ∈ names ↔ name ∈ named secret)
    (hspared : isSpared episode secret = false) :
    namesStat (renamed secret names) = namesStat secret := by
  have hstats : (renamed secret names).field "stats" = secret.field "stats" :=
    field_setField_of_ne (by decide)
  rw [namesStat_eq, namesStat_eq, named_renamed names h hspared, hstats, Bool.eq_iff_iff]
  simp only [List.any_eq_true, hnames]

/-- With other names in its decay the stats of a secret come to the same just if the numbers of times
make no difference. -/
theorem stats_renamed (hkeys : StatsApart secret)
    (hok : ofSecret episode secret = (after, .ok effect))
    (hok' : ofSecret episode (renamed secret names) = (after', .ok effect')) :
    after'.field "stats" = after.field "stats" ↔
      (isSpared episode secret = false → AsOften secret (renamed secret names)) := by
  have hreadable := readable_renamed names h
  have hspares := @isSpared_renamed secret episode names h
  have hstats : (renamed secret names).field "stats" = secret.field "stats" :=
    field_setField_of_ne (by decide)
  cases hspared : isSpared episode secret with
  | true =>
    have hbecomes := (ofSecret_becomes h hok).1
    have hbecomes' := (ofSecret_becomes hreadable hok').1
    rw [Becomes, hspared, if_pos rfl] at hbecomes
    rw [Becomes, hspares, hspared, if_pos rfl] at hbecomes'
    rw [hbecomes, hbecomes']
    exact iff_of_true hstats (by simp)
  | false =>
    obtain ⟨x, slots, faded, hx, hslots, hafter, hfaded⟩ := ofSecret_multiplied h hspared hok
    obtain ⟨x', slots', faded', hx', hslots', hafter', hfaded'⟩ :=
      ofSecret_multiplied hreadable (hspares.trans hspared) hok'
    rw [halfLife_renamed names h] at hx'
    obtain rfl := Except.ok.inj (hx.symm.trans hx')
    obtain ⟨-, rfl⟩ := Value.entity.inj (hslots.symm.trans (hstats.symm.trans hslots'))
    rw [hafter, hafter', Value.entity.injEq, and_iff_right rfl,
      hfaded.eq_iff (hkeys _ _ hslots) hfaded', AsOften, hslots]
    simp only [hx, Except.ok.injEq, stat?_entity]
    constructor
    · rintro hall - _ rfl name v ⟨slot, hslot, hv⟩
      exact hall name slot v hslot hv
    · exact fun hall name slot v hslot hv => hall trivial x rfl name v ⟨slot, hslot, hv⟩

/-- What becomes of two secrets that name the same stats: both fade or neither does, and if the stats
come to the same, so do the statuses. -/
theorem ofSecret_renamed (hnames : ∀ name, name ∈ names ↔ name ∈ named secret)
    (hok : ofSecret episode secret = (after, .ok effect))
    (hok' : ofSecret episode (renamed secret names) = (after', .ok effect')) :
    effect'.decayed = effect.decayed ∧
      (after'.field "stats" = after.field "stats" →
        after'.field "status" = after.field "status" ∧ effect'.inert = effect.inert) := by
  have hspares := @isSpared_renamed secret episode names h
  have hstatus : (renamed secret names).field "status" = secret.field "status" :=
    field_setField_of_ne (by decide)
  obtain ⟨hbecomes, rfl⟩ := ofSecret_becomes h hok
  obtain ⟨hbecomes', rfl⟩ := ofSecret_becomes (readable_renamed names h) hok'
  refine ⟨?_, fun hsame => ?_⟩
  · cases hspared : isSpared episode secret with
    | true => simp [hspares, hspared]
    | false => simp [hspares, hspared, namesStat_renamed h hnames hspared]
  · have hsame' : after'.field "status" = after.field "status" := by
      rw [hbecomes'.status, hbecomes.status, hsame, hstatus, hspares]
    exact ⟨hsame', by simp only [changesStatus, hsame', hstatus]⟩

end Renamed

/-- Whether each stat of a secret was multiplied by the factor of its decay, as often as the decay
names it. -/
def TakesNames (secret after : Value) : Prop :=
  ∃ x, factor ((secret.field "decay").field "half_life_episodes") = .ok x ∧
    ∀ name v, stat? (secret.field "stats") name = some v →
      ∃ w, timesOver x ((named secret).count name) v = .ok w ∧
        stat? (after.field "stats") name = some w

theorem takesNames_ofSecret {effect : Effect} (h : Readable secret)
    (hspared : isSpared episode secret = false)
    (hok : ofSecret episode secret = (after, .ok effect)) : TakesNames secret after := by
  obtain ⟨x, slots, faded, hx, hslots, hafter, hfaded⟩ := ofSecret_multiplied h hspared hok
  refine ⟨x, hx, fun name v hstat => ?_⟩
  rw [hslots, stat?_entity] at hstat
  obtain ⟨slot, hslot, hv⟩ := hstat
  obtain ⟨w, hw, hget⟩ := hfaded.values hv
  rw [countP_statSlot? hslot] at hw
  exact ⟨w, hw, by rw [hafter]; exact stat?_entity.2 ⟨slot, by rwa [hfaded.stats], hget⟩⟩

/-! ### All secrets -/

/-- Whether two lists of secrets name the same stats in their decays, in whatever order and however
often, and are the same in all else. -/
def NameTheSame : List Value → List Value → Prop :=
  List.Forall₂ fun secret secret' => ∃ names : List String,
    (∀ name, name ∈ names ↔ name ∈ named secret) ∧ secret' = renamed secret names

theorem ofSecrets_renamed : ∀ {secrets secrets' after after' : List Value} {r r' : Result},
    (∀ s ∈ secrets, Readable s ∧ StatsApart s) → NameTheSame secrets secrets' →
      ofSecrets episode secrets = (after, .ok r) → ofSecrets episode secrets' = (after', .ok r') →
        r'.decayed = r.decayed ∧
          (after'.map (·.field "stats") = after.map (·.field "stats") →
            after'.map (·.field "status") = after.map (·.field "status") ∧ r'.inert = r.inert) ∧
          (after'.map (·.field "stats") = after.map (·.field "stats") ↔
            ∀ p ∈ secrets.zip secrets', isSpared episode p.1 = false → AsOften p.1 p.2)
  | _, _, _, _, _, _, _, .nil, h, h' => by
    cases h
    cases h'
    simp
  | secret :: secrets, _, _, _, _, _, hall, .cons ⟨names, hnames, heq⟩ hrest, h, h' => by
    subst heq
    rw [List.forall_mem_cons] at hall
    obtain ⟨after, effect, others, r, hone, hmore, rfl, rfl⟩ := ofSecrets_cons h
    obtain ⟨after', effect', others', r', hone', hmore', rfl, rfl⟩ := ofSecrets_cons h'
    obtain ⟨hdecayed, hthen⟩ := ofSecret_renamed hall.1.1 hnames hone hone'
    have hiff := stats_renamed hall.1.1 hall.1.2 hone hone'
    obtain ⟨hdecayed', hthen', hiff'⟩ := ofSecrets_renamed hall.2 hrest hmore hmore'
    have hid : after'.field "id" = after.field "id" := by
      rw [(ofSecret_becomes (readable_renamed names hall.1.1) hone').1.id,
        (ofSecret_becomes hall.1.1 hone).1.id]
      exact field_setField_of_ne (by decide)
    simp only [List.map_cons, List.cons.injEq, List.zip_cons_cons, List.forall_mem_cons,
      hdecayed, hdecayed', hid, hiff, hiff', true_and, and_true]
    intro hsame
    obtain ⟨hstatus, hinert⟩ := hthen (hiff.2 hsame.1)
    obtain ⟨hstatus', hinert'⟩ := hthen' (hiff'.2 hsame.2)
    exact ⟨⟨hstatus, hstatus'⟩, by rw [hinert, hinert']⟩

/-- Whether two stories differ at most in how often and in what order the decays of secrets name the
same stats. -/
def SameNames (story story' : Story) : Prop :=
  ∃ secrets, story' = { story with secrets := .list secrets } ∧
    NameTheSame story.secrets.items secrets

theorem statsApart_of_read {document : Value} {story : Story} (hd : document.isDocument = true)
    (h : Story.read document = .ok story) : ∀ s ∈ story.secrets.items, StatsApart s := by
  intro s hs kind slots hslots
  obtain ⟨hlisted, hreadable⟩ := readable_of_read hd h
  have hsecrets : story.secrets.Orderly :=
    Story.orderly_root (Story.orderly_of_read hd h) .secrets
  rw [hlisted] at hsecrets
  cases hsecrets with
  | list hitems =>
    obtain ⟨stats, hget, -⟩ := get_of_typed "stats" rfl (hreadable s hs).typed rfl
    obtain rfl : stats = .entity kind slots := (field_of_get hget).symm.trans hslots
    obtain ⟨_, _, rfl, hslot⟩ := get_ok.1 hget
    have hstats : (Value.entity kind slots).Orderly :=
      Value.Orderly.read (s := .slot (.field "stats")) (hitems _ hs) rfl (by simp [Value.read, hslot])
    cases hstats with
    | entity hkeys => exact hkeys.nodup.of_map

/-- Of stories that differ at most in how often and in what order the decays of secrets name the same
stats: the end of an episode tells the same ids as faded, and it multiplies every stat as often as
it is named. The stats come out the same just if the numbers of times make no difference to them, as
they do not where each stat is named as often in the one as in the other; and then so do the statuses
and all that is told. -/
theorem apply_sameNames {document : Value} {story story' : Story} {r r' : Result}
    (hd : document.isDocument = true) (h : Story.read document = .ok story)
    (hsame : SameNames story story') (hr : (apply story episode).outcome = .ok r)
    (hr' : (apply story' episode).outcome = .ok r') :
    r'.decayed = r.decayed ∧
      List.Forall₂ (fun secret after => isSpared episode secret = false → TakesNames secret after)
        story.secrets.items (apply story episode).story.secrets.items ∧
      ((apply story' episode).story.secrets.items.map (·.field "stats") =
          (apply story episode).story.secrets.items.map (·.field "stats") →
        (apply story' episode).story.secrets.items.map (·.field "status") =
          (apply story episode).story.secrets.items.map (·.field "status") ∧ r' = r) ∧
      ((apply story' episode).story.secrets.items.map (·.field "stats") =
          (apply story episode).story.secrets.items.map (·.field "stats") ↔
        ∀ p ∈ story.secrets.items.zip story'.secrets.items,
          isSpared episode p.1 = false → AsOften p.1 p.2) := by
  obtain ⟨secrets, rfl, hnames⟩ := hsame
  obtain ⟨-, hreadable⟩ := readable_of_read hd h
  obtain ⟨after, hrun, hstory⟩ := ofSecrets_of_apply hr
  obtain ⟨after', hrun', hstory'⟩ := ofSecrets_of_apply hr'
  obtain ⟨hdecayed, hthen, hiff⟩ := ofSecrets_renamed
    (fun s hs => ⟨hreadable s hs, statsApart_of_read hd h s hs⟩) hnames hrun hrun'
  simp only [hstory, hstory', items]
  refine ⟨hdecayed, ?_, fun hstats => ?_, hiff⟩
  · refine ((List.forall₂_and_left _ _).2 ⟨hreadable, ofSecrets_ok hrun⟩).imp ?_
    rintro secret after ⟨hsecret, effect, hok⟩ hspared
    exact takesNames_ofSecret hsecret hspared hok
  · obtain ⟨hstatuses, hinert⟩ := hthen hstats
    exact ⟨hstatuses, by cases r; cases r'; simp_all⟩

theorem eq_number {n : Number} (h : v.number? = some n) : v = .number n := by
  cases v <;> cases h
  rfl

/-- The document of a story with one secret, which names a declared stat and an extra one. -/
def weightedDocument : Value :=
  .mapping [("secrets", .list [.mapping [("id", .text "letter"),
    ("stats", .mapping [("weight", .int 1)]),
    ("decay", .mapping [("half_life_episodes", .int 1),
      ("applies_to", .list [.text "credibility", .text "weight"])])]])]

/-- The story of that document, and that the end of an episode comes to its end also with the names
in another order or with one of them given twice. -/
theorem exists_weighted : ∃ story letter, Story.read weightedDocument = .ok story ∧
    story.secrets.items = [letter] ∧ isSpared none letter = false ∧
    named letter = ["credibility", "weight"] ∧
    ((letter.field "decay").field "half_life_episodes").number? = some (.int 1) ∧
    (stat? (letter.field "stats") "weight").bind Value.number? = some (.int 1) ∧
    (∃ r, (apply story none).outcome = .ok r) ∧
    ∀ names ∈ [["weight", "credibility"], ["credibility", "weight", "weight"]],
      named (renamed letter names) = names ∧
        ∃ r, (apply { story with secrets := .list [renamed letter names] } none).outcome = .ok r := by
  obtain ⟨story, hread, hruns, hfacts, hnames⟩ := Story.exists_read weightedDocument
    (fun story =>
      (apply story none).outcome.toOption.isSome = true ∧
        story.secrets.items.map (fun s => (isSpared none s, named s,
          ((s.field "decay").field "half_life_episodes").number?,
          (stat? (s.field "stats") "weight").bind Value.number?)) =
            [(false, ["credibility", "weight"], some (.int 1), some (.int 1))] ∧
        ∀ names ∈ [["weight", "credibility"], ["credibility", "weight", "weight"]],
          let secrets := story.secrets.items.map (renamed · names)
          secrets.map named = [names] ∧
            (apply { story with secrets := .list secrets } none).outcome.toOption.isSome = true)
    (by decide +kernel)
  obtain ⟨letter, _, hletter, hfact, hnil⟩ := List.map_eq_cons_iff.1 hfacts
  obtain rfl := List.map_eq_nil_iff.1 hnil
  simp only [Prod.mk.injEq] at hfact
  obtain ⟨hspared, hnamed, hhalf, hstat⟩ := hfact
  refine ⟨story, letter, hread, hletter, hspared, hnamed, hhalf, hstat, Outcome.exists_ok hruns,
    fun names hmem => ?_⟩
  have hrun := hnames names hmem
  simp only [hletter, List.map_cons, List.map_nil, List.cons.injEq, and_true] at hrun
  exact ⟨hrun.1, Outcome.exists_ok hrun.2⟩

/-- With the two names the other way round nothing comes out differently. -/
theorem apply_sameNames_reversed : ∃ story story' r r', weightedDocument.isDocument = true ∧
    Story.read weightedDocument = .ok story ∧ SameNames story story' ∧
    story.secrets.items.map named = [["credibility", "weight"]] ∧
    story'.secrets.items.map named = [["weight", "credibility"]] ∧
    (apply story none).outcome = .ok r ∧ (apply story' none).outcome = .ok r' ∧ r' = r ∧
    (apply story' none).story.secrets.items.map (·.field "stats") =
      (apply story none).story.secrets.items.map (·.field "stats") := by
  have hd : weightedDocument.isDocument = true := by decide +kernel
  obtain ⟨story, letter, hread, hletter, -, hnamed, -, -, ⟨r, hr⟩, hruns⟩ := exists_weighted
  obtain ⟨hnamed', r', hr'⟩ := hruns ["weight", "credibility"] (by simp)
  have hsame : SameNames story { story with
      secrets := .list [renamed letter ["weight", "credibility"]] } := by
    refine ⟨_, rfl, ?_⟩
    rw [hletter]
    exact .cons ⟨_, fun name => by simp [hnamed, or_comm], rfl⟩ .nil
  obtain ⟨-, -, hthen, hiff⟩ := apply_sameNames hd hread hsame hr hr'
  have hstats := hiff.2 (by
    rw [hletter]
    simp only [items, List.zip_cons_cons, List.zip_nil_right, List.forall_mem_singleton]
    intro _
    refine .of_perm ?_
    rw [hnamed, hnamed']
    exact .swap _ _ _)
  exact ⟨story, _, r, r', hd, hread, hsame, by simp [hletter, hnamed], by simpa [items] using hnamed',
    hr, hr', (hthen hstats).2, hstats⟩

/-- The factor of a half-life of one episode. -/
theorem factor_one : factor (.int 1) = .ok (Float.pow 0.5 1.0) := by
  have hdiv : (Number.int 1).div? (.int 1) = some 1.0 := by decide +kernel
  have hzero : (Number.int 1).isZero = false := by decide +kernel
  have hless : (Number.int 1).less (.int 0) = false := by decide +kernel
  simp [factor, numeric?, Value.int, hdiv, hzero, hless, Outcome.ofSize]

/-- With one of the two names given twice, its stat comes out differently: a half-life of one episode
takes half of it for each time. Powers are not computed in the logic, so that of a half to the one
is a condition here. -/
theorem apply_sameNames_twice : ∃ story story' r r', Story.read weightedDocument = .ok story ∧
    SameNames story story' ∧
    story.secrets.items.map named = [["credibility", "weight"]] ∧
    story'.secrets.items.map named = [["credibility", "weight", "weight"]] ∧
    (apply story none).outcome = .ok r ∧ (apply story' none).outcome = .ok r' ∧
    (Float.pow 0.5 1.0 = 0.5 → (apply story' none).story.secrets.items.map (·.field "stats") ≠
      (apply story none).story.secrets.items.map (·.field "stats")) := by
  have hd : weightedDocument.isDocument = true := by decide +kernel
  obtain ⟨story, letter, hread, hletter, hspared, hnamed, hhalf, hstat, ⟨r, hr⟩, hruns⟩ :=
    exists_weighted
  obtain ⟨hnamed', r', hr'⟩ := hruns ["credibility", "weight", "weight"] (by simp)
  have hsame : NameTheSame story.secrets.items
      [renamed letter ["credibility", "weight", "weight"]] := by
    rw [hletter]
    exact .cons ⟨_, fun name => by simp [hnamed], rfl⟩ .nil
  refine ⟨story, _, r, r', hread, ⟨_, rfl, hsame⟩, by simp [hletter, hnamed],
    by simpa [items] using hnamed', hr, hr', fun hpow hstats => ?_⟩
  obtain ⟨-, hreadable⟩ := readable_of_read hd hread
  obtain ⟨after, hrun, hafter⟩ := ofSecrets_of_apply hr
  obtain ⟨after', hrun', hafter'⟩ := ofSecrets_of_apply hr'
  rw [hafter, hafter'] at hstats
  have hoften : AsOften letter (renamed letter ["credibility", "weight", "weight"]) :=
    ((ofSecrets_renamed (fun s hs => ⟨hreadable s hs, statsApart_of_read hd hread s hs⟩) hsame
      hrun hrun').2.2.1 hstats) (letter, _) (by rw [hletter]; exact .head _) hspared
  have hhalved : factor ((letter.field "decay").field "half_life_episodes") = .ok 0.5 := by
    rw [eq_number hhalf, ← hpow]
    exact factor_one
  have hweight : stat? (letter.field "stats") "weight" = some (.int 1) := by
    obtain ⟨v, hv, hone⟩ := Option.bind_eq_some_iff.1 hstat
    rw [hv, eq_number hone]
    rfl
  have hdiffer : (timesOver 0.5 2 (.int 1)).map Value.number? ≠
      (timesOver 0.5 1 (.int 1)).map Value.number? := by decide +kernel
  have htwice := hoften 0.5 hhalved "weight" (.int 1) hweight
  rw [hnamed, hnamed'] at htwice
  exact hdiffer (congrArg _ htwice)

end Decay

end StoryWorld
