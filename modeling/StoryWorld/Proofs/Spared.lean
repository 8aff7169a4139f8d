import StoryWorld.Proofs.Fading

/-!
What the end of an episode leaves alone.

A secret that does not fade, or was faded for the episode before, is passed over as it is. Of any
other one the episode is noted, the stats that its decay names are multiplied by a factor, and it
turns inert if both of its values come out small. Its other fields, the stats that are not named and
those that are not numbers stay as they are, and so does everything in the story beside the secrets.
The lists of secrets that faded and that turned inert can be told from the secrets before and after.
-/

namespace StoryWorld

namespace Value

variable {v w : Value} {name other : String}

/-- Writing what stands in a field already changes nothing. -/
theorem setField_of_get (h : v.get name = .ok w) : v.setField name w = v := by
  obtain ⟨kind, slots, rfl, hslot⟩ := get_ok.1 h
  exact setField_of_field? hslot

theorem field_setField_of_ne (h : other ≠ name) :
    (v.setField name w).field other = v.field other := by
  cases v with
  | entity kind slots =>
    have hslot : Slot.field other ≠ .field name := by simpa using h
    simp only [setField, field, field?, Table.get?_put_of_ne hslot]
  | _ => rfl

theorem category_of_times {x : Float} (h : v.times x = .ok w) : w.category = .number := by
  rw [times] at h
  split at h
  · obtain ⟨n, -, rfl⟩ := Outcome.map_ok.1 h
    rfl
  · cases h

end Value

namespace Decay

open Schema Value

variable {secret after decay v : Value} {slots faded : List (Slot × Value)} {names : List Value}
  {x : Float} {episode : Option Int} {touched hit : Bool}

/-! ### The stats -/

/-- Whether a slot is that of a stat, declared or extra, with one of several names. -/
def IsNamed (names : List Value) (slot : Slot) : Prop :=
  ∃ name, .text name ∈ names ∧ (slot = .field name ∨ slot = .extra name)

/-- Stats of which other numbers stand in the place of some under several names. Every slot keeps
its place, and one that is not named, or holds no number, its value. -/
def Renumbered (names : List Value) : List (Slot × Value) → List (Slot × Value) → Prop :=
  List.Forall₂ fun e e' => e'.1 = e.1 ∧
    (e'.2 = e.2 ∨ IsNamed names e.1 ∧ e.2.category = .number ∧ e'.2.category = .number)

theorem IsNamed.mono {more : List Value} {slot : Slot} (h : IsNamed names slot)
    (hsub : names ⊆ more) : IsNamed more slot := by
  obtain ⟨name, hname, hslot⟩ := h
  exact ⟨name, hsub hname, hslot⟩

theorem Renumbered.refl (names : List Value) : ∀ slots, Renumbered names slots slots
  | [] => .nil
  | _ :: slots => .cons ⟨rfl, .inl rfl⟩ (Renumbered.refl names slots)

theorem Renumbered.mono {more : List Value} (h : Renumbered names slots faded)
    (hsub : names ⊆ more) : Renumbered more slots faded :=
  h.imp fun _ _ hslot => ⟨hslot.1, hslot.2.imp_right fun hnew => ⟨hnew.1.mono hsub, hnew.2⟩⟩

theorem Renumbered.trans : ∀ {slots between faded : List (Slot × Value)},
    Renumbered names slots between → Renumbered names between faded → Renumbered names slots faded
  | _, _, _, .nil, .nil => .nil
  | _, _, _, .cons h hrest, .cons h' hrest' => by
    refine .cons ⟨h'.1.trans h.1, ?_⟩ (Renumbered.trans hrest hrest')
    rcases h'.2 with hsame' | ⟨hnamed', hwas', hnumber'⟩
    · rw [hsame']
      exact h.2
    · rcases h.2 with hsame | ⟨hnamed, hwas, -⟩
      · exact .inr ⟨h.1 ▸ hnamed', hsame ▸ hwas', hnumber'⟩
      · exact .inr ⟨hnamed, hwas, hnumber'⟩

/-- Another number in a slot that is named and holds one. -/
theorem Renumbered.put {slot : Slot} (hnamed : IsNamed names slot) (hv : v.category = .number) :
    ∀ {slots : List (Slot × Value)} {w : Value}, Table.get? slot slots = some w →
      w.category = .number → Renumbered names slots (Table.put slot v slots)
  | (k, u) :: slots, w, h, hw => by
    rw [Table.get?_cons] at h
    rw [Table.put_cons]
    split at h
    · next hk =>
      obtain rfl : u = w := by simpa using h
      rw [if_pos hk]
      exact .cons ⟨rfl, .inr ⟨hk ▸ hnamed, hw, hv⟩⟩ (Renumbered.refl names slots)
    · next hk =>
      rw [if_neg hk]
      exact .cons ⟨rfl, .inl rfl⟩ (Renumbered.put hnamed hv h hw)

/-- What stands in a slot stays of its category. -/
theorem Renumbered.category {slot : Slot} : ∀ {slots faded : List (Slot × Value)},
    Renumbered names slots faded →
      (Table.get? slot faded).map Value.category = (Table.get? slot slots).map Value.category
  | _, _, .nil => rfl
  | (k, u) :: slots, (k', u') :: faded, .cons h hrest => by
    obtain ⟨rfl, hvalue⟩ := h
    have hcategory : u'.category = u.category := by
      rcases hvalue with hsame | ⟨-, hwas, hnumber⟩
      · exact congrArg Value.category hsame
      · exact hnumber.trans hwas.symm
    rw [Table.get?_cons, Table.get?_cons]
    split
    · rw [Option.map_some, Option.map_some, hcategory]
    · exact Renumbered.category hrest

/-- Whether a name is that of a slot whose value fades: of a declared one, or of an extra one that
holds a number. -/
def fadesUnder (slots : List (Slot × Value)) (name : String) : Bool :=
  ((Table.get? (.field name) slots).map Value.category).isSome ||
    (Table.get? (.extra name) slots).map Value.category == some .number

theorem Renumbered.fadesUnder_eq (h : Renumbered names slots faded) (name : String) :
    fadesUnder faded name = fadesUnder slots name := by
  rw [fadesUnder, fadesUnder, h.category, h.category]

/-- The declared fields among the slots hold numbers. -/
def Numeric (slots : List (Slot × Value)) : Prop :=
  ∀ name v, Table.get? (.field name) slots = some v → v.category = .number

theorem Renumbered.numeric (h : Renumbered names slots faded) (hn : Numeric slots) :
    Numeric faded := by
  intro name v hv
  have hcategory := @Renumbered.category names (.field name) slots faded h
  rw [hv, Option.map_some] at hcategory
  obtain ⟨w, hw, hwv⟩ := Option.map_eq_some_iff.1 hcategory.symm
  exact hwv ▸ hn name w hw

/-- Fading the stat of one name changes no other, and says whether there is one. -/
theorem renumbered_fadeStat {name : String} (hn : Numeric slots)
    (h : fadeStat x slots (.text name) = .ok (faded, hit)) :
    Renumbered [.text name] slots faded ∧ hit = fadesUnder slots name := by
  have hfield : IsNamed [.text name] (.field name) := ⟨name, List.mem_singleton_self _, .inl rfl⟩
  have hextra : IsNamed [.text name] (.extra name) := ⟨name, List.mem_singleton_self _, .inr rfl⟩
  simp only [fadeStat, isKey, textOr, Bool.not_true, Bool.false_eq_true, if_false] at h
  split at h
  · next v _ hv =>
    obtain ⟨y, hy, hput⟩ := Outcome.bind_ok.1 h
    obtain ⟨rfl, rfl⟩ := Prod.mk.inj (Except.ok.inj hput)
    refine ⟨Renumbered.put hfield (category_of_times hy) hv (hn name v hv), ?_⟩
    simp [fadesUnder, hv]
  · next n _ hnone hv =>
    obtain ⟨y, hy, hput⟩ := Outcome.bind_ok.1 h
    obtain ⟨rfl, rfl⟩ := Prod.mk.inj (Except.ok.inj hput)
    refine ⟨Renumbered.put hextra (category_of_times hy) hv rfl, ?_⟩
    simp [fadesUnder, hv, Value.category]
  · next hother hnumber =>
    obtain ⟨rfl, rfl⟩ := Prod.mk.inj (Except.ok.inj h)
    refine ⟨Renumbered.refl _ _, ?_⟩
    have hnone : Table.get? (.field name) slots = none := by
      cases hget : Table.get? (.field name) slots with
      | none => rfl
      | some v => exact absurd hget (hother v rfl)
    have hnot : ∀ w, Table.get? (.extra name) slots = some w → w.category ≠ .number := by
      intro w hw hcategory
      obtain ⟨n, rfl⟩ := number_of_category hcategory
      exact hnumber n rfl hnone hw
    cases hget : Table.get? (.extra name) slots with
    | none => simp [fadesUnder, hnone, hget]
    | some w => simp [fadesUnder, hnone, hget, hnot w hget]

/-- Fading the stats of several names changes no others, and says whether there is one of them. -/
theorem renumbered_fadeStats : ∀ {names : List Value} {slots faded : List (Slot × Value)}
    {touched hit : Bool}, (∀ name ∈ names, ∃ s, name = .text s) → Numeric slots →
      fadeStats x slots touched names = (faded, .ok hit) → Renumbered names slots faded ∧
        hit = (touched || names.any fun name => fadesUnder slots (name.textOr ""))
  | [], slots, faded, touched, hit, _, _, h => by
    cases h
    exact ⟨Renumbered.refl _ _, by simp⟩
  | name :: names, slots, faded, touched, hit, hnames, hn, h => by
    rw [List.forall_mem_cons] at hnames
    obtain ⟨⟨word, rfl⟩, hnames⟩ := hnames
    rw [fadeStats] at h
    split at h
    · cases h
    · next between first hstat =>
      obtain ⟨hone, rfl⟩ := renumbered_fadeStat hn hstat
      obtain ⟨hmore, rfl⟩ := renumbered_fadeStats hnames (hone.numeric hn) h
      have hsame : fadesUnder between = fadesUnder slots := funext hone.fadesUnder_eq
      refine ⟨(hone.mono ?_).trans (hmore.mono (List.subset_cons_self _ _)), ?_⟩
      · exact List.cons_subset.2 ⟨List.mem_cons_self, List.nil_subset _⟩
      · rw [hsame, List.any_cons, Bool.or_assoc, textOr]

/-! ### One secret -/

/-- Whether a secret never fades as it is: it is not active, or has no decay, or one with a half-life
that is not above zero. -/
def lasts (secret : Value) : Bool :=
  !(secret.field "status").equal (.text "active") || (secret.field "decay").category == .null ||
    ((secret.field "decay").field "half_life_episodes").number?.any
      fun n => Relation.le.ofNumbers n (.int 0)

/-- Whether the end of an episode leaves a secret alone: it does not fade, or it was faded for that
episode or a later one. -/
def isSpared (episode : Option Int) (secret : Value) : Bool :=
  lasts secret || episode.any fun e => (marker? secret).any fun n => decide (e ≤ n)

/-- Whether a name is that of a stat that can fade: a declared one, or an extra number. -/
def isStat (stats : Value) (name : String) : Bool :=
  (Kind.secretStats.field? name).isSome || (stats.extra? name).any (·.category == .number)

/-- Whether the decay of a secret names one of its stats. -/
def namesStat (secret : Value) : Bool :=
  ((secret.field "decay").field "applies_to").items.any
    fun name => isStat (secret.field "stats") (name.textOr "")

/-- Whether both of the values that a secret can lose are below the threshold. -/
def isLow (stats : Value) : Bool :=
  ["legal_value", "public_damage"].all
    fun name => (stats.field name).number?.any (·.less (.float 0.15))

/-- What becomes of a secret that is not left alone: the episode is noted in its decay, some of its
stats have other numbers, and it is inert if both values are low then. Nothing else changes. -/
def Fades (episode : Option Int) (secret after : Value) : Prop :=
  ∃ slots faded, secret.field "stats" = .entity .secretStats slots ∧
    Renumbered ((secret.field "decay").field "applies_to").items slots faded ∧
    after = ((secret.setField "decay"
      (episode.elim (secret.field "decay") (noted (secret.field "decay")))).setField "stats"
        (.entity .secretStats faded)).setField "status"
          (if isLow (.entity .secretStats faded) then .text "inert" else secret.field "status")

/-- Whether the status of a secret is another one afterwards. -/
def changesStatus (secret after : Value) : Bool :=
  !(secret.field "status").equal (after.field "status")

/-- What is relied on of a secret that was read. -/
structure Readable (secret : Value) : Prop where
  typed : typed false Kind.secret.shape secret = true
  status : ∃ s, secret.get "status" = .ok (.text s)
  marked : IsMarked secret

/-- Whether a readable secret fades at all can be told from its fields. -/
theorem fading?_eq (h : Readable secret) :
    fading? secret = .ok (if lasts secret then none else some (secret.field "decay")) := by
  obtain ⟨status, hstatus⟩ := h.status
  obtain ⟨decay, hdecay, hinner, -⟩ := get_of_typed "decay" rfl h.typed rfl
  rw [fading?, hstatus, Outcome.ok_bind, hdecay, Outcome.ok_bind, lasts, field_of_get hstatus,
    field_of_get hdecay]
  by_cases hactive : (Value.text status).equal (.text "active") = true
  · by_cases hnull : decay.category = .null
    · simp [hactive, hnull]
    · have htyped : Schema.typed false Kind.secretDecay.shape decay = true :=
        ((Bool.or_eq_true _ _).mp hinner).resolve_left (by simpa using hnull)
      obtain ⟨n, hn, -⟩ := get_number "half_life_episodes" rfl htyped rfl (.inr (.inr rfl))
      have hholds : (Value.number n).holds .le (.int 0) = .ok (Relation.le.ofNumbers n (.int 0)) :=
        rfl
      rw [hn, Outcome.ok_bind, hholds, field_of_get hn]
      cases hle : Relation.le.ofNumbers n (.int 0) <;>
        simp [hactive, hnull, hle, number?, Outcome.ok_bind]
  · simp [hactive]

/-- The decay of a readable secret that fades is typed. -/
theorem decay_of_fading (h : Readable secret) (hfading : fading? secret = .ok (some decay)) :
    Schema.typed false Kind.secretDecay.shape decay = true := by
  obtain ⟨found, hfound, hdecays⟩ := fading?_ok h.typed
  obtain rfl : found = some decay := Except.ok.inj (hfound.symm.trans hfading)
  exact hdecays decay rfl

/-- Whether it was faded for an episode before, too. -/
theorem isDone_field (h : Readable secret) (hlasts : lasts secret = false) (episode : Option Int) :
    isDone (secret.field "decay") episode =
      .ok (episode.any fun e => (marker? secret).any fun n => decide (e ≤ n)) := by
  have hfading := fading?_eq h
  rw [hlasts, if_neg Bool.false_ne_true] at hfading
  obtain ⟨-, -, -, -, hdecay, hnull, -⟩ := fading?_some.1 hfading
  obtain ⟨n, hn⟩ := h.marked _ hdecay hnull
  cases episode with
  | none => rfl
  | some e => rw [isDone_eq hn, marker?_of_get hdecay hn, Option.any_some, Option.any_some]

/-- The decay of a secret that is not left alone is due. -/
theorem fading_of_not_spared (h : Readable secret) (hspared : isSpared episode secret = false) :
    fading? secret = .ok (some (secret.field "decay")) ∧
      isDone (secret.field "decay") episode = .ok false := by
  rw [isSpared, Bool.or_eq_false_iff] at hspared
  have hfading := fading?_eq h
  rw [hspared.1, if_neg Bool.false_ne_true] at hfading
  have hdone := isDone_field h hspared.1 episode
  rw [hspared.2] at hdone
  exact ⟨hfading, hdone⟩

theorem fadeSecret_inv (h : fadeSecret secret decay = (after, .ok touched)) :
    ∃ halfLife x kind slots named names faded, decay.get "half_life_episodes" = .ok halfLife ∧
      factor halfLife = .ok x ∧ secret.get "stats" = .ok (.entity kind slots) ∧
      decay.get "applies_to" = .ok named ∧ named.iterate = .ok names ∧
      fadeStats x slots false names = (faded, .ok touched) ∧
      after = secret.setField "stats" (.entity kind faded) := by
  unfold fadeSecret at h
  simp only at h
  split at h
  · cases h
  · next x kind slots names hprepared =>
    obtain ⟨halfLife, hhalf, hrest⟩ := Outcome.bind_ok.1 hprepared
    obtain ⟨x', hx, hrest⟩ := Outcome.bind_ok.1 hrest
    obtain ⟨stats, hstats, hrest⟩ := Outcome.bind_ok.1 hrest
    cases stats with
    | entity kind' slots' =>
      obtain ⟨named, hnamed, hrest⟩ := Outcome.bind_ok.1 hrest
      obtain ⟨names', hnames, hrest⟩ := Outcome.bind_ok.1 hrest
      cases hrest
      obtain ⟨rfl, htouched⟩ := Prod.mk.inj h
      exact ⟨halfLife, x, kind, slots, named, names, _, hhalf, hx, hstats, hnamed, hnames,
        Prod.ext rfl htouched, rfl⟩
    | _ => cases hrest

/-- A secret that is not left alone goes through three steps: the episode is noted, the stats fade,
and the secret turns inert if it is faint then. -/
theorem ofSecret_inv {effect : Effect} (hfading : fading? secret = .ok (some decay))
    (hdone : isDone decay episode = .ok false)
    (h : ofSecret episode secret = (after, .ok effect)) :
    ∃ between, fadeSecret (noteEpisode secret decay episode) decay =
        (between, .ok effect.decayed) ∧
      isFaint between = .ok effect.inert ∧
      after = if effect.inert then between.setField "status" (.text "inert") else between := by
  simp only [ofSecret, hfading, hdone] at h
  rcases hfade : fadeSecret (noteEpisode secret decay episode) decay with ⟨between, fault | touched⟩
  · simp [hfade] at h
  · rw [hfade] at h
    cases hfaint : isFaint between with
    | error fault => simp [hfaint] at h
    | ok faint =>
      refine ⟨between, ?_⟩
      cases faint <;>
      · simp only [hfaint] at h
        cases h
        exact ⟨rfl, hfaint, rfl⟩

theorem Renumbered.get_number {kind : Kind} {name : String} {n : Number}
    (h : Renumbered names slots faded) (hn : (Value.entity kind slots).get name = .ok (.number n)) :
    ∃ m, (Value.entity kind faded).get name = .ok (.number m) := by
  obtain ⟨_, _, heq, hslot⟩ := get_ok.1 hn
  obtain ⟨-, rfl⟩ := Value.entity.inj heq
  have hcategory := @Renumbered.category names (.field name) slots faded h
  rw [hslot, Option.map_some] at hcategory
  obtain ⟨w, hw, hnumber⟩ := Option.map_eq_some_iff.1 hcategory
  obtain ⟨m, rfl⟩ := number_of_category hnumber
  exact ⟨m, get_ok.2 ⟨_, _, rfl, hw⟩⟩

/-- A secret is faint if both of its values are low. -/
theorem isFaint_eq (h : typed false Kind.secretStats.shape (.entity .secretStats slots) = true)
    (hfaded : Renumbered names slots faded)
    (hstats : secret.get "stats" = .ok (.entity .secretStats faded)) :
    isFaint secret = .ok (isLow (.entity .secretStats faded)) := by
  obtain ⟨_, hlegal, -⟩ := get_number "legal_value" rfl h rfl (.inr (.inl rfl))
  obtain ⟨_, hdamage, -⟩ := get_number "public_damage" rfl h rfl (.inr (.inl rfl))
  obtain ⟨a, ha⟩ := hfaded.get_number hlegal
  obtain ⟨b, hb⟩ := hfaded.get_number hdamage
  have hlow : isLow (.entity .secretStats faded) =
      (a.less (.float 0.15) && b.less (.float 0.15)) := by
    simp [isLow, field_of_get ha, field_of_get hb, number?]
  have hholds : ∀ n, (Value.number n).holds .lt inertThreshold = .ok (n.less (.float 0.15)) :=
    fun n => holds_lt n (.float 0.15)
  rw [isFaint, hstats, Outcome.ok_bind, ha, Outcome.ok_bind, hholds, Outcome.ok_bind, hb, hlow]
  cases a.less (.float 0.15)
  · rfl
  · exact hholds b

/-- The stats that are there in a typed entity are the declared ones. -/
theorem fadesUnder_eq (h : typed false Kind.secretStats.shape (.entity .secretStats slots) = true)
    (name : String) : fadesUnder slots name = isStat (.entity .secretStats slots) name := by
  obtain ⟨-, hfields, hbeside⟩ := typed_entity.1 h
  have hdeclared : (Table.get? (.field name) slots).isSome =
      (Kind.secretStats.field? name).isSome := by
    rw [Bool.eq_iff_iff]
    constructor
    · intro hsome
      obtain ⟨v, hv⟩ := Option.isSome_iff_exists.1 hsome
      exact hbeside _ (Table.mem_of_get? hv)
    · intro hsome
      obtain ⟨f, hf⟩ := Option.isSome_iff_exists.1 hsome
      obtain ⟨v, hv, -⟩ := hfields f (List.mem_of_find?_eq_some hf)
      obtain rfl : f.1.name = name := by simpa using List.find?_some hf
      exact Option.isSome_iff_exists.2 ⟨v, hv⟩
  rw [fadesUnder, isStat, Option.isSome_map, hdeclared, extra?]
  cases Table.get? (.extra name) slots <;> simp

theorem numeric_of_typed
    (h : typed false Kind.secretStats.shape (.entity .secretStats slots) = true) :
    Numeric slots := by
  intro name v hv
  obtain ⟨-, -, hbeside⟩ := typed_entity.1 h
  obtain ⟨f, hf⟩ := Option.isSome_iff_exists.1 (hbeside _ (Table.mem_of_get? hv))
  obtain ⟨hshape, hlooked⟩ := stat_declared f (List.mem_of_find?_eq_some hf)
  obtain ⟨n, hn, -⟩ := get_number name hf h
    (by obtain rfl : f.1.name = name := by simpa using List.find?_some hf
        exact hlooked) (.inr (.inl hshape))
  obtain rfl : v = .number n := by
    obtain ⟨_, _, heq, hslot⟩ := get_ok.1 hn
    obtain ⟨-, rfl⟩ := Value.entity.inj heq
    exact Option.some.inj (hv.symm.trans hslot)
  rfl

/-- Fading a readable secret changes its stats only, and of those only such as are named. -/
theorem fadeSecret_stats_only {stats : Value} (hstats : secret.get "stats" = .ok stats)
    (hinner : typed false Kind.secretStats.shape stats = true)
    (hdecay : typed false Kind.secretDecay.shape decay = true)
    (h : fadeSecret secret decay = (after, .ok touched)) :
    ∃ slots faded, stats = .entity .secretStats slots ∧
      Renumbered (decay.field "applies_to").items slots faded ∧
      after = secret.setField "stats" (.entity .secretStats faded) ∧
      touched = (decay.field "applies_to").items.any fun name => isStat stats (name.textOr "") := by
  obtain ⟨-, x, kind, slots, named, names, faded, -, -, hget, hnamed, hnames, hrun, rfl⟩ :=
    fadeSecret_inv h
  obtain rfl : stats = .entity kind slots := Except.ok.inj (hstats.symm.trans hget)
  obtain ⟨rfl, -, -⟩ := typed_entity.1 hinner
  obtain ⟨list, hlist, htexts⟩ := get_list "applies_to" rfl hdecay rfl rfl
  obtain rfl : .list list = named := Except.ok.inj (hlist.symm.trans hnamed)
  obtain rfl : list = names := Except.ok.inj hnames
  obtain ⟨hfaded, htouched⟩ :=
    renumbered_fadeStats (texts_of_typed htexts) (numeric_of_typed hinner) hrun
  refine ⟨slots, faded, rfl, by rwa [field_of_get hlist], rfl, ?_⟩
  rw [htouched, Bool.false_or, field_of_get hlist]
  exact congrArg (List.any list) (funext fun name => fadesUnder_eq hinner _)

theorem ofSecret_of_spared (h : Readable secret) (hspared : isSpared episode secret = true) :
    ofSecret episode secret = (secret, .ok ⟨false, false⟩) := by
  have hfading := fading?_eq h
  cases hlasts : lasts secret with
  | true =>
    rw [hlasts, if_pos rfl] at hfading
    exact ofSecret_of_lasting hfading
  | false =>
    rw [hlasts, if_neg Bool.false_ne_true] at hfading
    rw [isSpared, hlasts, Bool.false_or] at hspared
    exact ofSecret_of_done hfading ((isDone_field h hlasts episode).trans (congrArg _ hspared))

theorem noteEpisode_eq (h : secret.get "decay" = .ok decay) :
    noteEpisode secret decay episode = secret.setField "decay" (episode.elim decay (noted decay)) := by
  cases episode with
  | none => exact (setField_of_get h).symm
  | some e => rfl

theorem get_noteEpisode {name : String} (hname : name ≠ "decay") :
    (noteEpisode secret decay episode).get name = secret.get name := by
  cases episode with
  | none => rfl
  | some e => exact get_setField_of_ne hname

/-- What becomes of one that is not left alone, and what is told of it. -/
theorem ofSecret_fades {effect : Effect} (h : Readable secret)
    (hspared : isSpared episode secret = false)
    (hok : ofSecret episode secret = (after, .ok effect)) :
    Fades episode secret after ∧ effect = ⟨namesStat secret, changesStatus secret after⟩ := by
  obtain ⟨hfading, hdone⟩ := fading_of_not_spared h hspared
  obtain ⟨between, hfade, hfaint, hafter⟩ := ofSecret_inv hfading hdone hok
  obtain ⟨status, -, hstatus, hactive, hdecay, hnull, -⟩ := fading?_some.1 hfading
  obtain rfl : status = .text "active" := by
    obtain ⟨s, hs⟩ := h.status
    obtain rfl : .text s = status := Except.ok.inj (hs.symm.trans hstatus)
    simpa [equal] using hactive
  obtain ⟨stats, hstats, hinner, -⟩ := get_of_typed "stats" rfl h.typed rfl
  have hnoted : (noteEpisode secret (secret.field "decay") episode).get "stats" = .ok stats :=
    (get_noteEpisode (by decide)).trans hstats
  obtain ⟨slots, faded, rfl, hrenumbered, rfl, htouched⟩ :=
    fadeSecret_stats_only hnoted hinner (decay_of_fading h hfading) hfade
  have hlow := (isFaint_eq hinner hrenumbered (get_setField_self hnoted)).symm.trans hfaint
  rw [Except.ok.injEq] at hlow
  have hstill : ((noteEpisode secret (secret.field "decay") episode).setField "stats"
      (.entity .secretStats faded)).get "status" = .ok (.text "active") := by
    rw [get_setField_of_ne (by decide), get_noteEpisode (by decide), hstatus]
  have hwhole : after = ((noteEpisode secret (secret.field "decay") episode).setField "stats"
      (.entity .secretStats faded)).setField "status"
        (if effect.inert then .text "inert" else .text "active") := by
    rw [hafter]
    split
    · rfl
    · exact (setField_of_get hstill).symm
  have hinert : effect.inert = changesStatus secret after := by
    rw [changesStatus, hwhole, field_of_get hstatus, field_of_get (get_setField_self hstill)]
    cases effect.inert <;> simp [equal]
  refine ⟨⟨slots, faded, field_of_get hstats, hrenumbered, ?_⟩, ?_⟩
  · rwa [hlow, field_of_get hstatus, ← noteEpisode_eq hdecay]
  · rw [← hinert, namesStat, field_of_get hstats, ← htouched]

/-- What the end of an episode makes of a secret. -/
def Becomes (episode : Option Int) (secret after : Value) : Prop :=
  if isSpared episode secret then after = secret else Fades episode secret after

/-- The id of a secret stays. -/
theorem Becomes.id (h : Becomes episode secret after) : after.field "id" = secret.field "id" := by
  rw [Becomes] at h
  split at h
  · rw [h]
  · obtain ⟨slots, faded, -, -, rfl⟩ := h
    rw [field_setField_of_ne (by decide), field_setField_of_ne (by decide)]
    exact field_setField_of_ne (by decide)

theorem ofSecret_becomes {effect : Effect} (h : Readable secret)
    (hok : ofSecret episode secret = (after, .ok effect)) : Becomes episode secret after ∧
      effect = ⟨!isSpared episode secret && namesStat secret, changesStatus secret after⟩ := by
  rw [Becomes]
  cases hspared : isSpared episode secret with
  | false =>
    obtain ⟨hfades, heffect⟩ := ofSecret_fades h hspared hok
    exact ⟨hfades, heffect⟩
  | true =>
    rw [ofSecret_of_spared h hspared] at hok
    cases hok
    obtain ⟨s, hs⟩ := h.status
    have hsame : changesStatus secret secret = false := by
      simp [changesStatus, field_of_get hs, equal]
    exact ⟨rfl, by rw [hsame]; rfl⟩

/-! ### The secrets of a story -/

/-- The secrets after the end of an episode, one by one, and the ids that are told of it. -/
theorem ofSecrets_becomes : ∀ {secrets rest : List Value} {r : Result},
    (∀ s ∈ secrets, Readable s) → ofSecrets episode secrets = (rest, .ok r) →
      List.Forall₂ (Becomes episode) secrets rest ∧
      r.decayed = (secrets.filter fun s => !isSpared episode s && namesStat s).map (·.field "id") ∧
      r.inert = ((secrets.zip rest).filter fun p => changesStatus p.1 p.2).map (·.1.field "id")
  | [], _, _, _, h => by
    cases h
    exact ⟨.nil, rfl, rfl⟩
  | secret :: secrets, _, _, hreadable, h => by
    rw [List.forall_mem_cons] at hreadable
    obtain ⟨after, effect, others, r, hsecret, hrest, rfl, rfl⟩ := ofSecrets_cons h
    obtain ⟨hone, rfl⟩ := ofSecret_becomes hreadable.1 hsecret
    obtain ⟨hmore, hdecayed, hinert⟩ := ofSecrets_becomes hreadable.2 hrest
    refine ⟨.cons hone hmore, ?_, ?_⟩
    · simp only [List.filter_cons, hdecayed, hone.id]
      split <;> rfl
    · simp only [List.zip_cons_cons, List.filter_cons, hinert, hone.id]
      split <;> rfl

theorem readable_of_read {document : Value} {story : Story} (hd : document.isDocument = true)
    (h : Story.read document = .ok story) :
    story.secrets = .list story.secrets.items ∧ ∀ s ∈ story.secrets.items, Readable s := by
  have hbetween := between_of_read hd h
  have hkind : Kind.secret.inStory = true := rfl
  obtain ⟨list, hget, hlist⟩ := Schema.get_of_held "secrets" rfl rfl (Story.held_of_read hd h)
  obtain ⟨secrets, rfl, hsecrets⟩ := Schema.held_list hlist
  have hlisted : story.secrets = .list secrets := Except.ok.inj hget
  refine ⟨hbetween.listed, fun s hs => ?_⟩
  have hheld : Held Kind.secret.shape s := hsecrets s (by rwa [hlisted] at hs)
  obtain ⟨status, hstatus, htext⟩ := Schema.get_of_held "status" hkind rfl hheld
  obtain ⟨word, rfl⟩ := text_of_held htext
  exact ⟨typed_of_kind hkind hheld, ⟨word, hstatus⟩, hbetween.marked s hs⟩

/-- If the end of an episode comes to its result, the secrets are what it makes of them in turn. -/
theorem ofSecrets_of_apply {story : Story} {r : Result}
    (h : (apply story episode).outcome = .ok r) :
    ∃ after, ofSecrets episode story.secrets.items = (after, .ok r) ∧
      (apply story episode).story = { story with secrets := .list after } := by
  rcases hrun : ofSecrets episode story.secrets.items with ⟨after, fault | told⟩
  · simp [apply, hrun] at h
  · obtain rfl : told = r := by simpa [apply, hrun] using h
    exact ⟨after, rfl, by simp [apply, hrun]⟩

/-- The end of an episode changes nothing in a story that was read but its secrets, which keep their
number and order. It leaves a secret alone that does not fade or was faded for it before; of any
other one it changes just the stats that are named, the number of the episode, and the status, to
inert where both values are low then. It tells the ids of those it faded and had a stat to fade of,
and of those whose status it changed. -/
theorem apply_becomes {document : Value} {story : Story} {r : Result}
    (hd : document.isDocument = true) (h : Story.read document = .ok story)
    (hr : (apply story episode).outcome = .ok r) :
    ∃ before after, story.secrets = .list before ∧
      (apply story episode).story = { story with secrets := .list after } ∧
      List.Forall₂ (Becomes episode) before after ∧
      r.decayed = (before.filter fun s => !isSpared episode s && namesStat s).map (·.field "id") ∧
      r.inert = ((before.zip after).filter fun p => changesStatus p.1 p.2).map (·.1.field "id") := by
  obtain ⟨hlisted, hreadable⟩ := readable_of_read hd h
  obtain ⟨after, hrun, hstory⟩ := ofSecrets_of_apply hr
  exact ⟨_, after, hlisted, hstory, ofSecrets_becomes hreadable hrun⟩

/-- After the second episode the letter of `fadingDocument` has faded and is inert; the oath, which
has no decay, is as it was. -/
theorem apply_becomes_letter : ∃ story r letter oath letter', fadingDocument.isDocument = true ∧
    Story.read fadingDocument = .ok story ∧ (apply story (some 2)).outcome = .ok r ∧
    story.secrets = .list [letter, oath] ∧
    (apply story (some 2)).story = { story with secrets := .list [letter', oath] } ∧
    Fades (some 2) letter letter' ∧ r.decayed = [letter.field "id"] ∧
    r.inert = [letter.field "id"] := by
  have hd : fadingDocument.isDocument = true := by decide +kernel
  obtain ⟨story, hread, hruns, hfacts, hchanges⟩ := Story.exists_read fadingDocument (fun story =>
    (apply story (some 2)).outcome.toOption.isSome = true ∧
      story.secrets.items.map (fun s => (isSpared (some 2) s, namesStat s)) =
        [(false, true), (true, false)] ∧
      (story.secrets.items.zip (apply story (some 2)).story.secrets.items).map
        (fun p => changesStatus p.1 p.2) = [true, false]) (by decide +kernel)
  obtain ⟨r, hr⟩ := Outcome.exists_ok hruns
  obtain ⟨before, after, hbefore, hafter, hbecomes, hdecayed, hinert⟩ := apply_becomes hd hread hr
  rw [hbefore, items] at hfacts hchanges
  rw [hafter] at hchanges
  obtain ⟨letter, _, rfl, hletter, hrest⟩ := List.map_eq_cons_iff.1 hfacts
  obtain ⟨oath, _, rfl, hoath, hnil⟩ := List.map_eq_cons_iff.1 hrest
  obtain rfl := List.map_eq_nil_iff.1 hnil
  obtain ⟨hspared, hnames⟩ := Prod.mk.inj hletter
  obtain ⟨hspared', hnames'⟩ := Prod.mk.inj hoath
  obtain ⟨letter', _, hfades, hothers, rfl⟩ := List.forall₂_cons_left_iff.1 hbecomes
  obtain ⟨oath', _, hsame, hend, rfl⟩ := List.forall₂_cons_left_iff.1 hothers
  obtain rfl := List.forall₂_nil_left_iff.1 hend
  rw [Becomes, hspared, if_neg Bool.false_ne_true] at hfades
  rw [Becomes, hspared', if_pos rfl] at hsame
  subst hsame
  simp only [items, List.zip_cons_cons, List.zip_nil_right, List.map_cons, List.map_nil,
    List.cons.injEq, and_true] at hchanges
  refine ⟨story, r, letter, oath', letter', hd, hread, hr, hbefore, hafter, hfades, ?_, ?_⟩
  · simpa [hspared, hspared', hnames] using hdecayed
  · simpa [hchanges.1, hchanges.2] using hinert

end Decay

end StoryWorld
