import StoryWorld.Proofs.Episodes
import StoryWorld.Proofs.Typed

/-!
The end of an episode goes through on a story with typed entities.

The half-life of a secret that fades is a number above zero, so there is a factor for it. The stats
of a typed secret are numbers that fit floats, the extra ones too where that is asked. Multiplied
by the factor they are floats, so the stats stay typed from one name to the next, and both values
can be compared with the threshold at the end.
-/

namespace StoryWorld.Decay

open Schema Value

variable {secret stats decay halfLife : Value} {slots : List (Slot × Value)} {x : Float}
  {limited : Bool}

/-! ### The factor -/

theorem isSome_div?_one {n : Number} (hzero : n.isZero = false) :
    ((Number.int 1).div? n).isSome = true := by
  have hone : (Number.int 1).fits = true := Number.fits_of_natAbs_le (by decide)
  cases n with
  | float y =>
    obtain ⟨z, hz⟩ := Option.isSome_iff_exists.1 hone
    rw [Number.div?, hz]
    · rfl
    · simp
  | int m =>
    have hm : m ≠ 0 := by
      rintro rfl
      exact absurd hzero (by decide)
    have hpos : 0 < m.natAbs := Int.natAbs_pos.2 hm
    have hle : ((1 : ℕ) : ℚ) / m.natAbs ≤ (1 : ℕ) / (1 : ℕ) := by
      rw [Nat.cast_one, div_one]
      exact div_le_one_of_le₀ (by exact_mod_cast hpos) (by positivity)
    rw [Number.div?, Binary.isSome_ofQuotient?]
    exact (Binary.bitsOfQuotient_mono hpos one_pos hle).trans_lt (by decide +kernel)

/-- There is a factor for every half-life that is not zero or below. -/
theorem factor_ok {n : Number} (h : (Value.number n).holds .le (.int 0) = .ok false) :
    ∃ x, factor (.number n) = .ok x := by
  have hcompare : (n.compare? (.int 0)).any Relation.le.holdsOf = false := by
    simpa [Value.int, holds, numeric?, Relation.ofNumbers] using h
  have hzero : n.isZero = false := by
    rw [Number.isZero, Number.equal]
    cases hc : n.compare? (.int 0) with
    | none => rfl
    | some o => cases o <;> simp_all [Relation.holdsOf]
  have hless : n.less (.int 0) = false := by
    rw [Number.less]
    cases hc : n.compare? (.int 0) with
    | none => rfl
    | some o => cases o <;> simp_all [Relation.holdsOf]
  obtain ⟨episodes, hdiv⟩ := Option.isSome_iff_exists.1 (isSome_div?_one hzero)
  refine ⟨Float.pow 0.5 episodes, ?_⟩
  simp [factor, numeric?, hzero, hless, hdiv, Outcome.ofSize]

/-! ### The stats -/

/-- A number that fits a float comes to a float when it is multiplied by one. -/
theorem times_ok {n : Number} (h : n.fits = true) (x : Float) :
    ∃ y, (Value.number n).times x = .ok (.float y) := by
  obtain ⟨z, hz⟩ := Option.isSome_iff_exists.1 h
  have hmul : n.mul? (.float x) = some (.float (z * x)) := by
    rw [Number.mul?, Number.combine?, hz]
    · rfl
    · simp
  refine ⟨z * x, ?_⟩
  show (Outcome.ofSize (n.mul? (.float x))).map Value.number = _
  rw [hmul]
  rfl

/-- The stats of a secret are typed, the extra ones included. -/
abbrev TypedStats (slots : List (Slot × Value)) : Prop :=
  typed true Kind.secretStats.shape (.entity .secretStats slots) = true

/-- The stats of a secret are typed with a float in the place of what one of them was. -/
theorem typed_put_stat {s : Slot} (h : TypedStats slots) (hs : Table.has s slots = true)
    (y : Float) : TypedStats (Table.put s (.float y) slots) := by
  refine typed_put h (fun f hf _ => ?_) ?_
  · rw [typedField, (stat_declared f hf).1]
    exact Bool.or_true _
  · obtain ⟨old, hold⟩ := Table.has_iff.1 hs
    have hwas := (typed_entity.1 h).2.2 _ (Table.mem_of_get? hold)
    cases s with
    | field name => exact hwas
    | extra name => rfl
    | attached name => exact hwas
    | given => exact hwas

/-- The stats of a secret stay typed when one of them, or none, fades by its name. -/
theorem fadeStat_ok (h : TypedStats slots) (x : Float) (name : String) :
    ∃ after hit, fadeStat x slots (.text name) = .ok (after, hit) ∧ TypedStats after := by
  obtain ⟨-, hfields, hbeside⟩ := typed_entity.1 h
  have hput : ∀ {s : Slot} {n : Number} (y : Float), Table.get? s slots = some (.number n) →
      TypedStats (Table.put s (.float y) slots) :=
    fun y hs => typed_put_stat h (Table.has_iff.2 ⟨_, hs⟩) y
  -- A declared stat fades in any case, an extra one only if it is a number.
  cases hfield : Table.get? (.field name) slots with
  | some v =>
    obtain ⟨f, hf⟩ := Option.isSome_iff_exists.1 (hbeside _ (Table.mem_of_get? hfield))
    have hmem := List.mem_of_find?_eq_some hf
    obtain rfl : f.1.name = name := by simpa using List.find?_some hf
    obtain ⟨w, hw, htyped⟩ := hfields f hmem
    obtain rfl := Option.some.inj (hfield.symm.trans hw)
    obtain ⟨hshape, hlooked⟩ := stat_declared f hmem
    rw [typedField, hlooked, hshape, Bool.not_true, Bool.false_or, Bool.and_eq_true] at htyped
    obtain ⟨n, rfl⟩ := number_of_category (by simpa [typed] using htyped.1)
    obtain ⟨y, hy⟩ := times_ok (fits_of_fades htyped.2) x
    refine ⟨_, true, ?_, hput y hfield⟩
    simp [fadeStat, isKey, textOr, category, hfield, hy]
  | none =>
    cases hextra : Table.get? (.extra name) slots with
    | none => exact ⟨slots, false, by simp [fadeStat, isKey, textOr, category, hfield, hextra], h⟩
    | some v =>
      by_cases hnumber : v.category = .number
      · obtain ⟨n, rfl⟩ := number_of_category hnumber
        have hfades := hbeside _ (Table.mem_of_get? hextra)
        obtain ⟨y, hy⟩ := times_ok (fits_of_fades hfades) x
        refine ⟨_, true, ?_, hput y hextra⟩
        simp [fadeStat, isKey, textOr, category, hfield, hextra, hy]
      · refine ⟨slots, false, ?_, h⟩
        cases v <;> simp_all [fadeStat, isKey, textOr, category]

/-- So do they when they fade by several names in turn. -/
theorem fadeStats_ok (x : Float) : ∀ {names : List Value} {slots : List (Slot × Value)}
    {touched : Bool}, (∀ name ∈ names, ∃ s, name = .text s) → TypedStats slots →
      ∃ after hit, fadeStats x slots touched names = (after, .ok hit) ∧ TypedStats after
  | [], slots, touched, _, h => ⟨slots, touched, rfl, h⟩
  | name :: names, slots, touched, hnames, h => by
    rw [List.forall_mem_cons] at hnames
    obtain ⟨⟨s, rfl⟩, hnames⟩ := hnames
    obtain ⟨after, hit, hstat, hafter⟩ := fadeStat_ok h x s
    rw [fadeStats, hstat]
    exact fadeStats_ok x hnames hafter

/-! ### One secret -/

theorem fadeSecret_ok (hstats : secret.get "stats" = .ok stats)
    (hinner : typed true Kind.secretStats.shape stats = true)
    (hdecay : typed true Kind.secretDecay.shape decay = true)
    (hhalf : decay.get "half_life_episodes" = .ok halfLife)
    (hholds : halfLife.holds .le (.int 0) = .ok false) :
    ∃ after touched, fadeSecret secret decay = (secret.setField "stats" after, .ok touched) ∧
      typed true Kind.secretStats.shape after = true := by
  obtain ⟨n, hn, -⟩ := get_number "half_life_episodes" rfl hdecay rfl (.inr (.inr rfl))
  obtain rfl : Value.number n = halfLife := Except.ok.inj (hn.symm.trans hhalf)
  obtain ⟨x, hx⟩ := factor_ok hholds
  obtain ⟨names, hnames, htexts⟩ := get_list "applies_to" rfl hdecay rfl rfl
  obtain ⟨slots, rfl⟩ := entity_of_typed hinner
  obtain ⟨after, touched, hfade, hafter⟩ :=
    @fadeStats_ok x names slots false (texts_of_typed htexts) hinner
  refine ⟨.entity .secretStats after, touched, ?_, hafter⟩
  simp [fadeSecret, hhalf, hx, hstats, hnames, iterate, hfade, Outcome.ok_bind]

/-- Whether a secret with typed stats is faint can be said. -/
theorem isFaint_ok (hstats : secret.get "stats" = .ok stats)
    (hinner : typed limited Kind.secretStats.shape stats = true) :
    ∃ faint, isFaint secret = .ok faint := by
  obtain ⟨a, hlegal, -⟩ := get_number "legal_value" rfl hinner rfl (.inr (.inl rfl))
  obtain ⟨b, hdamage, -⟩ := get_number "public_damage" rfl hinner rfl (.inr (.inl rfl))
  have hholds : ∀ n, (Value.number n).holds .lt inertThreshold =
      .ok (Relation.lt.ofNumbers n (.float 0.15)) := fun _ => rfl
  rw [isFaint, hstats, Outcome.ok_bind, hlegal, Outcome.ok_bind, hholds, Outcome.ok_bind]
  split
  · exact ⟨_, by rw [hdamage, Outcome.ok_bind, hholds]⟩
  · exact ⟨false, rfl⟩

theorem isDone_ok (hdecay : typed limited Kind.secretDecay.shape decay = true)
    (episode : Option Int) : ∃ done, isDone decay episode = .ok done := by
  obtain ⟨n, hn, -⟩ := get_number "last_decayed_episode" rfl hdecay rfl (.inl rfl)
  cases episode with
  | none => exact ⟨false, rfl⟩
  | some e => exact ⟨_, by rw [isDone, hn, Outcome.ok_bind]; rfl⟩

/-- Whether a typed secret fades can be said, and its decay is typed if it does. -/
theorem fading?_ok (h : typed limited Kind.secret.shape secret = true) :
    ∃ found, fading? secret = .ok found ∧
      ∀ decay ∈ found, typed limited Kind.secretDecay.shape decay = true := by
  obtain ⟨status, hstatus, -⟩ := exists_get "status" rfl h
  obtain ⟨decay, hdecay, hinner, -⟩ := get_of_typed "decay" rfl h rfl
  have htyped : decay.category ≠ .null → typed limited Kind.secretDecay.shape decay = true :=
    fun hnull => ((Bool.or_eq_true _ _).mp hinner).resolve_left (by simpa using hnull)
  have hdecides : ∃ found, fading? secret = .ok found := by
    rw [fading?, hstatus, Outcome.ok_bind]
    split
    · exact ⟨none, rfl⟩
    · rw [hdecay, Outcome.ok_bind]
      split
      · exact ⟨none, rfl⟩
      · next hnull =>
        obtain ⟨n, hn, -⟩ :=
          get_number "half_life_episodes" rfl (htyped hnull) rfl (.inr (.inr rfl))
        have hholds : (Value.number n).holds .le (.int 0) =
            .ok (Relation.le.ofNumbers n (.int 0)) := rfl
        rw [hn, Outcome.ok_bind, hholds, Outcome.ok_bind]
        split
        · exact ⟨none, rfl⟩
        · exact ⟨some decay, rfl⟩
  obtain ⟨found, hfound⟩ := hdecides
  refine ⟨found, hfound, fun d hd => ?_⟩
  obtain rfl : found = some d := hd
  obtain ⟨-, -, -, -, hget, hnull, -⟩ := fading?_some.1 hfound
  obtain rfl : decay = d := Except.ok.inj (hdecay.symm.trans hget)
  exact htyped hnull

/-- The end of an episode goes through for a typed secret. -/
theorem ofSecret_ok (h : typed true Kind.secret.shape secret = true) (episode : Option Int) :
    ∃ after effect, ofSecret episode secret = (after, .ok effect) := by
  obtain ⟨found, hfound, hdecays⟩ := fading?_ok h
  cases found with
  | none => exact ⟨_, _, ofSecret_of_lasting hfound⟩
  | some decay =>
    have hdecay := hdecays decay rfl
    obtain ⟨done, hdone⟩ := isDone_ok hdecay episode
    cases done with
    | true => exact ⟨_, _, ofSecret_of_done hfound hdone⟩
    | false =>
      obtain ⟨-, halfLife, -, -, hget, -, hhalf, hholds⟩ := fading?_some.1 hfound
      obtain ⟨stats, hstats, hinner, -⟩ := get_of_typed "stats" rfl h rfl
      have hnoted : (noteEpisode secret decay episode).get "stats" = .ok stats := by
        cases episode with
        | none => exact hstats
        | some e => rw [noteEpisode, get_setField_of_ne (by decide), hstats]
      obtain ⟨after, touched, hfade, hafter⟩ := fadeSecret_ok hnoted hinner hdecay hhalf hholds
      obtain ⟨faint, hfaint⟩ := isFaint_ok (get_setField_self hnoted) hafter
      simp only [ofSecret, hfound, hdone, hfade, hfaint]
      cases faint <;> exact ⟨_, _, rfl⟩

/-! ### The secrets of a story -/

theorem ofSecrets_returns (episode : Option Int) : ∀ {secrets : List Value},
    (∀ secret ∈ secrets, typed true Kind.secret.shape secret = true) →
      ∃ after r, ofSecrets episode secrets = (after, .ok r)
  | [], _ => ⟨[], _, rfl⟩
  | secret :: rest, h => by
    rw [List.forall_mem_cons] at h
    obtain ⟨after, effect, hsecret⟩ := ofSecret_ok h.1 episode
    obtain ⟨others, r, hrest⟩ := ofSecrets_returns episode h.2
    rw [ofSecrets, hsecret]
    simp only [hrest]
    exact ⟨_, _, rfl⟩

/-- The end of an episode goes through on a story with typed entities, the extra stats included. -/
theorem apply_ok {story : Story} (h : story.Entities true) (episode : Option Int) :
    ∃ r, (apply story episode).outcome = .ok r := by
  obtain ⟨after, r, hsecrets⟩ := ofSecrets_returns episode h.secrets
  exact ⟨r, by simp [apply, hsecrets]⟩

end StoryWorld.Decay
