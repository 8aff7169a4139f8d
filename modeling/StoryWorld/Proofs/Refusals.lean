import StoryWorld.Proofs.Atomic

/-!
What is refused in advance is what is refused in earnest.

Checking a delta and making it are different runs: the check looks at the place first and rehearses
then, making the delta rehearses first. They refuse the same deltas all the same, with one code and
one message. At a place outside the assets only what the check looks at refuses, since nothing there
guards its fields; in the assets a place that the check refuses is refused by the rehearsal too, and
what passes the rehearsal passes in earnest. All else that can go wrong is no refusal.
-/

namespace StoryWorld

namespace Outcome

variable {α : Type}

/-- Whether an outcome is no refusal: it is a result, or a failure of another cause. -/
abbrev Unrefused (x : Outcome α) : Prop :=
  x.FailsOnly fun fault => ∀ code message, fault ≠ .refused code message

theorem Unrefused.ne {x : Outcome α} (h : Unrefused x) (code : Code) (message : String) :
    x ≠ .error (.refused code message) :=
  fun hx => h _ hx code message rfl

@[simp] theorem unrefused_ofSize (x : Option α) : Unrefused (ofSize x) := by
  cases x <;> simp [ofSize]

end Outcome

open Outcome

/-! ### Reading values is never refused -/

namespace Value

theorem unrefused_get (name : String) (v : Value) : Unrefused (v.get name) := by
  unfold get
  split <;> simp

mutual

theorem unrefused_holds (r : Relation) : ∀ v w : Value, Unrefused (v.holds r w)
  | .text _, w => by cases w <;> simp [holds]
  | .list xs, w => by
    cases w with
    | list ys => simpa [holds] using unrefused_holdsItems r xs ys
    | _ => simp [holds]
  | .number _, w => by unfold holds; split <;> simp
  | .bool _, w => by unfold holds; split <;> simp
  | .null, _ => by simp [holds]
  | .mapping _, _ => by simp [holds]
  | .entity _ _, _ => by simp [holds]
  | .builtin _, _ => by simp [holds]

theorem unrefused_holdsItems (r : Relation) : ∀ xs ys : List Value, Unrefused (holdsItems r xs ys)
  | [], [] => by simp [holdsItems]
  | [], _ :: _ => by simp [holdsItems]
  | _ :: _, [] => by simp [holdsItems]
  | x :: xs, y :: ys => by
    unfold holdsItems
    split
    · exact unrefused_holdsItems r xs ys
    · exact unrefused_holds r x y

end

theorem unrefused_plus (v w : Value) : Unrefused (v.plus w) := by
  unfold plus
  split
  · simp
  · simp
  · split
    · exact (unrefused_ofSize _).map _
    · simp

/-- What an entity computes from its fields can fail, but is not refused. -/
theorem unrefused_compute (name : String) (v : Value) : Unrefused (compute name v) := by
  unfold compute
  split
  · refine FailsOnly.map (.bind (unrefused_get _ _) fun _ _ => ?_) _
    exact .bind (unrefused_get _ _) fun _ _ => failsOnly_ok _
  · split
    · refine .bind (unrefused_get _ _) fun stats _ => .bind (unrefused_get _ _) fun legal _ => ?_
      exact .bind (unrefused_get _ _) fun damage _ => unrefused_plus legal damage
    · refine FailsOnly.map (.bind (unrefused_get _ _) fun status _ => ?_) _
      split
      · refine .bind (unrefused_get _ _) fun waited _ => .bind (unrefused_get _ _) fun _ _ => ?_
        exact .bind (unrefused_get _ _) fun limit _ => unrefused_holds .ge waited limit
      · exact failsOnly_ok _

theorem unrefused_read (v : Value) (s : Step) : Unrefused (v.read s) := by
  unfold read
  split
  · split <;> simp
  · unfold computed
    split
    · simp
    · exact unrefused_compute _ _
  · split <;> simp
  · split <;> simp
  · split <;> simp
  · simp

theorem unrefused_follow (v : Value) (steps : List Step) : Unrefused (v.follow steps) := by
  induction steps generalizing v with
  | nil => simp [follow]
  | cons s rest ih => exact .bind (unrefused_read v s) fun w _ => ih w

theorem unrefused_strictEqual (v w : Value) : Unrefused (v.strictEqual w) := by
  unfold strictEqual
  split
  · simp
  · split
    · split <;> simp
    · simp

/-- Looking through values fails as the test of one of them does. -/
theorem failsOnly_findFrom {P : Fault → Prop} {test : Value → Outcome Bool} (position : Nat)
    {xs : List Value} (ht : ∀ x ∈ xs, (test x).FailsOnly P) :
    (findFrom test position xs).FailsOnly P := by
  induction xs generalizing position with
  | nil => simp [findFrom]
  | cons x xs ih =>
    rw [List.forall_mem_cons] at ht
    refine .bind ht.1 fun found _ => ?_
    split
    · exact failsOnly_ok _
    · exact ih _ ht.2

end Value

/-! ### Assigning is refused only where fields are guarded -/

namespace Assign

/-- An assignment that fails reports problems, or has another cause; it is never a refusal yet. -/
theorem unrefused_assign (c : Value) (step : Step) (value : Value) :
    Unrefused (assign c step value).2 := by
  have hsettle : ∀ kind slots slot v, Unrefused (settle kind slots slot v).2 := by
    intro kind slots slot v
    unfold settle Verdict.outcome
    split
    · simp only
      split <;> simp
    · simp
  unfold assign
  split
  · unfold toEntity
    split
    · split
      · unfold guardedField
        split
        · simp
        · split
          · exact hsettle _ _ _ _
          · simp
          · simp
      · unfold openField
        simp only
        split <;> simp
    · split
      · simp
      · split
        · exact hsettle _ _ _ _
        · simp
    · simp
    · unfold toBuiltin
      split
      · unfold replaceOwn
        split <;> simp
      · split
        · simp
        · split
          · exact hsettle _ _ _ _
          · simp
      · simp
    · simp
  · simp

/-- An entity that does not guard its fields reports no problems. -/
theorem not_invalid_of_unguarded {kind : Kind} (hk : kind.guarded = false)
    (slots : List (Slot × Value)) (step : Step) (value : Value) (report : Report) :
    (toEntity kind slots step value).2 ≠ .error (.invalid report) := by
  unfold toEntity toBuiltin replaceOwn openField
  simp only [hk, Bool.false_and, Bool.false_eq_true, if_false]
  repeat' split
  all_goals simp

end Assign

namespace Place

variable {story : Story} {place : Place}

theorem unrefused_container (story : Story) (place : Place) : Unrefused (place.container story) :=
  Value.unrefused_follow _ _

/-- Writing outside the assets is never refused. -/
theorem unrefused_write (h : story.Apart) (hroot : place.root ≠ .assets) (path : String)
    (value : Value) : Unrefused (place.write story path value).2 := by
  unfold write
  split
  · rename_i fault hfault
    simpa [hfault] using unrefused_container story place
  · rename_i w hw
    have hassign := Assign.unrefused_assign w place.last value
    have hinvalid : ∀ report, (Assign.assign w place.last value).2 ≠ .error (.invalid report) := by
      intro report
      cases w with
      | entity kind slots =>
        have hkind := (Value.within_entity.1 (within_container h hroot hw)).1
        rw [Kind.elsewhere, Bool.and_eq_true, Bool.not_eq_true'] at hkind
        exact Assign.not_invalid_of_unguarded hkind.1 slots place.last value report
      | _ => simp [Assign.assign]
    simp only
    generalize (Assign.assign w place.last value).2 = outcome at hassign hinvalid
    cases outcome with
    | ok u => simp [Except.mapError]
    | error fault =>
      cases fault with
      | invalid report => exact absurd rfl (hinvalid report)
      | refused code message => exact absurd rfl (failsOnly_error.1 hassign code message)
      | _ => simp [Except.mapError, rejection]

end Place

namespace Delta

variable {story : Story} {place : Place} {delta : Delta} {fault : Fault}

/-! ### At the place of a path delta -/

/-- A delta that is refused at a place outside the assets changes nothing: it is refused before
anything is assigned. -/
theorem amend_refused {code : Code} {message : String} (h : story.Apart)
    (hroot : place.root ≠ .assets)
    (hr : (amend story place delta).2 = .error (.refused code message)) :
    (amend story place delta).1 = story :=
  amend_error_of_write (fun v hv =>
    absurd hv ((Place.unrefused_write h hroot delta.path v).ne code message)) hr

/-- What the check finds at a place is what making the delta there fails with. -/
theorem amend_of_checkAt (h : checkAt story place delta = .error fault) :
    (amend story place delta).2 = .error fault := by
  cases hop : delta.op with
  | set =>
    have hr : replacement story place delta = .error fault := by
      simpa [checkAt, hop, map_error] using h
    simp [amend, hop, hr, writeOutcome]
  | add | subtract | multiply =>
    have hn : requireNumbers story place delta = .error fault := by
      simpa [checkAt, hop, map_error] using h
    simp [amend, hop, arithmetic?, computed, hn, writeOutcome, bind, Except.bind]
  | append =>
    have ha : appended story place delta = .error fault := by
      simp only [checkAt, hop, bind_error] at h
      unfold appended
      simp only [bind_error]
      rcases h with h | ⟨xs, hxs, h | ⟨x, -, h⟩⟩
      · exact .inl h
      · exact .inr ⟨xs, hxs, .inl h⟩
      · cases h
    simp [amend, hop, ha, putOutcome]
  | remove =>
    have hr : removed story place delta = .error fault := by
      simp only [checkAt, hop, bind_error] at h
      unfold removed
      simp only [bind_error]
      rcases h with h | ⟨xs, hxs, h | ⟨x, -, h⟩⟩
      · exact .inl h
      · exact .inr ⟨xs, hxs, .inl h⟩
      · cases h
    simp [amend, hop, hr, putOutcome]
  | transfer => simp [checkAt, hop] at h

/-- Outside the assets nothing else refuses a delta than what its check finds at the place. -/
theorem checkAt_of_refused {code : Code} {message : String} (h : story.Apart)
    (hroot : place.root ≠ .assets) (hop : delta.op ≠ .transfer)
    (hr : (amend story place delta).2 = .error (.refused code message)) :
    checkAt story place delta = .error (.refused code message) := by
  have hwrite : ∀ value, (writeOutcome story place delta.path value).2 =
      .error (.refused code message) → value = .error (.refused code message) := by
    rintro (fault | v) hv
    · simpa [writeOutcome] using hv
    · exact absurd hv ((Place.unrefused_write h hroot delta.path v).ne code message)
  have hput : ∀ xs, (putOutcome story place xs).2 = .error (.refused code message) →
      xs = .error (.refused code message) := by
    rintro (fault | xs) hxs
    · simpa [putOutcome] using hxs
    · cases hxs
  cases hcase : delta.op with
  | set =>
    simp only [amend, hcase] at hr
    simpa [checkAt, hcase, map_error] using hwrite _ hr
  | add | subtract | multiply =>
    simp only [amend, hcase, arithmetic?] at hr
    rcases bind_error.1 (hwrite _ hr) with hn | ⟨⟨a, b⟩, -, hn⟩
    · simpa [checkAt, hcase, map_error] using hn
    · refine absurd hn (Unrefused.ne (.bind (unrefused_ofSize _) fun n _ => ?_) code message)
      exact failsOnly_ok _
  | append =>
    simp only [amend, hcase] at hr
    simp only [checkAt, hcase, bind_error]
    rcases bind_error.1 (hput _ hr) with hl | ⟨xs, hxs, hl⟩
    · exact .inl hl
    · rcases bind_error.1 hl with hi | ⟨x, -, hi⟩
      · exact .inr ⟨xs, hxs, .inl hi⟩
      · cases hi
  | remove =>
    simp only [amend, hcase] at hr
    simp only [checkAt, hcase, bind_error]
    rcases bind_error.1 (hput _ hr) with hl | ⟨xs, hxs, hl⟩
    · exact .inl hl
    · rcases bind_error.1 hl with hp | ⟨pattern, -, hf⟩
      · exact .inr ⟨xs, hxs, .inl hp⟩
      · -- the search for the item can fail, but it is not refused
        have hsought : ∀ v, Unrefused (isSought delta pattern v) := by
          intro v
          unfold isSought
          split
          · exact Value.unrefused_strictEqual _ _
          · split
            · exact Value.unrefused_strictEqual _ _
            · simp
        refine absurd hf (Unrefused.ne (.bind (Value.failsOnly_findFrom 0 fun v _ => hsought v) ?_)
          code message)
        rintro (_ | i) - <;> exact failsOnly_ok _
  | transfer => exact absurd hcase hop

/-! ### Path deltas -/

/-- In the assets the check of a path delta and making it come to the same. -/
theorem checkPath_eq (hplace : Place.resolve story delta.path = .ok place)
    (hroot : place.root = .assets) : checkPath story delta = (amendPath story delta).2 := by
  have hrehearse := rehearse_eq hplace hroot
  simp only [checkPath, amendPath, hplace, bind, Except.bind] at hrehearse ⊢
  cases hcheck : checkAt story place delta with
  | error fault =>
    -- what fails at the place fails on the copy as well
    rw [amend_of_checkAt hcheck] at hrehearse
    simp only [hrehearse]
  | ok _ =>
    cases hamend : (amend story place delta).2 with
    | error fault =>
      rw [hamend] at hrehearse
      simp only [hrehearse]
    | ok _ => cases rehearse story delta <;> simp [hamend]

/-- Outside the assets a path delta is refused in advance just if it is in earnest. -/
theorem checkPath_refused_iff {code : Code} {message : String} (h : story.Apart)
    (hplace : Place.resolve story delta.path = .ok place) (hroot : place.root ≠ .assets)
    (hop : delta.op ≠ .transfer) :
    checkPath story delta = .error (.refused code message) ↔
      (amendPath story delta).2 = .error (.refused code message) := by
  obtain ⟨parts, segments, hsplit, -⟩ := Place.resolve_ok.1 hplace
  have hrehearse : rehearse story delta = .ok () := by
    refine if_pos ?_
    rw [hsplit]
    intro hhead
    have hname := String.toList_inj.1 (Option.some.inj hhead)
    have hof := congrArg Root.ofName? hname
    simp only [Root.ofName?_name, Option.some.injEq] at hof
    exact hroot hof
  simp only [checkPath, amendPath, hplace, hrehearse, bind, Except.bind]
  constructor
  · intro hcheck
    cases hat : checkAt story place delta with
    | ok _ => simp [hat] at hcheck
    | error fault =>
      rw [amend_of_checkAt hat]
      simpa [hat] using hcheck
  · intro hamend
    simp [checkAt_of_refused h hroot hop hamend]

/-! ### Transfers -/

theorem unrefused_entryOf (story : Story) (holder : String) : Unrefused (entryOf story holder) :=
  Value.failsOnly_findFrom 0 fun v _ => (Value.unrefused_get _ v).map _

theorem unrefused_changeBalance (story : Story) (position : Nat)
    (op : Number → Number → Option Number) (amount : Number) :
    Unrefused (changeBalance story position op amount).2 := by
  have hbalance : Unrefused (balanceAt story position) := by
    refine .bind (Value.unrefused_get _ _) fun v _ => ?_
    split
    · exact failsOnly_ok _
    · simp
  unfold changeBalance
  split
  · rename_i fault hfault
    simpa [hfault] using hbalance
  · split
    · exact Assign.unrefused_assign _ _ _
    · simp

/-- A transfer is refused by its check or not at all: once the source pays, what goes wrong is no
refusal. -/
theorem transfer_refused_iff {code : Code} {message : String} :
    (transfer story delta).2 = .error (.refused code message) ↔
      checkTransfer story delta = .error (.refused code message) := by
  unfold transfer
  cases hcheck : checkTransfer story delta with
  | error fault => simp
  | ok t =>
    refine iff_of_false (fun h => ?_) (by simp)
    have hdebit := unrefused_changeBalance story t.source Number.sub? t.amount
    simp only at h
    split at h
    · rename_i debited _
      unfold credit at h
      split at h
      · rename_i fault hfault
        obtain rfl : fault = .refused code message := by simpa using h
        exact (unrefused_entryOf debited t.destination).ne code message hfault
      · exact (unrefused_changeBalance debited _ Number.add? t.amount).ne code message h
      · cases h
    · rename_i debited fault hfault
      rw [hfault] at hdebit
      exact hdebit.ne code message h

/-! ### The check of a delta and the delta -/

/-- The check of a delta as an outcome that fails where the delta is refused. -/
def examine (story : Story) (delta : Delta) : Outcome Unit :=
  match delta.op with
  | .transfer => (checkTransfer story delta).map fun _ => ()
  | _ => checkPath story delta

theorem check_refused_iff {code : Code} {message : String} :
    check story delta = .ok (some (code, message)) ↔
      examine story delta = .error (.refused code message) := by
  cases hop : delta.op with
  | transfer =>
    simp only [check, examine, hop]
    rcases (checkTransfer story delta).map fun _ => () with fault | _
    · cases fault <;> simp
    · simp
  | _ =>
    simp only [check, examine, hop]
    rcases checkPath story delta with fault | _
    · cases fault <;> simp
    · simp

theorem apply_refused_iff {code : Code} {message : String} {tag : Tag} :
    (apply story delta tag).outcome = .ok (.rejected code message) ↔
      (perform story delta).2 = .error (.refused code message) := by
  unfold apply
  rcases perform story delta with ⟨after, fault | _⟩
  · cases fault <;> simp
  · simp

/-- A delta is refused in advance just if it is refused in earnest. -/
theorem examine_refused_iff {code : Code} {message : String} (h : story.Apart) :
    examine story delta = .error (.refused code message) ↔
      (perform story delta).2 = .error (.refused code message) := by
  unfold examine perform
  by_cases hop : delta.op = .transfer
  · simp only [hop]
    rw [transfer_refused_iff, map_error]
  · have hpath : checkPath story delta = .error (.refused code message) ↔
        (amendPath story delta).2 = .error (.refused code message) := by
      cases hplace : Place.resolve story delta.path with
      | error fault => simp [checkPath, amendPath, hplace, bind, Except.bind]
      | ok place =>
        by_cases hroot : place.root = .assets
        · rw [checkPath_eq hplace hroot]
        · exact checkPath_refused_iff h hplace hroot hop
    split <;> simp_all

/-- The check of a delta refuses it exactly when applying it does, with the same code and message; and
where both come to a result, the check finds nothing exactly when the delta is applied. -/
theorem check_agrees_with_apply (h : Reachable story) (delta : Delta) (tag : Tag) :
    (∀ code message, check story delta = .ok (some (code, message)) ↔
      (apply story delta tag).outcome = .ok (.rejected code message)) ∧
    ∀ verdict result, check story delta = .ok verdict →
      (apply story delta tag).outcome = .ok result →
        (verdict = none ↔ result = .applied ⟨delta, tag⟩) := by
  have hrefused : ∀ code message, check story delta = .ok (some (code, message)) ↔
      (apply story delta tag).outcome = .ok (.rejected code message) := fun code message => by
    rw [check_refused_iff, apply_refused_iff, examine_refused_iff h.apart]
  refine ⟨hrefused, ?_⟩
  rintro verdict result hverdict hresult
  constructor
  · rintro rfl
    rcases perform_of_apply hresult with ⟨happlied, -⟩ | ⟨code, message, rfl, -⟩
    · exact happlied
    · have := (hrefused code message).2 hresult
      rw [hverdict] at this
      cases this
  · rintro rfl
    rcases verdict with _ | ⟨code, message⟩
    · rfl
    · have := (hrefused code message).1 hverdict
      rw [hresult] at this
      cases this

/-- A balance below zero is found in advance, as the value that the entry does not take. -/
theorem check_agrees_with_apply_setting : ∃ story code message,
    Story.read unguardedDocument = .ok story ∧
      check story (settingDelta "denarii" (-7)) = .ok (some (code, message)) ∧
        (apply story (settingDelta "denarii" (-7)) ⟨none, none⟩).outcome =
          .ok (.rejected code message) := by
  obtain ⟨story, hread, hcheck⟩ := Story.exists_read unguardedDocument (fun story =>
    check story (settingDelta "denarii" (-7)) = .ok (some (.typeMismatch,
      "Value -7 rejected at assets.cash_ledger[0].denarii: 1 validation error for LedgerEntry")))
    (by decide +kernel)
  exact ⟨story, _, _, hread, hcheck,
    ((check_agrees_with_apply (.read (by decide +kernel) hread) _ _).1 _ _).1 hcheck⟩

end Delta

end StoryWorld
