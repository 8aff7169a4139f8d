import StoryWorld.Proofs.AllOrNothing
import StoryWorld.Proofs.Answers
import StoryWorld.Proofs.Batches

/-!
Where a batch accounts for each of its deltas.

A delta that is neither applied nor refused ends the batch that it is in. At its place a delta meets
no other cause for that than a number that is too large: one that arithmetic cannot round, or one
that is to be a balance. A transfer meets an amount that is too large, or a destination that cannot
take it. So a batch accounts for all of its deltas just if each of them, in its turn, meets none of
these.
-/

namespace StoryWorld

open Outcome

/-! ### What a path delta does at its place -/

namespace Value

variable {v w : Value} {ok : Kind → Bool}

theorem within_itemField? {key : String} (h : v.within ok = true)
    (hw : Delta.itemField? v key = some w) : w.within ok = true := by
  unfold Delta.itemField? at hw
  split at hw
  · exact within_of_get? (within_mapping.1 h) hw
  · split at hw
    · exact within_of_get? (within_entity.1 h).2 hw
    · exact within_of_get? (within_entity.1 h).2 hw
  · cases hw

/-- A comparison is answered where the entity guards no balance, or the object has no number that is
too large. -/
theorem answered_strictEqual (h : v.within Kind.elsewhere = true ∨ w.isModerate = true) :
    (v.strictEqual w).Answered := by
  unfold strictEqual
  split
  · simp
  · split
    · rename_i kind slots es _
      have hread := Schema.validate_ne_overflow kind.shape
        (h.imp_left fun hv => Kind.unbalanced_shape (within_entity.1 hv).1)
      split
      · simp
      · simp
      · exact absurd ‹_› hread
    · simp

end Value

namespace Ledger

/-- The check of entries in order comes to a verdict. -/
theorem flawAfter?_of_entries : ∀ {seen entries : List Value}, (∀ e ∈ entries, e.IsEntry) →
    ∃ flaw, flawAfter? seen entries = .ok flaw
  | _, [], _ => ⟨none, rfl⟩
  | seen, entry :: rest, he => by
    rw [List.forall_mem_cons] at he
    obtain ⟨g, hg, -⟩ := he.1
    obtain ⟨hkind, hget⟩ := Value.get_of_holding hg
    rw [flawAfter?, hkind, hget]
    simp only [ok_bind, Bool.not_true, Bool.false_eq_true, if_false, Value.isKey]
    split
    · exact ⟨_, rfl⟩
    · exact flawAfter?_of_entries he.2

theorem flaw?_of_isAssets {story : Story} (h : story.assets.IsAssets) :
    ∃ flaw, flaw? story.assets = .ok flaw := by
  obtain ⟨slots, hslots, hget, he⟩ := Story.ledger_of_assets h
  obtain ⟨flaw, hflaw⟩ := @flawAfter?_of_entries [] _ he
  exact ⟨flaw, by simpa [flaw?, hslots, Value.get, Value.field?, hget, Value.iterate, ok_bind] using
    hflaw⟩

end Ledger

namespace Delta

variable {story : Story} {place : Place} {delta : Delta} {old : Value} {kind : Kind}

/-- Whether the numbers in what a delta sets, appends or removes fit floats. -/
def isModerate (delta : Delta) : Bool :=
  delta.value.isModerate && delta.pattern.all fun es => es.all fun e => e.2.isModerate

/-- Whether the path of a delta starts at the assets. -/
def onAssets (delta : Delta) : Bool :=
  (Segment.split delta.path.toList).head? == some Root.assets.name.toList

theorem answered_fit (h : kind.elsewhere = true ∨ delta.value.isModerate = true) :
    (fit kind delta).Answered := by
  have hread := Schema.validate_ne_overflow kind.shape (h.imp_left Kind.unbalanced_shape)
  unfold fit Schema.read
  cases hv : Schema.validate kind.shape delta.value with
  | overflow => exact absurd hv hread
  | _ => simp [Verdict.outcome]

theorem answered_requireList (hold : place.read story = .ok old) :
    (requireList story place delta).Answered := by
  unfold requireList
  rw [hold, ok_bind]
  split <;> simp

variable (h : story.Standing) (hold : place.read story = .ok old)
  (hm : place.root ≠ .assets ∨ delta.isModerate = true)
include h hm

theorem answered_newItem : (newItem story place delta).Answered := by
  unfold newItem
  split
  · rename_i kind hkind
    refine answered_fit (hm.imp (fun hroot => Place.elsewhere_itemKind? h.apart hroot hkind) ?_)
    exact fun hm => (Bool.and_eq_true_iff.1 hm).1
  · simp

include hold

theorem answered_replacement : (replacement story place delta).Answered := by
  unfold replacement
  split
  · rw [hold, ok_bind]
    split
    · refine answered_fit (hm.imp (fun hroot => ?_) fun hm => (Bool.and_eq_true_iff.1 hm).1)
      exact (Value.within_entity.1 (Place.within_read h.apart hroot hold)).1
    · simp
  · simp

theorem answered_isSought {xs : List Value} (hxs : old = .list xs)
    {pattern : Option (String × Value)} (hp : pattern? delta = .ok pattern) :
    ∀ x ∈ xs, (isSought delta pattern x).Answered := by
  intro x hx
  have hwithin : place.root ≠ .assets → x.within Kind.elsewhere = true := fun hroot =>
    Value.within_list.1 (hxs ▸ Place.within_read h.apart hroot hold) x hx
  unfold isSought
  split
  · exact Value.answered_strictEqual (hm.imp hwithin fun hm => (Bool.and_eq_true_iff.1 hm).1)
  · rename_i key wanted
    split
    · rename_i v hv
      refine Value.answered_strictEqual (hm.imp (fun hroot => ?_) fun hm => ?_)
      · exact Value.within_itemField? (hwithin hroot) hv
      · unfold pattern? at hp
        split at hp
        · cases hp
        · rename_i pair hpattern
          obtain rfl : pair = (key, wanted) := by simpa using hp
          simpa [isModerate, hpattern] using (Bool.and_eq_true_iff.1 hm).2
        · cases hp
    · simp

theorem answered_removed : (removed story place delta).Answered := by
  refine .bind (answered_requireList hold) fun xs hxs => .bind ?_ fun pattern hpattern => ?_
  · unfold pattern?
    split <;> simp
  · obtain rfl := Except.ok.inj (hold.symm.trans (requireList_ok hxs))
    refine .bind (Value.failsOnly_findFrom 0 (answered_isSought h hold hm rfl hpattern)) ?_
    rintro (_ | i) - <;> exact failsOnly_ok _

theorem answered_appended : (appended story place delta).Answered :=
  .bind (answered_requireList hold) fun _ _ => .bind (answered_newItem h hm) fun _ _ =>
    failsOnly_ok _

variable (hs : ∀ s ∈ place.steps, s.isHeld = true)
include hs

/-- Setting is answered. -/
theorem answered_set (hd : delta.value.isDocument = true) :
    (writeOutcome story place delta.path (replacement story place delta)).2.Answered := by
  have hreplacement := answered_replacement h hold hm
  cases hv : replacement story place delta with
  | error fault =>
    rw [hv] at hreplacement
    exact answered_error.1 hreplacement
  | ok v =>
    refine Place.answered_write hs h hold delta.path ?_
    rcases replacement_ok hv with rfl | ⟨i, _, _, hlast, -⟩
    · exact .inr (hm.imp_right fun hm => ⟨hd, (Bool.and_eq_true_iff.1 hm).1⟩)
    · exact .inl ⟨i, hlast⟩

omit hm in
/-- Arithmetic is answered just if it comes to a number, and to one that fits a float if it is to be
a balance. -/
theorem answered_computed_iff (f : Number → Number → Option Number) :
    (writeOutcome story place delta.path (computed story place delta f)).2.Answered ↔
      ∀ a b, requireNumbers story place delta = .ok (a, b) →
        ∃ n, f a b = some n ∧ (place.IsBalance story → n.fits = true) := by
  have hanswered : (requireNumbers story place delta).Answered := by
    unfold requireNumbers
    rw [hold, ok_bind]
    split <;> simp
  unfold computed
  cases hnumbers : requireNumbers story place delta with
  | error fault =>
    refine iff_of_true ?_ (by simp)
    rw [hnumbers] at hanswered
    simpa [bind, Except.bind, writeOutcome] using hanswered
  | ok pair =>
    obtain ⟨a, b⟩ := pair
    have hread := read_of_requireNumbers hnumbers
    rw [ok_bind]
    cases hn : f a b with
    | none =>
      have hcomputed : ¬(writeOutcome story place delta.path
          (Outcome.ofSize (f a b) >>= fun n => pure (.number n))).2.Answered := by
        simp [hn, Outcome.ofSize, bind, Except.bind, writeOutcome]
      refine iff_of_false hcomputed fun hall => ?_
      obtain ⟨n, hsome, -⟩ := hall a b rfl
      cases hn.symm.trans hsome
    | some n =>
      simp only [hn, Outcome.ofSize, ok_bind]
      rw [show writeOutcome story place delta.path (pure (Value.number n)) =
        place.write story delta.path (.number n) from rfl]
      rw [Place.answered_write_number hs h hread]
      simp [hn]

/-- A path delta is answered at its place, if it is no arithmetic that meets a number too large. -/
theorem answered_amend_iff (hd : delta.value.isDocument = true) (hop : delta.op ≠ .transfer) :
    (amend story place delta).2.Answered ↔
      ∀ f, arithmetic? delta.op = some f → ∀ a b, requireNumbers story place delta = .ok (a, b) →
        ∃ n, f a b = some n ∧ (place.IsBalance story → n.fits = true) := by
  have hput : ∀ xs : Outcome (List Value), xs.Answered →
      (putOutcome story place xs).2.Answered := by
    rintro (fault | xs) hxs
    · exact answered_error.1 hxs
    · exact failsOnly_ok _
  unfold amend
  cases hcase : delta.op with
  | set => simpa [arithmetic?] using answered_set h hold hm hs hd
  | append => simpa [arithmetic?] using hput _ (answered_appended h hold hm)
  | remove => simpa [arithmetic?] using hput _ (answered_removed h hold hm)
  | transfer => exact absurd hcase hop
  | add | subtract | multiply =>
    simp only [arithmetic?, Option.some.injEq, forall_eq']
    exact answered_computed_iff h hold hs _

end Delta

/-! ### Path deltas and transfers -/

namespace Delta

variable {story : Story} {place : Place} {delta : Delta}

/-- The rehearsal of a path delta leaves unanswered just what would be unanswered in earnest. -/
theorem answered_amendPath_iff (h : story.Sound)
    (hplace : Place.resolve story delta.path = .ok place)
    (hs : ∀ s ∈ place.steps, s.isHeld = true) :
    (amendPath story delta).2.Answered ↔ (amend story place delta).2.Answered := by
  by_cases hroot : place.root = .assets
  · rw [amendPath, hplace]
    simp only [rehearse_eq hplace hroot]
    have hassets : (amend story place delta).1.assets.IsAssets :=
      isAssets_amend hroot (Place.not_own_of_isHeld hs) h.entries
    obtain ⟨flaw, hflaw⟩ := Ledger.flaw?_of_isAssets hassets
    cases hamend : (amend story place delta).2 with
    | error fault => rfl
    | ok u =>
      rw [ok_bind, hflaw, ok_bind]
      cases flaw with
      | none =>
        simp only [hamend, pure, Except.pure]
      | some flaw => simp [refuse]
  · rw [amendPath_of_ne hplace hroot]

theorem answered_checkTransfer_iff (h : story.Sound) : (checkTransfer story delta).Answered ↔
    ∀ source target amount, parties? delta = some (source, target, amount) →
      amount.fits = true := by
  unfold checkTransfer
  cases hparties : parties? delta with
  | none => simp
  | some parties =>
    obtain ⟨source, target, amount⟩ := parties
    cases hfinite : amount.finite? with
    | none =>
      refine iff_of_false (by simp [hfinite, Outcome.ofSize, bind, Except.bind]) fun hall => ?_
      exact Number.fits_iff.1 (hall _ _ _ rfl) hfinite
    | some finite =>
      have hfits : amount.fits = true := Number.fits_iff.2 (by simp [hfinite])
      refine iff_of_true ?_ fun _ _ _ heq => ?_
      · simp only [hfinite, Outcome.ofSize, ok_bind]
        split
        · simp
        · rw [entryOf_eq h, ok_bind]
          split
          · simp
          · rename_i position hposition
            obtain ⟨hlt, -⟩ := List.findIdx?_eq_some_iff_getElem.1 hposition
            rw [balanceAt_eq h (List.getElem?_eq_getElem hlt), ok_bind]
            split <;> simp
      · cases heq
        exact hfits

/-- A transfer is answered just if its amount fits a float and it is creditable. -/
theorem answered_transfer_iff (h : story.Sound) : (transfer story delta).2.Answered ↔
    (∀ source target amount, parties? delta = some (source, target, amount) →
      amount.fits = true) ∧ Creditable story delta := by
  rw [← answered_checkTransfer_iff h]
  have heffect := transfer_effect h delta
  generalize transfer story delta = r at heffect ⊢
  cases heffect with
  | refused fault hc =>
    have hcredit : Creditable story delta := fun r hr => nomatch hc.symm.trans hr
    rw [hc, and_iff_left hcredit]
    exact answered_error
  | made t n after hc hn hb htakes hcredited hnotes =>
    rw [hc]
    have hcredit := (creditable_iff h t hc hn).2 ⟨hnotes, htakes⟩
    exact iff_of_true (failsOnly_ok _) ⟨failsOnly_ok _, hcredit⟩
  | unpaid t fault hc hsevere hnotes =>
    obtain ⟨n, hn, -⟩ := t.debit h
    refine iff_of_false (fun hanswered => ?_) fun hcredit => ?_
    · obtain ⟨code, message, hfault⟩ := failsOnly_error.1 hanswered
      exact hsevere code message hfault
    · simp [((creditable_iff h t hc hn).1 hcredit.2).1] at hnotes
  | broken t n fault hc hn hb htakes hsevere =>
    refine iff_of_false (fun hanswered => ?_) fun hcredit => ?_
    · obtain ⟨code, message, hfault⟩ := failsOnly_error.1 hanswered
      exact hsevere code message hfault
    · exact htakes ((creditable_iff h t hc hn).1 hcredit.2).2

/-! ### Batches -/

/-- Whether a delta meets no number that is too large: its path is legible; arithmetic comes to a
number, and to one that fits a float if it is to be a balance; the amount of a transfer fits a
float, and its destination can take it. -/
structure Manageable (story : Story) (delta : Delta) : Prop where
  legible : delta.op ≠ .transfer → Place.legible delta.path = true
  arithmetic : ∀ f place, arithmetic? delta.op = some f →
    Place.resolve story delta.path = .ok place →
      ∀ a b, requireNumbers story place delta = .ok (a, b) →
        ∃ n, f a b = some n ∧ (place.IsBalance story → n.fits = true)
  amount : delta.op = .transfer → ∀ source target amount,
    parties? delta = some (source, target, amount) → amount.fits = true
  creditable : delta.op = .transfer → Creditable story delta

/-- A delta is answered just if it is manageable. -/
theorem answered_perform_iff (h : story.Standing) (hd : delta.value.isDocument = true)
    (hm : delta.onAssets = true → delta.isModerate = true) (hu : Unshadowed story delta) :
    (perform story delta).2.Answered ↔ Manageable story delta := by
  by_cases hop : delta.op = .transfer
  · rw [perform_transfer hop, answered_transfer_iff h.sound]
    constructor
    · rintro ⟨hamount, hcredit⟩
      exact ⟨fun hne => absurd hop hne, fun f place hf => by simp [hop, arithmetic?] at hf,
        fun _ => hamount, fun _ => hcredit⟩
    · exact fun hmanageable => ⟨hmanageable.amount hop, hmanageable.creditable hop⟩
  rw [perform_path hop]
  have hlegible := Place.answered_resolve_iff h.stands (hu hop)
  cases hplace : Place.resolve story delta.path with
  | error fault =>
    rw [hplace] at hlegible
    rw [amendPath, hplace]
    constructor
    · intro hanswered
      refine ⟨fun _ => hlegible.1 (answered_error.1 hanswered), fun _ place _ hok => ?_,
        fun ht => absurd ht hop, fun ht => absurd ht hop⟩
      cases hplace.symm.trans hok
    · intro hmanageable
      exact answered_error.1 (hlegible.2 (hmanageable.legible hop))
  | ok place =>
    rw [hplace] at hlegible
    have hs := Place.isHeld_of_resolve (hu hop) hplace
    obtain ⟨old, hold⟩ := Place.read_of_stands h.stands hplace hs
    have hroot : place.root ≠ .assets ∨ delta.isModerate = true := by
      by_cases hroot : place.root = .assets
      · refine .inr (hm ?_)
        obtain ⟨parts, -, hsplit, -⟩ := Place.resolve_ok.1 hplace
        rw [onAssets, hsplit, hroot]
        rfl
      · exact .inl hroot
    rw [answered_amendPath_iff h.sound hplace hs, answered_amend_iff h hold hroot hs hd hop]
    constructor
    · intro harith
      refine ⟨fun _ => hlegible.1 (failsOnly_ok _), fun f place' hf hplace' => ?_,
        fun ht => absurd ht hop, fun ht => absurd ht hop⟩
      obtain rfl := Except.ok.inj (hplace.symm.trans hplace')
      exact harith f hf
    · exact fun hmanageable f hf => hmanageable.arithmetic f place hf hplace

/-- A delta comes to a result just if it is answered. -/
theorem apply_ok_iff {tag : Tag} :
    (∃ r, (apply story delta tag).outcome = .ok r) ↔ (perform story delta).2.Answered := by
  constructor
  · rintro ⟨r, hr⟩
    rcases perform_of_apply hr with ⟨-, hp⟩ | ⟨code, message, -, hp⟩
    · rw [hp]
      exact failsOnly_ok _
    · rw [hp]
      exact failsOnly_error.2 ⟨code, message, rfl⟩
  · intro hanswered
    rcases hp : perform story delta with ⟨after, fault | u⟩
    · rw [hp] at hanswered
      obtain ⟨code, message, rfl⟩ := failsOnly_error.1 hanswered
      exact ⟨.rejected code message, by simp only [apply, hp]⟩
    · exact ⟨_, by rw [apply_of_ok tag hp]⟩

/-- A batch comes to a result just if each delta is answered in its turn. -/
theorem applyEach_ok_iff {tag : Tag} : ∀ {story : Story} {deltas : List Delta},
    (∃ r, (applyEach story tag deltas).outcome = .ok r) ↔
      InTurn (fun s d => (perform s d).2.Answered) story deltas
  | story, [] => iff_of_true ⟨_, rfl⟩ trivial
  | story, delta :: rest => by
    have ih := @applyEach_ok_iff tag (perform story delta).1 rest
    rw [InTurn, ← @apply_ok_iff story delta tag, ← ih, ← apply_story story delta tag]
    cases hone : (apply story delta tag).outcome with
    | error fault => simp [applyEach, hone]
    | ok result => simp [applyEach, hone, Outcome.map_ok]

/-- A batch on a story that was read, of deltas with documents for values that go through what the
story holds, accounts for each of its deltas, in their order, just if each is manageable in its
turn. What is set, appended or removed in the assets is taken to have no number too large for a
float. -/
theorem applyAll_accounts_iff {document : Value} {deltas : List Delta} {tag : Tag}
    (hdocument : document.isDocument = true) (hread : Story.read document = .ok story)
    (hd : ∀ d ∈ deltas, d.value.isDocument = true)
    (hm : ∀ d ∈ deltas, d.onAssets = true → d.isModerate = true)
    (hu : InTurn Unshadowed story deltas) :
    (∃ r, (applyAll story deltas tag).outcome = .ok r ∧
      SplitInOrder deltas (r.applied.map Committed.delta) (r.failed.map DeltaFailure.delta)) ↔
        InTurn Manageable story deltas := by
  have hgiven : ∀ d ∈ deltas, d.value.isDocument = true ∧
      (d.onAssets = true → d.isModerate = true) := fun d hmem => ⟨hd d hmem, hm d hmem⟩
  have hiff : InTurn (fun s d => (perform s d).2.Answered) story deltas ↔
      InTurn Manageable story deltas :=
    inTurn_congr (fun _ _ h hd hu => standing_perform h hd.1 hu)
      (fun _ _ h hd hu => answered_perform_iff h hd.1 hd.2 hu)
      (Story.standing_of_read hdocument hread) hgiven hu
  rw [← hiff, ← @applyEach_ok_iff tag, applyAll_outcome]
  refine ⟨fun ⟨r, hr, _⟩ => ⟨r, hr⟩, fun ⟨r, hr⟩ => ⟨r, hr, ?_⟩⟩
  exact applyEach_split (Story.standing_of_read hdocument hread).apart
    (fun d hmem => Value.isPlain_of_isDocument _ (hd d hmem)) hr

/-- The document of a story with a tension, and a ledger with one entry. -/
def tenseDocument (tension : Int) : Value :=
  .mapping [("world", .mapping [("global", .mapping [("tension", .int tension)])]),
    ("assets", .mapping [("cash_ledger", .list [
      .mapping [("holder", .text "a"), ("denarii", .int 5)]])])]

/-- A delta that adds a half to the tension of the world. -/
def tightening : Delta :=
  ⟨.add, "world.global.tension", .float 0.5, none, none, none, none⟩

/-- A tightening, a balance below zero and a balance. -/
def mixedBatch : List Delta :=
  [tightening, settingDelta "denarii" (-1), settingDelta "denarii" 7]

/-- Of a batch whose second delta is refused, each delta is manageable in its turn. -/
theorem applyAll_accounts_three : ∃ story r, Story.read (tenseDocument 1) = .ok story ∧
    (applyAll story mixedBatch ⟨none, none⟩).outcome = .ok r ∧ r.failed.length = 1 ∧
      InTurn Manageable story mixedBatch := by
  obtain ⟨story, hread, hcount, hu⟩ := Story.exists_read (tenseDocument 1) (fun story =>
    (applyAll story mixedBatch ⟨none, none⟩).outcome.toOption.map (·.failed.length) = some 1 ∧
      InTurn Unshadowed story mixedBatch) (by decide +kernel)
  obtain ⟨r, hr, hfailed⟩ := Option.map_eq_some_iff.1 hcount
  have hout := Outcome.toOption_eq_some.1 hr
  have hdocument : (tenseDocument 1).isDocument = true := by decide +kernel
  have hd : ∀ d ∈ mixedBatch, d.value.isDocument = true := by decide +kernel
  have hsplit := applyEach_split (Story.standing_of_read hdocument hread).apart
    (fun d hmem => Value.isPlain_of_isDocument _ (hd d hmem))
    ((applyAll_outcome story mixedBatch _).symm.trans hout)
  exact ⟨story, r, hread, hout, hfailed,
    (applyAll_accounts_iff hdocument hread hd (by decide +kernel) hu).1 ⟨r, hout, hsplit⟩⟩

/-- A half cannot be added to a whole number that is too large for a float: the batch breaks off. -/
theorem applyAll_breaks_off : ∃ story, Story.read (tenseDocument (10 ^ 400)) = .ok story ∧
    ¬∃ r, (applyAll story [tightening] ⟨none, none⟩).outcome = .ok r := by
  obtain ⟨story, hread, hnone⟩ := Story.exists_read (tenseDocument (10 ^ 400)) (fun story =>
    (applyAll story [tightening] ⟨none, none⟩).outcome.toOption.isSome = false) (by decide +kernel)
  refine ⟨story, hread, fun ⟨r, hr⟩ => ?_⟩
  rw [hr] at hnone
  cases hnone

end Delta

end StoryWorld
