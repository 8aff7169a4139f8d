import StoryWorld.Decay
import StoryWorld.Operator.Apply
import StoryWorld.Proofs.Transfer

/-!
The cash ledger over whole runs.

A run is any sequence of calls on a story: single deltas, batches, operators and the ends of
episodes, each going on from what the one before left, whether that one succeeded, was refused or
broke off. The ledger that a document gave stays sound throughout, as long as no path into the
assets passes the guards of an entity. Through the name that reaches an entity as a whole any
balance can be written.
-/

namespace StoryWorld

/-- A call that can change a story. -/
inductive Call where
  | apply (delta : Delta) (tag : Tag)
  | applyAll (deltas : List Delta) (tag : Tag)
  | operator (op : Operator) (bindings : Bindings) (tag : Tag)
  | decay (episode : Option Int)

namespace Call

/-- The story after a call, whatever came of the call. -/
def run (story : Story) : Call → Story
  | apply delta tag => (Delta.apply story delta tag).story
  | applyAll deltas tag => (Delta.applyAll story deltas tag).story
  | operator op bindings tag => (Operator.apply story op bindings tag).story
  | decay episode => (Decay.apply story episode).story

/-- The deltas that a call may make, as they are made. -/
def deltas : Call → List Delta
  | apply delta _ => [delta]
  | applyAll deltas _ => deltas
  | operator op bindings _ => op.effects.map (Operator.bindEffect bindings)
  | decay _ => []

end Call

/-- The story after a sequence of calls. -/
def Story.after (story : Story) (calls : List Call) : Story := calls.foldl Call.run story

/-! ### Invariants of a run -/

namespace Delta

theorem apply_story (story : Story) (delta : Delta) (tag : Tag) :
    (apply story delta tag).story = (perform story delta).1 := by
  unfold apply
  split <;> simp_all

theorem apply_of_ok {story after : Story} {delta : Delta} (tag : Tag)
    (h : perform story delta = (after, .ok ())) :
    apply story delta tag = ⟨after, [appliedLine delta tag], .ok (.applied ⟨delta, tag⟩)⟩ := by
  simp only [apply, h]

/-- A delta that fails is not reported applied. -/
theorem apply_of_error {story after : Story} {delta : Delta} {fault : Fault} (tag : Tag)
    (h : perform story delta = (after, .error fault)) :
    (apply story delta tag).story = after ∧
      ∀ c, (apply story delta tag).outcome ≠ .ok (.applied c) := by
  rw [apply_story, h]
  refine ⟨rfl, fun c => ?_⟩
  rw [apply, h]
  cases fault <;> simp

/-- A failure that is no refusal is passed on. -/
theorem apply_of_severe {story after : Story} {delta : Delta} {fault : Fault} (tag : Tag)
    (hf : ∀ code message, fault ≠ .refused code message)
    (h : perform story delta = (after, .error fault)) :
    apply story delta tag = ⟨after, [], .error fault⟩ := by
  cases fault with
  | refused code message => exact absurd rfl (hf code message)
  | _ => simp only [apply, h]

/-- What a call that returns says about the delta: it was made, or it was refused. -/
theorem perform_of_apply {story : Story} {delta : Delta} {tag : Tag} {r : DeltaResult}
    (hr : (apply story delta tag).outcome = .ok r) :
    (r = .applied ⟨delta, tag⟩ ∧ perform story delta = ((apply story delta tag).story, .ok ())) ∨
    ∃ code message, r = .rejected code message ∧
      (perform story delta).2 = .error (.refused code message) := by
  rw [apply_story]
  unfold apply at hr
  split at hr
  · rename_i after hp
    rw [hp]
    exact .inl ⟨by simpa using hr.symm, rfl⟩
  · rename_i after code message hp
    rw [hp]
    exact .inr ⟨code, message, by simpa using hr.symm, rfl⟩
  · cases hr

theorem perform_transfer {delta : Delta} (h : delta.op = .transfer) (story : Story) :
    perform story delta = transfer story delta := by
  unfold perform
  split
  · rfl
  · exact absurd h ‹_›

theorem perform_path {delta : Delta} (h : delta.op ≠ .transfer) (story : Story) :
    perform story delta = amendPath story delta := by
  unfold perform
  split
  · exact absurd ‹_› h
  · rfl

/-- Whether each delta of a batch has a property on the story that it meets. -/
def InTurn (P : Story → Delta → Prop) : Story → List Delta → Prop
  | _, [] => True
  | story, delta :: rest => P story delta ∧ InTurn P (perform story delta).1 rest

instance {P : Story → Delta → Prop} [∀ s d, Decidable (P s d)] :
    ∀ (story : Story) (deltas : List Delta), Decidable (InTurn P story deltas)
  | _, [] => isTrue trivial
  | story, delta :: rest =>
    have := instDecidableInTurn (P := P) (perform story delta).1 rest
    inferInstanceAs (Decidable (P story delta ∧ _))

/-- What is the same for stories with an invariant is the same in turn, if deltas keep it. -/
theorem inTurn_congr {P Q ok : Story → Delta → Prop} {inv : Story → Prop} {given : Delta → Prop}
    (hstep : ∀ s d, inv s → given d → ok s d → inv (perform s d).1)
    (hiff : ∀ s d, inv s → given d → ok s d → (P s d ↔ Q s d)) :
    ∀ {story : Story} {deltas : List Delta}, inv story → (∀ d ∈ deltas, given d) →
      InTurn ok story deltas → (InTurn P story deltas ↔ InTurn Q story deltas)
  | _, [], _, _, _ => Iff.rfl
  | story, delta :: _, h, hd, hok => by
    rw [List.forall_mem_cons] at hd
    exact and_congr (hiff story delta h hd.1 hok.1)
      (inTurn_congr hstep hiff (hstep story delta h hd.1 hok.1) hd.2 hok.2)

/-- Properties that the deltas have in turn they have together. -/
theorem InTurn.and {P Q : Story → Delta → Prop} : ∀ {story : Story} {deltas : List Delta},
    InTurn P story deltas → InTurn Q story deltas → InTurn (fun s d => P s d ∧ Q s d) story deltas
  | _, [], _, _ => trivial
  | _, _ :: _, hP, hQ => ⟨⟨hP.1, hQ.1⟩, hP.2.and hQ.2⟩

theorem inTurn_true : ∀ (story : Story) (deltas : List Delta),
    InTurn (fun _ _ => True) story deltas
  | _, [] => trivial
  | story, delta :: rest => ⟨trivial, inTurn_true (perform story delta).1 rest⟩

/-- What single deltas keep on the stories that they meet, a batch keeps. -/
theorem applyEach_keeps_inTurn {inv : Story → Prop} {given : Delta → Prop}
    {ok : Story → Delta → Prop} {tag : Tag}
    (hstep : ∀ s d, inv s → given d → ok s d → inv (perform s d).1) :
    ∀ {story : Story} {deltas : List Delta}, inv story → (∀ d ∈ deltas, given d) →
      InTurn ok story deltas → inv (applyEach story tag deltas).story
  | story, [], h, _, _ => h
  | story, delta :: rest, h, hd, hok => by
    rw [List.forall_mem_cons] at hd
    have hone : inv (perform story delta).1 := hstep story delta h hd.1 hok.1
    rw [← apply_story story delta tag] at hone
    simp only [applyEach]
    split
    · exact hone
    · refine applyEach_keeps_inTurn hstep hone hd.2 ?_
      rw [apply_story]
      exact hok.2

/-- What single deltas keep, a batch keeps. -/
theorem applyEach_keeps {inv : Story → Prop} {ok : Delta → Prop} {tag : Tag}
    (hstep : ∀ s d, ok d → inv s → inv (perform s d).1) {story : Story} {deltas : List Delta}
    (hd : ∀ d ∈ deltas, ok d) (h : inv story) : inv (applyEach story tag deltas).story :=
  applyEach_keeps_inTurn (fun s d hs hok _ => hstep s d hok hs) h hd (inTurn_true story deltas)

theorem applyAll_story (story : Story) (deltas : List Delta) (tag : Tag) :
    (applyAll story deltas tag).story = (applyEach story tag deltas).story := by
  unfold applyAll
  simp only
  split <;> rfl

end Delta

namespace Operator

/-- An operator leaves a story as it is, or as its effects in a batch leave it. -/
theorem apply_story (story : Story) (op : Operator) (bindings : Bindings) (tag : Tag) :
    (apply story op bindings tag).story = story ∨
      (apply story op bindings tag).story =
        (Delta.applyEach story (effectTag op tag) (op.effects.map (bindEffect bindings))).story := by
  have heffects : ∀ results, (applyEffects story op bindings tag results).story =
      (Delta.applyEach story (effectTag op tag) (op.effects.map (bindEffect bindings))).story := by
    intro results
    rw [← Delta.applyAll_story]
    unfold applyEffects
    simp only
    split <;> rfl
  unfold apply
  split
  · exact .inl rfl
  · split
    · exact .inl rfl
    · split
      · exact .inr (heffects _)
      · exact .inl rfl

end Operator

/-- What single deltas and the end of an episode keep, every call keeps. -/
theorem Call.run_keeps {inv : Story → Prop} {ok : Delta → Prop}
    (hstep : ∀ s d, ok d → inv s → inv (Delta.perform s d).1)
    (hdecay : ∀ s episode, inv s → inv (Decay.apply s episode).story) {story : Story} {call : Call}
    (hd : ∀ d ∈ call.deltas, ok d) (h : inv story) : inv (call.run story) := by
  cases call with
  | apply delta tag =>
    rw [run, Delta.apply_story]
    exact hstep story delta (hd delta List.mem_cons_self) h
  | applyAll deltas tag =>
    rw [run, Delta.applyAll_story]
    exact Delta.applyEach_keeps hstep hd h
  | operator op bindings tag =>
    rw [run]
    rcases Operator.apply_story story op bindings tag with heq | heq
    · rw [heq]
      exact h
    · rw [heq]
      exact Delta.applyEach_keeps hstep hd h
  | decay episode => exact hdecay story episode h

/-- What single deltas and the end of an episode keep, a run keeps. -/
theorem Story.after_keeps {inv : Story → Prop} {ok : Delta → Prop}
    (hstep : ∀ s d, ok d → inv s → inv (Delta.perform s d).1)
    (hdecay : ∀ s episode, inv s → inv (Decay.apply s episode).story) :
    ∀ {story : Story} {calls : List Call}, (∀ call ∈ calls, ∀ d ∈ call.deltas, ok d) → inv story →
      inv (story.after calls)
  | story, [], _, h => h
  | story, call :: calls, hd, h => by
    have hone := Call.run_keeps hstep hdecay (hd call List.mem_cons_self) h
    show inv ((call.run story).after calls)
    exact after_keeps hstep hdecay (fun c hc => hd c (List.mem_cons_of_mem _ hc)) hone

/-! ### The ledger stays sound -/

/-- Whether a delta is guarded: it is a transfer, or its path passes no guards of the assets. -/
def Delta.Guarded (delta : Delta) : Prop :=
  delta.op = .transfer ∨ Place.passesGuards delta.path = false

instance (delta : Delta) : Decidable delta.Guarded := by
  unfold Delta.Guarded
  infer_instance

/-- A guarded delta keeps a story sound, whatever comes of it. -/
theorem Delta.sound_perform {story : Story} {delta : Delta} (hd : delta.Guarded)
    (h : story.Sound) : (perform story delta).1.Sound := by
  unfold perform
  split
  · exact sound_transfer h
  · rename_i hop
    exact sound_amendPath (hd.resolve_left hop) h

/-- The end of an episode leaves the ledger alone. -/
theorem Decay.sound_apply {story : Story} (episode : Option Int) (h : story.Sound) :
    (apply story episode).story.Sound := by
  have hassets : (apply story episode).story.assets = story.assets := by
    unfold apply
    simp only
    split <;> rfl
  refine ⟨by rw [hassets]; exact h.entries, ?_⟩
  rw [Story.holdings, Delta.ledger, hassets]
  exact h.unique

/-- Over every run of guarded deltas from a document, the cash ledger stays a list of entries, no
two of one holder, each with a finite balance not below zero. -/
theorem ledger_sound_after {document : Value} {story : Story}
    (hread : Story.read document = .ok story) {calls : List Call}
    (hd : ∀ call ∈ calls, ∀ delta ∈ call.deltas, delta.Guarded) : (story.after calls).Sound :=
  Story.after_keeps (fun _ _ hd h => Delta.sound_perform hd h)
    (fun _ episode h => Decay.sound_apply episode h) hd (Story.sound_of_read hread)

/-! ### Past the guards -/

/-- Whether a delta was reported applied. -/
def Run.isApplied (r : Run DeltaResult) : Bool :=
  match r.outcome with
  | .ok (.applied _) => true
  | _ => false

theorem Run.isApplied_iff {r : Run DeltaResult} :
    r.isApplied = true ↔ ∃ c, r.outcome = .ok (.applied c) := by
  unfold isApplied
  split <;> simp_all

theorem Run.isApplied_eq_false_iff {r : Run DeltaResult} :
    r.isApplied = false ↔ ∀ c, r.outcome ≠ .ok (.applied c) := by
  rw [← Bool.not_eq_true, isApplied_iff, not_exists]

/-- The document of a story whose only ledger entry has an extra field by the name that reaches an
entity as a whole. -/
def unguardedDocument : Value :=
  .mapping [("assets", .mapping [("cash_ledger", .list [.mapping [
    ("holder", .text "a"), ("denarii", .int 5), (Kind.ownName, .int 0)]])])]

/-- A delta that sets a number of the only entry of the ledger, reached by the given path. -/
def settingDelta (path : String) (n : Int) : Delta :=
  ⟨.set, "assets.cash_ledger[0]." ++ path, .int n, none, none, none, none⟩

/-- What is written past the guards of an entry need not be a balance. -/
theorem ledger_unsound_past_guards : ∃ story, Story.read unguardedDocument = .ok story ∧
    ¬(story.after [.apply (settingDelta "__dict__.denarii" (-5)) ⟨none, none⟩]).Sound := by
  obtain ⟨story, hread, hheld⟩ := Story.exists_read unguardedDocument (fun story =>
    (story.after [.apply (settingDelta "__dict__.denarii" (-5)) ⟨none, none⟩]).holdings =
      [⟨"a", .int (-5)⟩]) (by decide +kernel)
  refine ⟨story, hread, fun h => ?_⟩
  have hbalance : (Number.int (-5)).IsBalance :=
    h.isBalance (g := ⟨"a", .int (-5)⟩) (by rw [hheld]; exact List.mem_cons_self)
  revert hbalance
  decide +kernel

/-- A run that sets a balance by its field, then one that is refused. -/
theorem ledger_sound_after_two : ∃ story, Story.read unguardedDocument = .ok story ∧
    (story.after [.apply (settingDelta "denarii" 7) ⟨none, none⟩,
      .apply (settingDelta "denarii" (-7)) ⟨none, none⟩]).Sound := by
  obtain ⟨story, hread, -⟩ :=
    Story.exists_read unguardedDocument (fun _ => True) (by decide +kernel)
  exact ⟨story, hread, ledger_sound_after hread (by decide +kernel)⟩

end StoryWorld
