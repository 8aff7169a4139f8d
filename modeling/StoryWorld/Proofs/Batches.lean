import StoryWorld.Proofs.Refusals
import StoryWorld.Proofs.Setting

/-!
Batches of deltas, in which one that is refused counts for nothing.

A refused delta leaves the story as it was, so the deltas after it meet the story that they would
have met without it. By induction over the batch, the deltas that were applied are applied again if
they are all that there is, and lead to the same story; and leaving out a delta that was refused
changes neither the story nor what comes of any other delta.

This is about deltas with nothing in common, each read from a document of its own: a list that two
of them share would be one list in the story. What is applied again is what the records of the batch
have copies of. A record copies the value of its delta so many levels deep; what nests deeper it
shares with the story, and would change with it.
-/

namespace StoryWorld

/-- A list is split into two in order: each item goes to one of them. -/
inductive SplitInOrder {α : Type} : List α → List α → List α → Prop
  | nil : SplitInOrder [] [] []
  | left {xs ys zs : List α} (x : α) (h : SplitInOrder xs ys zs) :
    SplitInOrder (x :: xs) (x :: ys) zs
  | right {xs ys zs : List α} (x : α) (h : SplitInOrder xs ys zs) :
    SplitInOrder (x :: xs) ys (x :: zs)

/-- What is split off to the left stands in the list in the same order. -/
theorem SplitInOrder.sublist {α : Type} {xs ys zs : List α} (h : SplitInOrder xs ys zs) :
    ys.Sublist xs := by
  induction h with
  | nil => exact .slnil
  | left x _ ih => exact ih.cons_cons x
  | right x _ ih => exact ih.cons x

namespace Delta

variable {story : Story} {delta : Delta} {tag : Tag} {code : Code} {message : String}

/-! ### One delta of a batch -/

/-- A refused delta leaves a story as it was. -/
theorem perform_refused (h : story.Apart)
    (hr : (perform story delta).2 = .error (.refused code message)) :
    (perform story delta).1 = story := by
  unfold perform at hr ⊢
  split at hr
  · have hcheck := transfer_refused_iff.1 hr
    simp only [transfer, hcheck]
  · rcases amendPath_cases story delta with ⟨_, heq⟩ | ⟨place, -, heq, hassets⟩
    · rw [heq]
    · rw [heq] at hr ⊢
      by_cases hroot : place.root = .assets
      · rw [(hassets hroot).1] at hr
        cases hr
      · exact amend_refused h hroot hr

theorem apart_apply (h : story.Apart) (hd : delta.value.isPlain = true) :
    (apply story delta tag).story.Apart := by
  rw [apply_story]
  exact apart_perform hd h

/-- A batch goes on from an applied delta with the story that it led to. -/
theorem applyEach_applied {c : Committed}
    (ha : (apply story delta tag).outcome = .ok (.applied c)) (rest : List Delta) :
    (applyEach story tag (delta :: rest)).story =
        (applyEach (apply story delta tag).story tag rest).story ∧
      (applyEach story tag (delta :: rest)).outcome =
        (applyEach (apply story delta tag).story tag rest).outcome.map
          fun r => ⟨c :: r.applied, r.failed⟩ := by
  constructor <;> simp only [applyEach, ha]

/-- A batch goes on from a refused delta as if it had not been there. -/
theorem applyEach_rejected (h : story.Apart)
    (hr : (apply story delta tag).outcome = .ok (.rejected code message)) (rest : List Delta) :
    (applyEach story tag (delta :: rest)).story = (applyEach story tag rest).story ∧
      (applyEach story tag (delta :: rest)).outcome =
        (applyEach story tag rest).outcome.map
          fun r => ⟨r.applied, ⟨delta, code, message⟩ :: r.failed⟩ := by
  have hsame : (apply story delta tag).story = story := by
    rw [apply_story]
    exact perform_refused h (apply_refused_iff.1 hr)
  constructor <;> simp only [applyEach, hr, hsame]

/-- How a batch that returns begins: its first delta is applied or refused, and the rest returns. -/
theorem applyEach_cons (h : story.Apart) {rest : List Delta} {r : BatchResult}
    (hr : (applyEach story tag (delta :: rest)).outcome = .ok r) :
    (∃ s, (apply story delta tag).outcome = .ok (.applied ⟨delta, tag⟩) ∧
      (applyEach (apply story delta tag).story tag rest).outcome = .ok s ∧
        r = ⟨⟨delta, tag⟩ :: s.applied, s.failed⟩) ∨
    ∃ code message s, (apply story delta tag).outcome = .ok (.rejected code message) ∧
      (applyEach story tag rest).outcome = .ok s ∧
        r = ⟨s.applied, ⟨delta, code, message⟩ :: s.failed⟩ := by
  cases hone : (apply story delta tag).outcome with
  | error fault => simp [applyEach, hone] at hr
  | ok result =>
    rcases perform_of_apply hone with ⟨rfl, -⟩ | ⟨code, message, rfl, -⟩
    · rw [(applyEach_applied hone rest).2] at hr
      obtain ⟨s, hs, rfl⟩ := Outcome.map_ok.1 hr
      exact .inl ⟨s, rfl, hs, rfl⟩
    · rw [(applyEach_rejected h hone rest).2] at hr
      obtain ⟨s, hs, rfl⟩ := Outcome.map_ok.1 hr
      exact .inr ⟨code, message, s, rfl, hs, rfl⟩

/-! ### The whole batch -/

variable {deltas : List Delta} {r : BatchResult}

/-- A batch that returns is split into what was applied and what was refused. -/
theorem applyEach_split (h : story.Apart) (hd : ∀ d ∈ deltas, d.value.isPlain = true)
    (hr : (applyEach story tag deltas).outcome = .ok r) :
    SplitInOrder deltas (r.applied.map Committed.delta) (r.failed.map DeltaFailure.delta) := by
  induction deltas generalizing story r with
  | nil =>
    obtain rfl : ⟨[], []⟩ = r := by simpa [applyEach] using hr
    exact .nil
  | cons delta rest ih =>
    rw [List.forall_mem_cons] at hd
    rcases applyEach_cons h hr with ⟨s, ha, hs, rfl⟩ | ⟨code, message, s, ha, hs, rfl⟩
    · exact .left delta (ih (apart_apply h hd.1) hd.2 hs)
    · exact .right delta (ih h hd.2 hs)

/-- What a batch applied is applied again without the rest of it, and leads to the same story. -/
theorem applyEach_applied_again (h : story.Apart) (hd : ∀ d ∈ deltas, d.value.isPlain = true)
    (hr : (applyEach story tag deltas).outcome = .ok r) :
    (applyEach story tag (r.applied.map Committed.delta)).outcome = .ok ⟨r.applied, []⟩ ∧
      (applyEach story tag (r.applied.map Committed.delta)).story =
        (applyEach story tag deltas).story := by
  induction deltas generalizing story r with
  | nil =>
    obtain rfl : ⟨[], []⟩ = r := by simpa [applyEach] using hr
    exact ⟨rfl, rfl⟩
  | cons delta rest ih =>
    rw [List.forall_mem_cons] at hd
    rcases applyEach_cons h hr with ⟨s, ha, hs, rfl⟩ | ⟨code, message, s, ha, hs, rfl⟩
    · obtain ⟨hout, hstory⟩ := ih (apart_apply h hd.1) hd.2 hs
      obtain ⟨hstory', hout'⟩ := applyEach_applied ha (s.applied.map Committed.delta)
      rw [List.map_cons, hout', hstory', hout, hstory, (applyEach_applied ha rest).1]
      exact ⟨rfl, rfl⟩
    · obtain ⟨hout, hstory⟩ := ih h hd.2 hs
      rw [(applyEach_rejected h ha rest).1]
      exact ⟨hout, hstory⟩

/-- Without a delta that was refused, a batch leads to the same story, and the same comes of every
other delta. -/
theorem applyEach_without (h : story.Apart) (hd : ∀ d ∈ deltas, d.value.isPlain = true)
    (hr : (applyEach story tag deltas).outcome = .ok r) {earlier later : List DeltaFailure}
    {f : DeltaFailure} (hf : r.failed = earlier ++ f :: later) :
    ∃ before after, deltas = before ++ f.delta :: after ∧
      (applyEach story tag (before ++ after)).outcome = .ok ⟨r.applied, earlier ++ later⟩ ∧
        (applyEach story tag (before ++ after)).story = (applyEach story tag deltas).story := by
  induction deltas generalizing story r earlier with
  | nil =>
    obtain rfl : ⟨[], []⟩ = r := by simpa [applyEach] using hr
    simp at hf
  | cons delta rest ih =>
    rw [List.forall_mem_cons] at hd
    rcases applyEach_cons h hr with ⟨s, ha, hs, rfl⟩ | ⟨code, message, s, ha, hs, rfl⟩
    · obtain ⟨before, after, rfl, hout, hstory⟩ := ih (apart_apply h hd.1) hd.2 hs hf
      obtain ⟨hstory', hout'⟩ := applyEach_applied ha (before ++ after)
      refine ⟨delta :: before, after, rfl, ?_, ?_⟩
      · rw [List.cons_append, hout', hout]
        rfl
      · rw [List.cons_append, hstory', hstory, (applyEach_applied ha _).1]
    · rcases List.append_eq_cons_iff.1 hf.symm with ⟨rfl, hcons⟩ | ⟨earlier', rfl, hs'⟩
      · obtain ⟨rfl, rfl⟩ := List.cons_eq_cons.1 hcons
        exact ⟨[], rest, rfl, hs, (applyEach_rejected h ha rest).1.symm⟩
      · obtain ⟨before, after, rfl, hout, hstory⟩ := ih h hd.2 hs hs'
        obtain ⟨hstory', hout'⟩ := applyEach_rejected h ha (before ++ after)
        refine ⟨delta :: before, after, rfl, ?_, ?_⟩
        · rw [List.cons_append, hout', hout]
          rfl
        · rw [List.cons_append, hstory', hstory, (applyEach_rejected h ha _).1]

theorem applyAll_outcome (story : Story) (deltas : List Delta) (tag : Tag) :
    (applyAll story deltas tag).outcome = (applyEach story tag deltas).outcome := by
  unfold applyAll
  simp only
  split
  · exact (by assumption : _ = _).symm
  · rfl

/-- The value of a delta that a document gave has no entities in it. -/
theorem isPlain_of_read {document : Value} (hd : document.isDocument = true)
    (h : read document = .ok delta) : delta.value.isPlain = true := by
  obtain ⟨w, hw, rfl⟩ := Outcome.map_ok.1 h
  exact Schema.within_field (Verdict.outcome_ok.1 hw) (Value.isPlain_of_isDocument document hd)
    rfl rfl rfl

/-- Each of the deltas that documents gave was read from one of them. -/
theorem read_of_readAll : ∀ {documents : List Value} {deltas : List Delta},
    readAll documents = .ok deltas → ∀ d ∈ deltas, ∃ document ∈ documents, read document = .ok d
  | [], deltas, h => by
    obtain rfl : [] = deltas := by simpa [readAll] using h
    simp
  | document :: rest, deltas, h => by
    obtain ⟨delta, hdelta, h⟩ := Outcome.bind_ok.1 h
    obtain ⟨more, hmore, h⟩ := Outcome.bind_ok.1 h
    obtain rfl := Outcome.pure_ok.1 h
    refine List.forall_mem_cons.2 ⟨⟨document, List.mem_cons_self, hdelta⟩, fun d hd => ?_⟩
    obtain ⟨other, hother, hd⟩ := read_of_readAll hmore d hd
    exact ⟨other, List.mem_cons_of_mem _ hother, hd⟩

end Delta

namespace Committed

/-- How deep the value of a delta is copied for its record. -/
def copiedLevels : Nat := 255

/-- The delta that a record has a copy of, if nothing in it is shared with the story. -/
def copy? (c : Committed) : Option Delta :=
  if c.delta.value.nesting ≤ copiedLevels then some c.delta else none

/-- Records of deltas that nest no deeper have copies of them. -/
theorem map_copy? {cs : List Committed}
    (h : ∀ c ∈ cs, c.delta.value.nesting ≤ copiedLevels) :
    cs.map copy? = (cs.map Committed.delta).map some := by
  rw [List.map_map]
  exact List.map_congr_left fun c hc => if_pos (h c hc)

end Committed

namespace Delta

variable {documents : List Value}

/-- The document of a delta that sets the balance of the one holder. -/
def balanceDocument (n : Int) : Value :=
  .mapping [("op", .text "set"), ("path", .text "assets.cash_ledger[0].denarii"), ("value", .int n)]

end Delta

end StoryWorld
