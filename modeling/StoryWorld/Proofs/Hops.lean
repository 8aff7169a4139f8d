import StoryWorld.Proofs.Ranks
import StoryWorld.Proofs.Views

/-!
What more hops do to a walk.

Ties that later hops reach are reported behind those of earlier ones: the report is sorted by the
hop first, and the sort is stable. This needs an order of the strengths, which there is if no weight
is the undefined number. So the report of fewer hops is the beginning of the report of more, and the
report of as many hops as there are ties is the report of any more.
-/

namespace StoryWorld

/-! ### Stable sorting -/

section Sorting

variable {α : Type} {le : α → α → Bool}
  (htrans : ∀ a b c, le a b = true → le b c = true → le a c = true)
  (htotal : ∀ a b, (le a b || le b a) = true)
include htrans htotal

/-- An item is sorted in before the first one that it is not behind. -/
theorem mergeSort_cons_eq (a : α) (xs : List α) : (a :: xs).mergeSort le =
    ((xs.mergeSort le).filter fun b => !le a b) ++ a :: (xs.mergeSort le).filter (le a) := by
  obtain ⟨l₁, l₂, hcons, htail, hbefore⟩ := List.mergeSort_cons htrans htotal a xs
  have hsorted := List.pairwise_mergeSort htrans htotal (a :: xs)
  rw [hcons, List.pairwise_append, List.pairwise_cons] at hsorted
  have hbehind : ∀ b ∈ l₂, le a b = true := hsorted.2.1.1
  have hfirst : (l₁ ++ l₂).filter (fun b => !le a b) = l₁ := by
    rw [List.filter_append, List.filter_eq_self.2 hbefore,
      List.filter_eq_nil_iff.2 fun b hb => by simp [hbehind b hb], List.append_nil]
  have hsecond : (l₁ ++ l₂).filter (le a) = l₂ := by
    rw [List.filter_append, List.filter_eq_self.2 hbehind,
      List.filter_eq_nil_iff.2 fun b hb => by simpa using hbefore b hb, List.nil_append]
  rw [hcons, htail, hfirst, hsecond]

/-- Where no item of a list comes behind one of another, the two are sorted one after the other. -/
theorem mergeSort_append {ys : List α} : ∀ {xs : List α},
    (∀ a ∈ xs, ∀ b ∈ ys, le a b = true) →
      (xs ++ ys).mergeSort le = xs.mergeSort le ++ ys.mergeSort le
  | [], _ => by simp
  | a :: xs, h => by
    rw [List.forall_mem_cons] at h
    have hys : ∀ b ∈ ys.mergeSort le, le a b = true := fun b hb =>
      h.1 b (List.mem_mergeSort.1 hb)
    have hnone : ((ys.mergeSort le).filter fun b => !le a b) = [] :=
      List.filter_eq_nil_iff.2 fun b hb => by simp [hys b hb]
    rw [List.cons_append, mergeSort_cons_eq htrans htotal, mergeSort_append h.2,
      mergeSort_cons_eq htrans htotal a xs, List.filter_append, List.filter_append,
      List.filter_eq_self.2 hys, hnone, List.append_nil, List.append_assoc, List.cons_append]

end Sorting

/-- The undefined number is not among the weights of the ties of a story. -/
def Story.Weighed (story : Story) : Prop :=
  ∀ tie ∈ story.ties, ∀ n ∈ (tie.field "weights").numbers, n.IsDefined

instance (story : Story) : Decidable story.Weighed := by
  unfold Story.Weighed
  infer_instance

namespace Walk

open Story

variable {story : Story}

/-! ### The order of a report -/

/-- Where a tie with its key stands in a report: by its hop, then by its key. -/
def position (k : Number × Walked) : ℕ ×ₗ WithBot (WithTop ℚ) := toLex (k.2.hop, k.1.rank)

/-- Keys that stand for numbers are sorted by their positions. -/
theorem before_eq {k l : Number × Walked} (hk : k.1.IsDefined) (hl : l.1.IsDefined) :
    before k l = decide (position k ≤ position l) := by
  rw [Bool.eq_iff_iff, decide_eq_true_iff, position, position, Prod.Lex.toLex_le_toLex, before,
    Bool.or_eq_true, decide_eq_true_iff, Bool.and_eq_true, beq_iff_eq, Bool.not_eq_true',
    ← Bool.not_eq_true, Number.less_iff_rank hl hk, not_lt]

theorem mergeSort_before {ks : List (Number × Walked)} (h : ∀ k ∈ ks, k.1.IsDefined) :
    ks.mergeSort before = ks.mergeSort fun k l => decide (position k ≤ position l) := by
  have hmap := @List.map_mergeSort _ _ before (fun k l => decide (position k ≤ position l)) id ks
    fun k hk l hl => before_eq (h k hk) (h l hl)
  simpa using hmap

/-- Ties of later hops are sorted behind those of earlier ones. -/
theorem mergeSort_before_append {ks ls : List (Number × Walked)}
    (hks : ∀ k ∈ ks, k.1.IsDefined) (hls : ∀ l ∈ ls, l.1.IsDefined)
    (hhop : ∀ k ∈ ks, ∀ l ∈ ls, k.2.hop < l.2.hop) :
    (ks ++ ls).mergeSort before = ks.mergeSort before ++ ls.mergeSort before := by
  rw [mergeSort_before (List.forall_mem_append.2 ⟨hks, hls⟩), mergeSort_before hks,
    mergeSort_before hls]
  refine mergeSort_append (fun a b c hab hbc => ?_) (fun a b => ?_) fun k hk l hl => ?_
  · rw [decide_eq_true_iff] at *
    exact hab.trans hbc
  · simpa using le_total (position a) (position b)
  · rw [decide_eq_true_iff, position, position, Prod.Lex.toLex_le_toLex]
    exact .inl (hhop k hk l hl)

/-! ### Strengths -/

theorem greatest_mem {best v : Value} {vs : List Value} (h : greatest best vs = .ok v) :
    v ∈ best :: vs := by
  induction vs generalizing best with
  | nil =>
    cases h
    exact List.mem_cons_self
  | cons w vs ih =>
    obtain ⟨above, -, h⟩ := Outcome.bind_ok.1 h
    split at h
    · exact List.mem_cons_of_mem _ (ih h)
    · rcases List.mem_cons.1 (ih h) with rfl | hv
      · exact List.mem_cons_self
      · exact List.mem_cons_of_mem _ (List.mem_cons_of_mem _ hv)

/-- The strength of a tie is one of its weights, or an infinity. -/
theorem strongest_defined {tie : Value} {n : Number}
    (hweights : ∀ n ∈ (tie.field "weights").numbers, n.IsDefined)
    (h : strongest tie = .ok (.number n)) : n.IsDefined := by
  obtain ⟨weights, hget, h⟩ := Outcome.bind_ok.1 h
  rw [Value.field_of_get hget] at hweights
  split at h
  · cases h
    exact (by decide +kernel : (Number.float (-Binary.infinity)).IsDefined)
  · split at h
    · rename_i name first rest _
      have hmem : Value.number n ∈ ((name, first) :: rest).map Prod.snd := greatest_mem h
      obtain ⟨e, he, heq⟩ := List.mem_map.1 hmem
      refine hweights n (Value.mem_numbers_mapping.2 ⟨e, he, ?_⟩)
      rw [heq]
      exact List.mem_singleton_self n
    · cases h

/-- What ties are sorted by stands for a number if their weights do. -/
theorem keyed_defined (hties : ∀ tie ∈ story.ties, tie.IsTie) (hweighed : story.Weighed)
    {ws : List Walked} (h : ∀ w ∈ ws, w.tie ∈ story.ties) :
    ∃ ks, ws.mapM keyed = .ok ks ∧ ∀ k ∈ ks, k.2 ∈ ws ∧ k.1.IsDefined := by
  have hkeyed : ∀ w ∈ ws, ∃ k, keyed w = .ok k ∧ k.2 ∈ ws ∧ k.1.IsDefined := by
    intro w hw
    obtain ⟨n, hn⟩ := strongest_number (hties w.tie (h w hw))
    exact ⟨(n.neg, w), keyed_of_strongest hn, hw,
      (strongest_defined (hweighed w.tie (h w hw)) hn).neg⟩
  obtain ⟨ks, hks, hfrom⟩ := Outcome.mapM_ok fun w hw => (hkeyed w hw).imp fun _ hk => hk.1
  refine ⟨ks, hks, fun k hk => ?_⟩
  obtain ⟨w, hw, heq⟩ := hfrom k hk
  obtain ⟨k', hk', hdefined⟩ := hkeyed w hw
  obtain rfl : k' = k := Except.ok.inj (hk'.symm.trans heq)
  exact hdefined

/-! ### More hops -/

section Hops

variable (hties : ∀ tie ∈ story.ties, tie.IsTie)
include hties

/-- More hops report more ties behind those that were reported. -/
theorem walk_add (hweighed : story.Weighed) (seeds : List String) (hops m : ℕ) :
    ∃ ws more, walk story (seeds.map .text) hops = .ok ws ∧
      walk story (seeds.map .text) (hops + m) = .ok (ws ++ more) := by
  obtain ⟨ws, more, hws, hmore, hfirst, hsecond⟩ := reached_add hties seeds hops m
  obtain ⟨ks, hks, hdefined⟩ := keyed_defined hties hweighed fun w hw => (hfirst w hw).1
  obtain ⟨ls, hls, hdefined'⟩ := keyed_defined hties hweighed fun w hw => (hsecond w hw).1
  refine ⟨(ks.mergeSort before).map Prod.snd, (ls.mergeSort before).map Prod.snd, ?_, ?_⟩
  · rw [walk, hws, Outcome.ok_bind, hks]
    rfl
  · have hhop : ∀ k ∈ ks, ∀ l ∈ ls, k.2.hop < l.2.hop := fun k hk l hl =>
      (hfirst _ (hdefined k hk).1).2.2.trans_le (hsecond _ (hdefined' l hl).1).2.1
    have hall : (ws ++ more).mapM keyed = .ok (ks ++ ls) := by
      rw [List.mapM_append, hks, Outcome.ok_bind, hls]
      rfl
    rw [walk, hmore, Outcome.ok_bind, hall, ← List.map_append, ← mergeSort_before_append
      (fun k hk => (hdefined k hk).2) (fun l hl => (hdefined' l hl).2) hhop]
    rfl

/-- As many hops as there are ties report all that any more report. -/
theorem walk_saturates (seeds : List String) {hops : ℕ} (h : story.ties.length ≤ hops) :
    walk story (seeds.map .text) hops = walk story (seeds.map .text) story.ties.length := by
  obtain ⟨m, rfl⟩ := Nat.exists_eq_add_of_le h
  rw [walk, walk, reached_saturates hties seeds m]

end Hops

end Walk

namespace Subgraph

variable {story : Story}

/-- With more hops a scene is told of more ties behind those that it was told of. -/
theorem extract_add {document : Value} (hd : document.isDocument = true)
    (h : Story.read document = .ok story) (hweighed : story.Weighed) (seeds : List String)
    (limits : Limits) (hops m : ℕ) :
    ∃ g g', extract story (seeds.map .text) { limits with hops := hops } = .ok g ∧
      extract story (seeds.map .text) { limits with hops := hops + m } = .ok g' ∧
        g.relationships <+: g'.relationships := by
  obtain ⟨g, hg⟩ := extract_ok hd h seeds { limits with hops := hops }
  obtain ⟨g', hg'⟩ := extract_ok hd h seeds { limits with hops := hops + m }
  obtain ⟨ws, more, hws, hmore⟩ := Walk.walk_add (Story.isTie_of_read h) hweighed seeds hops m
  obtain ⟨ws', hws', hviews⟩ := (parts_of_extract hg).1
  obtain ⟨all, hall, hviews'⟩ := (parts_of_extract hg').1
  obtain rfl : ws = ws' := Except.ok.inj (hws.symm.trans hws')
  obtain rfl : ws ++ more = all := Except.ok.inj (hmore.symm.trans hall)
  refine ⟨g, g', hg, hg', ?_⟩
  rw [List.take_append, List.mapM_append, hviews, Outcome.ok_bind] at hviews'
  obtain ⟨rest, -, heq⟩ := Outcome.bind_ok.1 hviews'
  exact ⟨rest, Except.ok.inj heq⟩

end Subgraph

namespace Walk

variable {document : Value} {story : Story}

/-- Raising the limit of hops only extends the walk through a story that was read, and what a scene
is told of it, if no weight is the undefined number. From as many hops as there are ties on, the
walk is the same whatever the limit is. -/
theorem walk_extends (hd : document.isDocument = true) (h : Story.read document = .ok story)
    (hweighed : story.Weighed) (seeds : List String) :
    (∀ k k' : ℤ, k ≤ k' → ∃ ws ws', walk story (seeds.map .text) k.toNat = .ok ws ∧
      walk story (seeds.map .text) k'.toNat = .ok ws' ∧ ws <+: ws') ∧
    (∀ (limits : Limits) (k k' : ℕ), k ≤ k' →
      ∃ g g', Subgraph.extract story (seeds.map .text) { limits with hops := k } = .ok g ∧
        Subgraph.extract story (seeds.map .text) { limits with hops := k' } = .ok g' ∧
          g.relationships <+: g'.relationships) ∧
    ∀ k : ℤ, story.ties.length ≤ k →
      walk story (seeds.map .text) k.toNat = walk story (seeds.map .text) story.ties.length := by
  have hties := Story.isTie_of_read h
  refine ⟨fun k k' hk => ?_, fun limits k k' hk => ?_, fun k hk => ?_⟩
  · obtain ⟨m, hm⟩ := Nat.exists_eq_add_of_le (Int.toNat_le_toNat hk)
    obtain ⟨ws, more, hws, hmore⟩ := walk_add hties hweighed seeds k.toNat m
    exact ⟨ws, ws ++ more, hws, hm ▸ hmore, ⟨more, rfl⟩⟩
  · obtain ⟨m, rfl⟩ := Nat.exists_eq_add_of_le hk
    exact Subgraph.extract_add hd h hweighed seeds limits k m
  · exact walk_saturates hties seeds (by omega)

/-- Among six ties the report of one hop is the beginning of that of two, and a limit of a million
hops is as good as one of six. -/
theorem walk_extends_two : ∃ story ws ws', Story.read tiesDocument = .ok story ∧
    walk story (["a"].map .text) 1 = .ok ws ∧ walk story (["a"].map .text) 2 = .ok ws' ∧
    ws <+: ws' ∧ walk story (["a"].map .text) 1000000 = walk story (["a"].map .text) 6 := by
  obtain ⟨story, hread, hweighed, hlength⟩ := Story.exists_read tiesDocument
    (fun story => story.Weighed ∧ story.ties.length = 6) (by decide +kernel)
  obtain ⟨hextends, -, hsame⟩ := walk_extends (by decide +kernel) hread hweighed ["a"]
  obtain ⟨ws, ws', hws, hws', hbegins⟩ := hextends 1 2 (by decide)
  rw [hlength] at hsame
  exact ⟨story, ws, ws', hread, hws, hws', hbegins, hsame 1000000 (by decide)⟩

end Walk

end StoryWorld
