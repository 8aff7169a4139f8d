import StoryWorld.Proofs.Neighbourhood

/-!
Ties that hide others from a walk.

A walk takes ties whose ends have the same text for one, so of such ties it reports those of one
pair of ends only, and the ties behind the others stay out of its reach. It reports a tie for each
pair of ends within reach just if their texts tell these pairs apart. Ties out of reach do not
matter, since a story with nothing but the ties within reach has the same walk, and its distances
below the number of hops are the same.
-/

namespace StoryWorld

/-- What each step of a fold keeps, the fold keeps. -/
theorem Outcome.foldlM_keeps {α σ : Type} {inv : σ → Prop} {f : σ → α → Outcome σ}
    (hf : ∀ a x b, f a x = .ok b → inv a → inv b) :
    ∀ {xs : List α} {a b : σ}, xs.foldlM f a = .ok b → inv a → inv b
  | [], _, _, h, ha => by
    obtain rfl := Outcome.pure_ok.1 h
    exact ha
  | x :: xs, a, b, h, ha => by
    rw [List.foldlM_cons] at h
    obtain ⟨c, hc, h⟩ := Outcome.bind_ok.1 h
    exact foldlM_keeps hf h (hf a x c hc ha)

/-! ### The ties within reach -/

namespace Story

variable {story : Story} {seeds : List String} {bound n : ℕ} {a c : String} {q : String × String}

/-- A pair of ends one of which is fewer than so many ties away from some characters. -/
def InReach (story : Story) (seeds : List String) (bound : ℕ) (q : String × String) : Prop :=
  q ∈ story.ends ∧ min (story.distance seeds q.1) (story.distance seeds q.2) < bound

theorem inReach_one : story.InReach seeds 1 q ↔ q ∈ story.ends ∧ (q.1 ∈ seeds ∨ q.2 ∈ seeds) := by
  rw [InReach, min_lt_iff, distance_lt_one, distance_lt_one]

/-- The text of a pair of ends. -/
def textOf (q : String × String) : String := q.1 ++ "->" ++ q.2

/-- The pairs of ends within reach are told apart by their texts. -/
def ToldApart (story : Story) (seeds : List String) (bound : ℕ) : Prop :=
  ∀ q r, story.InReach seeds bound q → story.InReach seeds bound r → textOf q = textOf r → q = r

/-- The story without the ties that are out of reach. -/
noncomputable def restrict (story : Story) (seeds : List String) (bound : ℕ) : Story :=
  { story with relationships := .list (story.tiesWithin seeds bound) }

theorem ties_restrict : (story.restrict seeds bound).ties = story.tiesWithin seeds bound := rfl

theorem mem_tiesWithin {tie : Value} (hq : tie.ends? = some q) :
    tie ∈ story.tiesWithin seeds bound ↔
      tie ∈ story.ties ∧ (story.distance seeds q.1 < bound ∨ story.distance seeds q.2 < bound) := by
  simp [tiesWithin, hq]

theorem mem_ends_restrict : q ∈ (story.restrict seeds bound).ends ↔ story.InReach seeds bound q := by
  rw [mem_ends, InReach, mem_ends, ties_restrict, min_lt_iff]
  constructor
  · rintro ⟨tie, htie, hq⟩
    rw [mem_tiesWithin hq] at htie
    exact ⟨⟨tie, htie.1, hq⟩, htie.2⟩
  · rintro ⟨⟨tie, htie, hq⟩, hnear⟩
    exact ⟨tie, (mem_tiesWithin hq).2 ⟨htie, hnear⟩, hq⟩

theorem linked_of_restrict (h : (story.restrict seeds bound).Linked a c) : story.Linked a c :=
  h.imp (fun h => (mem_ends_restrict.1 h).1) fun h => (mem_ends_restrict.1 h).1

theorem linked_restrict (h : story.Linked a c) (ha : story.distance seeds a < bound) :
    (story.restrict seeds bound).Linked a c :=
  h.imp (fun h => mem_ends_restrict.2 ⟨h, min_lt_iff.2 (.inl ha)⟩)
    fun h => mem_ends_restrict.2 ⟨h, min_lt_iff.2 (.inr ha)⟩

/-- What is in reach is as far without the ties that are not. -/
theorem distance_restrict_lt (hn : n ≤ bound) :
    (story.restrict seeds bound).distance seeds c < n ↔ story.distance seeds c < n := by
  induction n generalizing c with
  | zero => simp
  | succ n ih =>
    constructor
    · intro h
      rcases exists_linked h with hc | ⟨a, ha, hl⟩
      · exact distance_lt_mono (Nat.le_add_left 1 n) (distance_lt_one.2 hc)
      · exact distance_lt_of_linked (linked_of_restrict hl) ((ih (by omega)).1 ha)
    · intro h
      rcases exists_linked h with hc | ⟨a, ha, hl⟩
      · exact distance_lt_mono (Nat.le_add_left 1 n) (distance_lt_one.2 hc)
      · exact distance_lt_of_linked (linked_restrict hl (distance_lt_mono (by omega) ha))
          ((ih (by omega)).2 ha)

theorem tiesWithin_restrict :
    (story.restrict seeds bound).tiesWithin seeds bound = story.tiesWithin seeds bound := by
  rw [tiesWithin, ties_restrict, List.filter_eq_self]
  intro tie htie
  obtain ⟨-, hnear⟩ := List.mem_filter.1 htie
  simpa only [distance_restrict_lt le_rfl] using hnear

end Story

namespace Walk

open Story

variable {story : Story} {seeds : List String} {hops hop : ℕ} {p p' : Progress}

/-! ### What is reported is told apart -/

/-- The texts of the ties that were reached, each once. -/
structure Told (p : Progress) : Prop where
  texts : p.walked.map (fun w => w.tie.tieText) = p.seen.reverse.map .ok
  unique : p.seen.Nodup

theorem told_enqueue {other : Value} (h : enqueue p other = .ok p') (hp : Told p) : Told p' := by
  unfold enqueue at h
  split at h
  · cases h
  · split at h <;> cases h <;> exact ⟨hp.texts, hp.unique⟩

theorem told_followTie {character tie : Value} (h : followTie hop character p tie = .ok p')
    (hp : Told p) : Told p' := by
  obtain ⟨text, htext, h⟩ := Outcome.bind_ok.1 h
  split at h
  · obtain rfl := Outcome.pure_ok.1 h
    exact hp
  · rename_i hnew
    obtain ⟨other, -, h⟩ := Outcome.bind_ok.1 h
    have hfresh : text ∉ p.seen := fun hmem => hnew (by simpa using hmem)
    refine told_enqueue h ⟨?_, List.nodup_cons.2 ⟨hfresh, hp.unique⟩⟩
    rw [List.map_append, hp.texts, List.reverse_cons, List.map_append]
    simp [htext]

theorem told_visit {character : Value} (h : visit story hop p character = .ok p')
    (hp : Told p) : Told p' := by
  unfold visit at h
  split at h
  · cases h
    exact hp
  · obtain ⟨ties, -, h⟩ := Outcome.bind_ok.1 h
    exact Outcome.foldlM_keeps (fun _ _ _ => told_followTie) h ⟨hp.texts, hp.unique⟩

theorem told_levels : ∀ {hops hop : ℕ} {p p' : Progress} {frontier : List Value},
    levels story hops hop p frontier = .ok p' → Told p → Told p'
  | 0, _, _, _, _, h, hp => by
    cases h
    exact hp
  | hops + 1, hop, p, p', frontier, h, hp => by
    unfold levels at h
    split at h
    · cases h
      exact hp
    · obtain ⟨q, hq, h⟩ := Outcome.bind_ok.1 h
      exact told_levels h (Outcome.foldlM_keeps (fun _ _ _ => told_visit) hq ⟨hp.texts, hp.unique⟩)

/-- Of the ties that a walk reports no two have the same text. -/
theorem eq_of_tieText (hties : ∀ tie ∈ story.ties, tie.IsTie) {result : List Walked}
    (h : walk story (seeds.map .text) hops = .ok result) {w w' : Walked} (hw : w ∈ result)
    (hw' : w' ∈ result) (htext : w.tie.tieText = w'.tie.tieText) : w = w' := by
  obtain ⟨ws, hws, hbetween⟩ := reached_between hties seeds hops
  obtain ⟨result', hresult, hperm⟩ :=
    walk_of_reached hws fun w hw => hties _ (hbetween w hw).1
  obtain rfl : result = result' := Except.ok.inj (h.symm.trans hresult)
  have htold : (ws.map fun w => w.tie.tieText).Nodup := by
    rw [reached_eq] at hws
    obtain ⟨p, hp, rfl⟩ := Outcome.map_ok.1 hws
    have htold := told_levels hp ⟨rfl, .nil⟩
    rw [htold.texts]
    exact (List.nodup_reverse.2 htold.unique).map fun _ _ => Except.ok.inj
  exact List.inj_on_of_nodup_map htold (hperm.mem_iff.1 hw) (hperm.mem_iff.1 hw') htext

/-! ### What is reported is complete -/

/-- A tie is reported for each pair of ends within reach if their texts tell these apart. -/
theorem walk_complete (hties : ∀ tie ∈ story.ties, tie.IsTie)
    (htold : story.ToldApart seeds hops) : ∃ result,
      walk story (seeds.map .text) hops = .ok result ∧
        ∀ q, story.InReach seeds hops q → ∃ w ∈ result, w.tie.ends? = some q := by
  have hties' : ∀ tie ∈ (story.restrict seeds hops).ties, tie.IsTie := fun tie htie =>
    hties tie (List.mem_of_mem_filter htie)
  have hu : (story.restrict seeds hops).Unambiguous := fun q hq r hr htext =>
    htold q r (mem_ends_restrict.1 hq) (mem_ends_restrict.1 hr) htext
  obtain ⟨p, hreached, hrecord⟩ := reached_record hties' hu seeds hops
  obtain ⟨result, hresult, hperm⟩ := walk_of_reached hreached (isTie_of_record hties' hrecord)
  refine ⟨result, ?_, fun q hq => ?_⟩
  · rw [walk_alike hties hties' tiesWithin_restrict.symm, hresult]
  · have hknown : q ∈ (story.restrict seeds hops).ends ∧
        min ((story.restrict seeds hops).distance seeds q.1)
          ((story.restrict seeds hops).distance seeds q.2) < hops := by
      refine ⟨mem_ends_restrict.2 hq, ?_⟩
      rw [min_lt_iff, distance_restrict_lt le_rfl, distance_restrict_lt le_rfl, ← min_lt_iff]
      exact hq.2
    obtain ⟨w, hw, hends⟩ := List.mem_map.1 ((hrecord.known q).2 hknown)
    exact ⟨w, hperm.mem_iff.2 hw, hends⟩

/-- Ties that are both reported have the same ends if they have the same text. -/
theorem ends_of_reported (hties : ∀ tie ∈ story.ties, tie.IsTie) {result : List Walked}
    (h : walk story (seeds.map .text) hops = .ok result) {q r : String × String}
    (hq : ∃ w ∈ result, w.tie.ends? = some q) (hr : ∃ w ∈ result, w.tie.ends? = some r)
    (htext : textOf q = textOf r) : q = r := by
  obtain ⟨w, hw, hends⟩ := hq
  obtain ⟨w', hw', hends'⟩ := hr
  have hsame : w.tie.tieText = w'.tie.tieText := by
    rw [Value.tieText_eq hends, Value.tieText_eq hends']
    exact congrArg _ htext
  obtain rfl := eq_of_tieText hties h hw hw' hsame
  exact Option.some.inj (hends.symm.trans hends')

/-- The walk through a story that was read reports a tie for each pair of ends one of which is fewer
than so many ties away from the seeds, just if no two such pairs have the same text. -/
theorem walk_hides_iff {document : Value} (h : Story.read document = .ok story)
    (seeds : List String) (maxHops : ℤ) :
    ∃ result, walk story (seeds.map .text) maxHops.toNat = .ok result ∧
      ((∀ q, story.InReach seeds maxHops.toNat q → ∃ w ∈ result, w.tie.ends? = some q) ↔
        story.ToldApart seeds maxHops.toNat) := by
  have hties := isTie_of_read h
  obtain ⟨ws, hws, hbetween⟩ := reached_between hties seeds maxHops.toNat
  obtain ⟨result, hresult, -⟩ := walk_of_reached hws fun w hw => hties _ (hbetween w hw).1
  refine ⟨result, hresult, fun hall q r hq hr htext => ?_, fun htold => ?_⟩
  · exact ends_of_reported hties hresult (hall q hq) (hall r hr) htext
  · obtain ⟨result', hresult', hall⟩ := walk_complete hties htold
    obtain rfl : result = result' := Except.ok.inj (hresult.symm.trans hresult')
    exact hall

/-- The document of a story with two ties that have one text. -/
def arrowDocument : Value :=
  .mapping [("relationships", .list [tieDocument "a" "b->c" 1, tieDocument "a->b" "c" 2])]

/-- Only the first of the two is within reach, and it is reported. -/
theorem walk_hides_iff_near : ∃ story result, Story.read arrowDocument = .ok story ∧
    ¬ story.Unambiguous ∧ walk story (["a"].map .text) 1 = .ok result ∧
      ∀ q, story.InReach ["a"] 1 q → ∃ w ∈ result, w.tie.ends? = some q := by
  obtain ⟨story, hread, hambiguous, htold⟩ := Story.exists_read arrowDocument (fun story =>
    ¬ story.Unambiguous ∧ ∀ q ∈ story.ends, (q.1 ∈ ["a"] ∨ q.2 ∈ ["a"]) →
      ∀ r ∈ story.ends, (r.1 ∈ ["a"] ∨ r.2 ∈ ["a"]) → textOf q = textOf r → q = r)
    (by decide +kernel)
  obtain ⟨result, hresult, hiff⟩ := walk_hides_iff hread ["a"] 1
  refine ⟨story, result, hread, hambiguous, hresult, hiff.2 fun q r hq hr htext => ?_⟩
  obtain ⟨hq, hnear⟩ := inReach_one.1 hq
  obtain ⟨hr, hnear'⟩ := inReach_one.1 hr
  exact htold q hq hnear r hr hnear' htext

/-- From a start of either, the walk reports the first only. -/
theorem walk_hides_second : ∃ story result, Story.read arrowDocument = .ok story ∧
    walk story (["a", "a->b"].map .text) 1 = .ok result ∧
      story.InReach ["a", "a->b"] 1 ("a->b", "c") ∧
        ∀ w ∈ result, w.tie.ends? ≠ some ("a->b", "c") := by
  obtain ⟨story, hread, hends, hreport⟩ := Story.exists_read arrowDocument (fun story =>
    ("a->b", "c") ∈ story.ends ∧
      (reached story (["a", "a->b"].map .text) 1).toOption.map
        (fun ws => ws.map fun w => w.tie.ends?) = some [some ("a", "b->c")]) (by decide +kernel)
  have hties := isTie_of_read hread
  obtain ⟨ws, hws, hbetween⟩ := reached_between hties ["a", "a->b"] 1
  obtain ⟨result, hresult, hperm⟩ := walk_of_reached hws fun w hw => hties _ (hbetween w hw).1
  refine ⟨story, result, hread, hresult, inReach_one.2 ⟨hends, .inl (by decide)⟩, ?_⟩
  rw [hws] at hreport
  have honly : (ws.map fun w => w.tie.ends?) = [some ("a", "b->c")] := Option.some.inj hreport
  intro w hw hsame
  have hmem := List.mem_map_of_mem (f := fun w : Walked => w.tie.ends?) (hperm.mem_iff.1 hw)
  rw [honly, hsame] at hmem
  revert hmem
  decide

end Walk

end StoryWorld
