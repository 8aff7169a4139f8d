import StoryWorld.Proofs.Walks

/-!
A walk that goes on only adds to what it has reached, and stops by itself.

Whatever the texts of the ties are, a level of the walk adds ties with the number of its own hop
behind those that were there, and leads to characters that are linked to those it started from. It
leads to no more characters than it adds ties, and no text of a tie is added twice. So more hops
only add to the walk, and after as many hops as there are ties nothing is left to be added.
-/

namespace StoryWorld

namespace Walk

open Story

variable {story : Story} {hop hops : ℕ} {sources : Set String} {p p' p'' : Progress} {u : String}
  {frontier : List Value}

/-! ### One level -/

/-- The texts of the ties that were reached are told apart, and there are as many as such ties. -/
structure Counted (story : Story) (p : Progress) : Prop where
  unique : p.seen.Nodup
  length : p.seen.length = p.walked.length
  texts : ∀ text ∈ p.seen, text ∈ story.ends.map fun q => q.1 ++ "->" ++ q.2

/-- No more ties can be reached than there are. -/
theorem Counted.length_le (h : Counted story p) : p.walked.length ≤ story.ties.length := by
  rw [← h.length]
  refine (List.Nodup.length_le_of_subset h.unique h.texts).trans ?_
  rw [List.length_map]
  exact List.length_filterMap_le _ _

/-- Ties of a story that were reached by a hop within some bounds. -/
def Between (story : Story) (first last : ℕ) (ws : List Walked) : Prop :=
  ∀ w ∈ ws, w.tie ∈ story.ties ∧ first ≤ w.hop ∧ w.hop < last

/-- A walk went on by one hop along ties of some characters. -/
structure Grows (story : Story) (hop : ℕ) (sources : Set String) (p p' : Progress) : Prop where
  walked : ∃ more, p'.walked = p.walked ++ more ∧ Between story hop (hop + 1) more ∧
    p'.next.length ≤ p.next.length + more.length
  next : ∀ v ∈ p'.next, v ∈ p.next ∨ ∃ u ∈ sources, ∃ c, v = .text c ∧ story.Linked u c
  counted : Counted story p → Counted story p'

namespace Grows

theorem refl (p : Progress) : Grows story hop sources p p :=
  ⟨⟨[], by simp, by simp [Between], by simp⟩, fun _ hv => .inl hv, id⟩

theorem trans (h : Grows story hop sources p p') (h' : Grows story hop sources p' p'') :
    Grows story hop sources p p'' := by
  obtain ⟨more, hwalked, hmore, hlength⟩ := h.walked
  obtain ⟨more', hwalked', hmore', hlength'⟩ := h'.walked
  refine ⟨⟨more ++ more', ?_, ?_, ?_⟩, ?_, fun hp => h'.counted (h.counted hp)⟩
  · rw [hwalked', hwalked, List.append_assoc]
  · exact List.forall_mem_append.2 ⟨hmore, hmore'⟩
  · rw [List.length_append]
    omega
  · intro v hv
    rcases h'.next v hv with hv | hv
    · exact h.next v hv
    · exact .inr hv

end Grows

theorem enqueue_length {v : Value} (h : enqueue p v = .ok p') :
    p'.next.length ≤ p.next.length + 1 := by
  unfold enqueue at h
  split at h
  · cases h
  · split at h <;> cases h <;> simp

section Level

variable (hties : ∀ tie ∈ story.ties, tie.IsTie)
include hties

/-- Following a tie of a character adds the tie if its text is new. -/
theorem followTie_grows {tie : Value} (hu : u ∈ sources) (htie : tie ∈ story.tiesOf u)
    (p : Progress) :
    ∃ p', followTie hop (.text u) p tie = .ok p' ∧ Grows story hop sources p p' := by
  have hmem : tie ∈ story.ties := List.mem_of_mem_filter htie
  obtain ⟨q, hq⟩ := (hties tie hmem).ends
  have hends : q ∈ story.ends := mem_ends.2 ⟨tie, hmem, hq⟩
  have hlinked := linked_otherOf hends ((mem_tiesOf hq).1 htie).2
  rw [followTie, Value.tieText_eq hq, Outcome.ok_bind]
  by_cases hseen : p.seen.contains (q.1 ++ "->" ++ q.2) = true
  · rw [if_pos hseen]
    exact ⟨p, rfl, .refl p⟩
  · rw [if_neg hseen, Value.otherEnd_eq (hties tie hmem) hq, Outcome.ok_bind]
    obtain ⟨p', hp', hwalked, hseen', -, -, hnext, -⟩ := enqueue_ok
      { p with seen := (q.1 ++ "->" ++ q.2) :: p.seen, walked := p.walked ++ [⟨tie, hop⟩] }
      (Value.otherOf u q)
    have hlength := enqueue_length hp'
    refine ⟨p', hp', ⟨[⟨tie, hop⟩], hwalked, ?_, hlength⟩, ?_, fun hp => ?_⟩
    · simp [Between, hmem]
    · intro v hv
      exact (hnext v hv).imp_right fun hv => ⟨u, hu, _, hv, hlinked⟩
    · rw [List.contains_iff_mem] at hseen
      refine ⟨?_, ?_, ?_⟩
      · rw [hseen']
        exact List.nodup_cons.2 ⟨hseen, hp.unique⟩
      · rw [hseen', hwalked, List.length_cons, List.length_append, hp.length]
        rfl
      · rw [hseen', List.forall_mem_cons]
        exact ⟨List.mem_map.2 ⟨q, hends, rfl⟩, hp.texts⟩

theorem followAll_grows (hu : u ∈ sources) :
    ∀ {ties : List Value}, (∀ tie ∈ ties, tie ∈ story.tiesOf u) → ∀ p,
      ∃ p', ties.foldlM (followTie hop (.text u)) p = .ok p' ∧ Grows story hop sources p p'
  | [], _, p => ⟨p, rfl, .refl p⟩
  | tie :: ties, hall, p => by
    obtain ⟨htie, hrest⟩ := List.forall_mem_cons.1 hall
    obtain ⟨q, hq, hone⟩ := followTie_grows hties hu htie p
    obtain ⟨p', hp', hmore⟩ := followAll_grows hu hrest q
    exact ⟨p', by rw [List.foldlM_cons, hq, Outcome.ok_bind, hp'], hone.trans hmore⟩

theorem visit_grows (hu : u ∈ sources) (p : Progress) :
    ∃ p', visit story hop p (.text u) = .ok p' ∧ Grows story hop sources p p' := by
  unfold visit
  split
  · exact ⟨p, rfl, .refl p⟩
  · rw [relationshipsFor_eq hties, Outcome.ok_bind]
    obtain ⟨p', hp', hgrows⟩ := followAll_grows hties hu (fun tie h => h)
      { p with visited := .text u :: p.visited }
    exact ⟨p', hp', hgrows.walked, hgrows.next, fun hp =>
      hgrows.counted ⟨hp.unique, hp.length, hp.texts⟩⟩

theorem visitAll_grows :
    ∀ {vs : List Value}, (∀ v ∈ vs, ∃ u ∈ sources, v = .text u) → ∀ p,
      ∃ p', vs.foldlM (visit story hop) p = .ok p' ∧ Grows story hop sources p p'
  | [], _, p => ⟨p, rfl, .refl p⟩
  | v :: vs, hall, p => by
    obtain ⟨⟨u, hu, rfl⟩, hrest⟩ := List.forall_mem_cons.1 hall
    obtain ⟨q, hq, hone⟩ := visit_grows hties hu p
    obtain ⟨p', hp', hmore⟩ := visitAll_grows hrest q
    exact ⟨p', by rw [List.foldlM_cons, hq, Outcome.ok_bind, hp'], hone.trans hmore⟩

/-- A level never fails: the walk goes on from no character for the next level. -/
theorem level_grows (hop : ℕ) (hfrontier : ∀ v ∈ frontier, ∃ u ∈ sources, v = .text u)
    (p : Progress) :
    ∃ q, level story hop p frontier = .ok q ∧ Grows story hop sources { p with next := [] } q :=
  visitAll_grows hties hfrontier _

end Level

/-! ### All levels -/

/-- Where no character is left the walk stops. -/
theorem levels_nil (hops : ℕ) : levels story hops hop p [] = .ok p := by
  cases hops <;> rfl

/-- The values are texts, as are the characters of each level. -/
def AllTexts (vs : List Value) : Prop := ∀ v ∈ vs, ∃ u, v = Value.text u

theorem Between.mono {first last first' last' : ℕ} {ws : List Walked}
    (h : Between story first last ws) (hfirst : first' ≤ first) (hlast : last ≤ last') :
    Between story first' last' ws := fun w hw =>
  ⟨(h w hw).1, hfirst.trans (h w hw).2.1, (h w hw).2.2.trans_le hlast⟩

section Levels

variable (hties : ∀ tie ∈ story.ties, tie.IsTie)
include hties

/-- A level that starts from texts goes on from texts. -/
theorem level_texts (hop : ℕ) (hfrontier : AllTexts frontier) (p : Progress) :
    ∃ q, level story hop p frontier = .ok q ∧
      Grows story hop Set.univ { p with next := [] } q ∧ AllTexts q.next := by
  obtain ⟨q, hq, hgrows⟩ := level_grows hties hop
    (fun v hv => (hfrontier v hv).imp fun _ hu => ⟨Set.mem_univ _, hu⟩) p
  refine ⟨q, hq, hgrows, fun v hv => ?_⟩
  rcases hgrows.next v hv with hv | ⟨-, -, c, rfl, -⟩
  · cases hv
  · exact ⟨c, rfl⟩

/-- The levels add ties by the hops that they stand for. -/
theorem levels_grow (hop hops : ℕ) (p : Progress) (hfrontier : AllTexts frontier) :
    ∃ q more, levels story hops hop p frontier = .ok q ∧ q.walked = p.walked ++ more ∧
      Between story hop (hop + hops) more := by
  induction hops generalizing hop p frontier with
  | zero => exact ⟨p, [], rfl, by simp, by simp [Between]⟩
  | succ hops ih =>
    rw [levels]
    split
    · exact ⟨p, [], rfl, by simp, by simp [Between]⟩
    · obtain ⟨q, hq, hgrows, htexts⟩ := level_texts hties hop hfrontier p
      obtain ⟨more, hwalked, hmore, -⟩ := hgrows.walked
      obtain ⟨q', more', hq', hwalked', hmore'⟩ := ih (hop + 1) q htexts
      refine ⟨q', more ++ more', by rw [hq, Outcome.ok_bind, hq'], ?_, ?_⟩
      · rw [hwalked', hwalked, List.append_assoc]
      · exact List.forall_mem_append.2
          ⟨hmore.mono le_rfl (by omega), hmore'.mono (by omega) (by omega)⟩

/-- More levels only add ties, by later hops. -/
theorem levels_add (hop hops m : ℕ) (p : Progress) (hfrontier : AllTexts frontier) :
    ∃ q q' more, levels story hops hop p frontier = .ok q ∧
      levels story (hops + m) hop p frontier = .ok q' ∧ q'.walked = q.walked ++ more ∧
        Between story (hop + hops) (hop + hops + m) more := by
  induction hops generalizing hop p frontier with
  | zero =>
    obtain ⟨q', more, hq', hwalked, hmore⟩ := levels_grow hties hop m p hfrontier
    exact ⟨p, q', more, rfl, by rwa [Nat.zero_add], hwalked, hmore⟩
  | succ hops ih =>
    rw [Nat.add_right_comm, levels, levels]
    split
    · exact ⟨p, p, [], rfl, rfl, by simp, by simp [Between]⟩
    · obtain ⟨q, hq, hgrows, htexts⟩ := level_texts hties hop hfrontier p
      obtain ⟨r, r', more, hr, hr', hwalked, hmore⟩ := ih (hop + 1) q htexts
      rw [hq, Outcome.ok_bind, Outcome.ok_bind]
      exact ⟨r, r', more, hr, hr', hwalked, hmore.mono (by omega) (by omega)⟩

/-- Where all ties were reached, further levels add none. -/
theorem levels_full (hop : ℕ) (hp : Counted story p) (hfull : story.ties.length ≤ p.walked.length)
    (hops : ℕ) (hfrontier : AllTexts frontier) :
    ∃ q, levels story hops hop p frontier = .ok q ∧ q.walked = p.walked := by
  induction hops generalizing hop p frontier with
  | zero => exact ⟨p, rfl, rfl⟩
  | succ hops ih =>
    rw [levels]
    split
    · exact ⟨p, rfl, rfl⟩
    · obtain ⟨q, hq, hgrows, htexts⟩ := level_texts hties hop hfrontier p
      have hcounted := hgrows.counted ⟨hp.unique, hp.length, hp.texts⟩
      obtain ⟨more, (hwalked : q.walked = p.walked ++ more), -, -⟩ := hgrows.walked
      have hnone : more = [] := by
        have hle := hcounted.length_le
        rw [hwalked, List.length_append] at hle
        exact List.eq_nil_of_length_eq_zero (by omega)
      rw [hnone, List.append_nil] at hwalked
      obtain ⟨q', hq', hsame⟩ := ih (hop + 1) hcounted (by rwa [hwalked]) htexts
      exact ⟨q', by rw [hq, Outcome.ok_bind, hq'], hsame.trans hwalked⟩

/-- With a hop for each tie that is left the walk is complete. -/
theorem levels_saturate (hop : ℕ) (hp : Counted story p) {room : ℕ}
    (hroom : story.ties.length ≤ p.walked.length + room) (m : ℕ) (hfrontier : AllTexts frontier) :
    ∃ q q', levels story room hop p frontier = .ok q ∧
      levels story (room + m) hop p frontier = .ok q' ∧ q'.walked = q.walked := by
  induction room generalizing hop p frontier with
  | zero =>
    obtain ⟨q', hq', hsame⟩ := levels_full hties hop hp hroom m hfrontier
    exact ⟨p, q', rfl, by rwa [Nat.zero_add], hsame⟩
  | succ room ih =>
    rw [Nat.add_right_comm, levels, levels]
    split
    · exact ⟨p, p, rfl, rfl, rfl⟩
    · obtain ⟨q, hq, hgrows, htexts⟩ := level_texts hties hop hfrontier p
      rw [hq, Outcome.ok_bind, Outcome.ok_bind]
      obtain ⟨more, (hwalked : q.walked = p.walked ++ more), -, hlength⟩ := hgrows.walked
      have hcounted := hgrows.counted ⟨hp.unique, hp.length, hp.texts⟩
      cases more with
      | nil =>
        -- a level that adds no tie leads to no further character
        have hnext : q.next = [] := List.eq_nil_of_length_eq_zero (by simpa using hlength)
        rw [hnext]
        exact ⟨q, q, levels_nil room, levels_nil (room + m), rfl⟩
      | cons w more =>
        refine ih (hop + 1) hcounted ?_ htexts
        rw [hwalked, List.length_append, List.length_cons]
        omega

end Levels

/-! ### The whole walk -/

theorem allTexts_seeds (seeds : List String) : AllTexts (distinct (seeds.map .text)) := by
  intro v hv
  obtain ⟨c, -, rfl⟩ := List.mem_map.1 (mem_of_mem_distinct hv)
  exact ⟨c, rfl⟩

theorem reached_eq (seeds : List String) (hops : ℕ) : reached story (seeds.map .text) hops =
    (levels story hops 1 ⟨[], [], [], []⟩ (distinct (seeds.map .text))).map Progress.walked := by
  have hkeys : (seeds.map Value.text).all Value.isKey = true := by simp [Value.isKey]
  rw [reached, hkeys]
  rfl

section Reached

variable (hties : ∀ tie ∈ story.ties, tie.IsTie)
include hties

/-- A walk reaches ties of the story, by its hops. -/
theorem reached_between (seeds : List String) (hops : ℕ) :
    ∃ ws, reached story (seeds.map .text) hops = .ok ws ∧ Between story 1 (1 + hops) ws := by
  obtain ⟨q, more, hq, hwalked, hmore⟩ :=
    levels_grow hties 1 hops ⟨[], [], [], []⟩ (allTexts_seeds seeds)
  rw [List.nil_append] at hwalked
  exact ⟨q.walked, by rw [reached_eq, hq]; rfl, hwalked ▸ hmore⟩

/-- More hops reach more ties behind those that were reached. -/
theorem reached_add (seeds : List String) (hops m : ℕ) :
    ∃ ws more, reached story (seeds.map .text) hops = .ok ws ∧
      reached story (seeds.map .text) (hops + m) = .ok (ws ++ more) ∧
        Between story 1 (1 + hops) ws ∧ Between story (1 + hops) (1 + hops + m) more := by
  obtain ⟨ws, hws, hbetween⟩ := reached_between hties seeds hops
  obtain ⟨q, q', more, hq, hq', hwalked, hmore⟩ := levels_add hties 1 hops m
    ⟨[], [], [], []⟩ (allTexts_seeds seeds)
  obtain rfl : q.walked = ws := by
    rw [reached_eq, hq] at hws
    exact Except.ok.inj hws
  exact ⟨q.walked, more, hws, by rw [reached_eq, hq', ← hwalked]; rfl, hbetween, hmore⟩

/-- As many hops as there are ties reach all that any hops reach. -/
theorem reached_saturates (seeds : List String) (m : ℕ) :
    reached story (seeds.map .text) (story.ties.length + m) =
      reached story (seeds.map .text) story.ties.length := by
  have hstart : Counted story ⟨[], [], [], []⟩ := ⟨by simp, rfl, by simp⟩
  obtain ⟨q, q', hq, hq', hsame⟩ := levels_saturate hties 1 hstart
    (Nat.zero_add story.ties.length).ge m (allTexts_seeds seeds)
  rw [reached_eq, reached_eq, hq, hq']
  exact congrArg Except.ok hsame

end Reached

end Walk

end StoryWorld
