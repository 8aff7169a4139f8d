import StoryWorld.Proofs.Distances

/-!
The walk along the ties reaches exactly those that are near enough to its seeds.

While a level of the walk is under way, the characters visited are those that are nearer than the
level and those of the level that had their turn, and the ties reached are the ones with an end
among them. A tie that is met for the first time has no end that is nearer than the level, so its
hop tells its distance. By induction over a character's ties, over a level and over the levels, the
walk reaches the ties with an end nearer than its number of hops.
-/

namespace StoryWorld

namespace Walk

open Story

variable {story : Story} {seeds : List String} {n : ℕ} {p p' : Progress} {u : String}

theorem isAmong_text {c : String} {vs : List Value} :
    isAmong (.text c) vs = true ↔ Value.text c ∈ vs := by
  simp [isAmong, Value.equal_text]

/-- Characters that are nearer to the seeds than a bound. -/
def Nearer (story : Story) (seeds : List String) (bound : ℕ) (vs : List Value) : Prop :=
  ∀ v ∈ vs, ∃ c, v = .text c ∧ story.distance seeds c < bound

theorem Nearer.lt {bound : ℕ} {vs : List Value} {c : String} (h : Nearer story seeds bound vs)
    (hc : Value.text c ∈ vs) : story.distance seeds c < bound := by
  obtain ⟨c', heq, hlt⟩ := h _ hc
  cases heq
  exact hlt

theorem nearer_nil (bound : ℕ) : Nearer story seeds bound [] := by
  intro v hv
  cases hv

theorem Nearer.append {bound : ℕ} {vs : List Value} (h : Nearer story seeds bound vs)
    (hu : story.distance seeds u < bound) : Nearer story seeds bound (vs ++ [.text u]) := by
  intro v hv
  rw [List.mem_append, List.mem_singleton] at hv
  rcases hv with hv | rfl
  · exact h v hv
  · exact ⟨u, rfl, hu⟩

/-! ### What was reached -/

/-- A tie that was reached is the first one with its ends, by a hop that goes one tie farther than
the nearer of them. -/
def Exact (story : Story) (seeds : List String) (w : Walked) : Prop :=
  ∃ (q : String × String) (d : ℕ), story.firstTie? q = some w.tie ∧
    (d : ℕ∞) = min (story.distance seeds q.1) (story.distance seeds q.2) ∧ w.hop = d + 1

/-- The ties that were reached: one for each pair of ends that is known, each exactly. -/
structure Record (story : Story) (seeds : List String) (p : Progress)
    (Known : String × String → Prop) : Prop where
  exact : ∀ w ∈ p.walked, Exact story seeds w
  known : ∀ q, some q ∈ p.walked.map (fun w => w.tie.ends?) ↔ Known q
  unique : (p.walked.map fun w => w.tie.ends?).Nodup
  seen : ∀ q ∈ story.ends, q.1 ++ "->" ++ q.2 ∈ p.seen ↔ Known q

/-- A pair of ends one of which was visited. -/
def Touched (story : Story) (visited : List Value) (q : String × String) : Prop :=
  q ∈ story.ends ∧ (Value.text q.1 ∈ visited ∨ Value.text q.2 ∈ visited)

theorem Record.congr {Known Known' : String × String → Prop} (h : Record story seeds p Known)
    (hk : ∀ q, Known q ↔ Known' q) (hw : p'.walked = p.walked) (hs : p'.seen = p.seen) :
    Record story seeds p' Known' := by
  obtain rfl : Known = Known' := funext fun q => propext (hk q)
  exact ⟨by rw [hw]; exact h.exact, by rw [hw]; exact h.known, by rw [hw]; exact h.unique,
    by rw [hs]; exact h.seen⟩

/-- A tie is added whose ends were not known. -/
theorem Record.add {Known : String × String → Prop} (h : Record story seeds p Known)
    (hu : story.Unambiguous) {w : Walked} {q : String × String} (hq : q ∈ story.ends)
    (hends : w.tie.ends? = some q) (hnew : ¬ Known q) (hw : Exact story seeds w)
    (hwalked : p'.walked = p.walked ++ [w]) (hseen : p'.seen = (q.1 ++ "->" ++ q.2) :: p.seen) :
    Record story seeds p' fun r => Known r ∨ r = q := by
  constructor
  · intro w' hw'
    rw [hwalked, List.mem_append, List.mem_singleton] at hw'
    rcases hw' with hw' | rfl
    · exact h.exact w' hw'
    · exact hw
  · intro r
    simp only [hwalked, List.map_append, List.mem_append, h.known, List.map_cons, List.map_nil,
      List.mem_singleton, hends, Option.some.injEq]
  · rw [hwalked, List.map_append, List.nodup_append]
    refine ⟨h.unique, by simp, ?_⟩
    intro e he e' he'
    obtain rfl : e' = some q := by simpa [hends] using he'
    rintro rfl
    exact hnew ((h.known q).1 he)
  · intro r hr
    rw [hseen, List.mem_cons, h.seen r hr, or_comm]
    constructor
    · rintro (hk | hk)
      · exact .inl hk
      · exact .inr (hu r hr q hq hk)
    · rintro (hk | rfl)
      · exact .inl hk
      · exact .inr rfl

/-! ### The ties of a character -/

/-- A character of level `n` is visited, and so many of its ties were followed. -/
structure Visiting (story : Story) (seeds : List String) (n : ℕ) (u : String) (start : Progress)
    (done : List Value) (p : Progress) : Prop where
  record : Record story seeds p fun q =>
    Touched story start.visited q ∨ some q ∈ done.map Value.ends?
  visited : p.visited = .text u :: start.visited
  next : Nearer story seeds (n + 2) p.next
  kept : ∀ v ∈ start.next, v ∈ p.next
  closed : ∀ q, some q ∈ done.map Value.ends? →
    story.distance seeds (Value.otherOf u q) < (n + 1 : ℕ) ∨ .text (Value.otherOf u q) ∈ p.next

/-- The ends of the ties followed so far and of one more. -/
theorem some_mem_append {q r : String × String} {done : List Value} {tie : Value}
    (hq : tie.ends? = some q) :
    some r ∈ (done ++ [tie]).map Value.ends? ↔ some r ∈ done.map Value.ends? ∨ r = q := by
  simp [hq]

theorem linked_otherOf {c : String} {q : String × String} (hq : q ∈ story.ends)
    (h : meets c q = true) : story.Linked c (Value.otherOf c q) := by
  rcases meets_iff.1 h with ⟨hfst, hsnd⟩ | ⟨hfst, hsnd⟩
  · left
    rwa [← hsnd, ← hfst]
  · right
    nth_rewrite 2 [← hsnd]
    rwa [← hfst]

/-- A character is put on the list for the next level unless it was visited or is there. -/
theorem enqueue_ok (p : Progress) (c : String) :
    ∃ p', enqueue p (.text c) = .ok p' ∧ p'.walked = p.walked ∧ p'.seen = p.seen ∧
      p'.visited = p.visited ∧ (∀ v ∈ p.next, v ∈ p'.next) ∧
      (∀ v ∈ p'.next, v ∈ p.next ∨ v = .text c) ∧
      (Value.text c ∈ p.visited ∨ Value.text c ∈ p'.next) := by
  unfold enqueue
  rw [if_neg (by simp [Value.isKey])]
  split
  · next h =>
    rw [Bool.or_eq_true, isAmong_text, isAmong_text] at h
    exact ⟨p, rfl, rfl, rfl, rfl, fun v hv => hv, fun v hv => .inl hv, h⟩
  · exact ⟨_, rfl, rfl, rfl, rfl, fun v hv => List.mem_append_left _ hv,
      fun v hv => by simpa using hv, .inr (by simp)⟩

/-- It is the turn of a character that is as far as the level and was not visited before. -/
structure Turn (story : Story) (seeds : List String) (n : ℕ) (u : String) (start : Progress) :
    Prop where
  level : story.distance seeds u = n
  visited : ∀ c, story.distance seeds c < n → Value.text c ∈ start.visited
  near : ∀ c, Value.text c ∈ start.visited → story.distance seeds c < (n + 1 : ℕ)
  fresh : Value.text u ∉ start.visited

namespace Turn

variable {start : Progress} {done rest : List Value} {tie : Value} {q : String × String}

theorem touched_other (h : Turn story seeds n u start) (hmeets : meets u q = true)
    (hq : q ∈ story.ends) :
    Touched story start.visited q ↔ Value.text (Value.otherOf u q) ∈ start.visited := by
  unfold Touched
  rcases meets_iff.1 hmeets with ⟨hfst, hsnd⟩ | ⟨hfst, hsnd⟩
  · rw [hfst, hsnd]
    simp [hq, h.fresh]
  · rw [hfst, hsnd]
    simp [hq, h.fresh]

/-- A tie with no end that was visited before goes one tie farther than the level. -/
theorem exact (h : Turn story seeds n u start) (hmeets : meets u q = true) (hq : q ∈ story.ends)
    (hfirst : story.firstTie? q = some tie) (hnew : ¬ Touched story start.visited q) :
    Exact story seeds ⟨tie, n + 1⟩ := by
  have hfar : (n : ℕ∞) ≤ story.distance seeds (Value.otherOf u q) := by
    rw [h.touched_other hmeets hq] at hnew
    exact not_lt.1 fun hlt => hnew (h.visited _ hlt)
  refine ⟨q, n, hfirst, ?_, rfl⟩
  rcases meets_iff.1 hmeets with ⟨hfst, hsnd⟩ | ⟨hfst, hsnd⟩
  · rw [hfst, hsnd, h.level, min_eq_left hfar]
  · rw [hfst, hsnd, h.level, min_eq_right hfar]

/-- A tie whose ends are known is passed over. -/
theorem follow_known (ht : Turn story seeds n u start) (hmeets : meets u q = true)
    (hends : q ∈ story.ends) (hq : tie.ends? = some q)
    (hknown : Touched story start.visited q ∨ some q ∈ done.map Value.ends?)
    (h : Visiting story seeds n u start done p) :
    followTie (n + 1) (.text u) p tie = .ok p ∧
      Visiting story seeds n u start (done ++ [tie]) p := by
  have hseen : p.seen.contains (q.1 ++ "->" ++ q.2) = true := by
    simpa using (h.record.seen q hends).2 hknown
  constructor
  · rw [followTie, Value.tieText_eq hq, Outcome.ok_bind, if_pos hseen]
    rfl
  · refine ⟨h.record.congr ?_ rfl rfl, h.visited, h.next, h.kept, ?_⟩
    · intro r
      rw [some_mem_append hq]
      constructor
      · exact fun hr => hr.imp_right .inl
      · rintro (hr | hr | rfl)
        · exact .inl hr
        · exact .inr hr
        · exact hknown
    · intro r hr
      rcases (some_mem_append hq).1 hr with hr | rfl
      · exact h.closed r hr
      · rcases hknown with hknown | hknown
        · exact .inl (ht.near _ ((ht.touched_other hmeets hends).1 hknown))
        · exact h.closed r hknown

/-- A tie with new ends is reached, and its other end is kept for the next level. -/
theorem follow_new (ht : Turn story seeds n u start) (hu : story.Unambiguous)
    (htie : tie.IsTie) (hmeets : meets u q = true) (hends : q ∈ story.ends)
    (hq : tie.ends? = some q) (hfirst : story.firstTie? q = some tie)
    (hnew : ¬ (Touched story start.visited q ∨ some q ∈ done.map Value.ends?))
    (h : Visiting story seeds n u start done p) :
    ∃ p', followTie (n + 1) (.text u) p tie = .ok p' ∧
      Visiting story seeds n u start (done ++ [tie]) p' := by
  have hseen : ¬ p.seen.contains (q.1 ++ "->" ++ q.2) = true := by
    intro hseen
    exact hnew ((h.record.seen q hends).1 (by simpa using hseen))
  have hexact : Exact story seeds ⟨tie, n + 1⟩ :=
    ht.exact hmeets hends hfirst fun htouched => hnew (.inl htouched)
  have hlevel : story.distance seeds u < (n + 1 : ℕ) := by
    rw [ht.level]
    exact Nat.cast_lt.2 (Nat.lt_succ_self n)
  obtain ⟨p', hp', hwalked, hseen', hvisited, hkept, hnext, hqueued⟩ := enqueue_ok
    { p with seen := (q.1 ++ "->" ++ q.2) :: p.seen, walked := p.walked ++ [⟨tie, n + 1⟩] }
    (Value.otherOf u q)
  refine ⟨p', ?_, ?_, hvisited.trans h.visited, ?_, fun v hv => hkept v (h.kept v hv), ?_⟩
  · rw [followTie, Value.tieText_eq hq, Outcome.ok_bind, if_neg hseen, Value.otherEnd_eq htie hq,
      Outcome.ok_bind, hp']
  · refine (h.record.add hu hends hq hnew hexact hwalked hseen').congr ?_ rfl rfl
    intro r
    rw [some_mem_append hq, or_assoc]
  · intro v hv
    rcases hnext v hv with hv | rfl
    · exact h.next v hv
    · exact ⟨_, rfl, distance_lt_of_linked (linked_otherOf hends hmeets) hlevel⟩
  · intro r hr
    rcases (some_mem_append hq).1 hr with hr | rfl
    · exact (h.closed r hr).imp_right fun hv => hkept _ hv
    · rcases hqueued with hv | hv
      · -- visited already: it is the character itself, at a tie with both ends the same, or nearer
        left
        rw [h.visited, List.mem_cons, Value.text.injEq] at hv
        rcases hv with hself | hv
        · rwa [hself]
        · exact ht.near _ hv
      · exact .inr hv

/-- One more tie of the character is followed. -/
theorem follow (ht : Turn story seeds n u start) (hu : story.Unambiguous)
    (hties : ∀ tie ∈ story.ties, tie.IsTie)
    (hall : story.tiesOf u = done ++ tie :: rest)
    (h : Visiting story seeds n u start done p) :
    ∃ p', followTie (n + 1) (.text u) p tie = .ok p' ∧
      Visiting story seeds n u start (done ++ [tie]) p' := by
  have hmem : tie ∈ story.tiesOf u := by
    rw [hall]
    simp
  obtain ⟨q, hq⟩ := (hties tie (List.mem_of_mem_filter hmem)).ends
  obtain ⟨htie, hmeets⟩ := (mem_tiesOf hq).1 hmem
  have hends : q ∈ story.ends := mem_ends.2 ⟨tie, htie, hq⟩
  by_cases hknown : Touched story start.visited q ∨ some q ∈ done.map Value.ends?
  · exact ⟨p, ht.follow_known hmeets hends hq hknown h⟩
  · have hfirst := firstTie?_of_tiesOf hall hq fun hdone => hknown (.inr hdone)
    exact ht.follow_new hu (hties tie htie) hmeets hends hq hfirst hknown h

/-- All ties of the character are followed. -/
theorem followAll (ht : Turn story seeds n u start) (hu : story.Unambiguous)
    (hties : ∀ tie ∈ story.ties, tie.IsTie) :
    ∀ {rest done : List Value} {p : Progress},
      story.tiesOf u = done ++ rest →
      Visiting story seeds n u start done p →
      ∃ p', rest.foldlM (followTie (n + 1) (.text u)) p = .ok p' ∧
        Visiting story seeds n u start (story.tiesOf u) p'
  | [], done, p, hall, h => by
    rw [hall, List.append_nil]
    exact ⟨p, rfl, h⟩
  | tie :: rest, done, p, hall, h => by
    obtain ⟨q, hq, hone⟩ := ht.follow hu hties hall h
    rw [List.foldlM_cons, hq, Outcome.ok_bind]
    exact followAll ht hu hties (by rw [hall, List.append_assoc]; rfl) hone

end Turn

/-! ### The characters of a level -/

/-- A level of the walk is under way, and so many of its characters had their turn. -/
structure Underway (story : Story) (seeds : List String) (n : ℕ) (done : List Value)
    (p : Progress) : Prop where
  record : Record story seeds p (Touched story p.visited)
  visited : ∀ v, v ∈ p.visited ↔
    ∃ c, v = .text c ∧ (story.distance seeds c < n ∨ Value.text c ∈ done)
  near : Nearer story seeds (n + 1) done
  next : Nearer story seeds (n + 2) p.next
  closed : ∀ u, Value.text u ∈ done → ∀ c, story.Linked u c →
    story.distance seeds c < (n + 1 : ℕ) ∨ Value.text c ∈ p.next

namespace Underway

variable {done rest : List Value}

/-- A character that was visited before is passed over. -/
theorem visit_again (h : Underway story seeds n done p)
    (hu : story.distance seeds u < (n + 1 : ℕ)) (hmem : Value.text u ∈ p.visited) :
    Underway story seeds n (done ++ [.text u]) p := by
  obtain ⟨c, hc, hbefore⟩ := (h.visited _).1 hmem
  cases hc
  refine ⟨h.record, ?_, h.near.append hu, h.next, ?_⟩
  · intro v
    rw [h.visited]
    constructor
    · rintro ⟨c, rfl, hc⟩
      exact ⟨c, rfl, hc.imp_right (List.mem_append_left _)⟩
    · rintro ⟨c, rfl, hc⟩
      simp only [List.mem_append, List.mem_singleton, Value.text.injEq] at hc
      rcases hc with hc | hc | rfl
      · exact ⟨c, rfl, .inl hc⟩
      · exact ⟨c, rfl, .inr hc⟩
      · exact ⟨c, rfl, hbefore⟩
  · intro a ha c hlink
    simp only [List.mem_append, List.mem_singleton, Value.text.injEq] at ha
    rcases ha with ha | rfl
    · exact h.closed a ha c hlink
    · rcases hbefore with hlt | hdone
      · exact .inl (distance_lt_of_linked hlink hlt)
      · exact h.closed a hdone c hlink

/-- A character that was not visited before is as far as the level. -/
theorem turn (h : Underway story seeds n done p) (hu : story.distance seeds u < (n + 1 : ℕ))
    (hmem : Value.text u ∉ p.visited) : Turn story seeds n u p := by
  have hfar : ¬ story.distance seeds u < n := fun hlt => hmem ((h.visited _).2 ⟨u, rfl, .inl hlt⟩)
  refine ⟨distance_eq hu hfar, fun c hc => (h.visited _).2 ⟨c, rfl, .inl hc⟩, ?_, hmem⟩
  intro c hc
  obtain ⟨c', hc', hbefore⟩ := (h.visited _).1 hc
  cases hc'
  rcases hbefore with hlt | hdone
  · exact distance_lt_mono (Nat.le_succ n) hlt
  · exact h.near.lt hdone

/-- When all ties of a character were followed, it has had its turn. -/
theorem of_visiting (h : Underway story seeds n done p)
    (hu : story.distance seeds u < (n + 1 : ℕ))
    (hv : Visiting story seeds n u p (story.tiesOf u) p') :
    Underway story seeds n (done ++ [.text u]) p' := by
  refine ⟨hv.record.congr ?_ rfl rfl, ?_, h.near.append hu, hv.next, ?_⟩
  · intro q
    rw [ends_of_tiesOf, hv.visited]
    simp only [Touched, meets, Bool.or_eq_true, beq_iff_eq, List.mem_cons, Value.text.injEq]
    tauto
  · intro v
    rw [hv.visited, List.mem_cons, h.visited]
    constructor
    · rintro (rfl | ⟨c, rfl, hc⟩)
      · exact ⟨u, rfl, .inr (by simp)⟩
      · exact ⟨c, rfl, hc.imp_right (List.mem_append_left _)⟩
    · rintro ⟨c, rfl, hc⟩
      simp only [List.mem_append, List.mem_singleton] at hc
      rcases hc with hc | hc | hc
      · exact .inr ⟨c, rfl, .inl hc⟩
      · exact .inr ⟨c, rfl, .inr hc⟩
      · exact .inl hc
  · intro a ha c hlink
    simp only [List.mem_append, List.mem_singleton, Value.text.injEq] at ha
    rcases ha with ha | rfl
    · exact (h.closed a ha c hlink).imp_right (hv.kept _)
    · rcases hlink with hq | hq
      · have hclosed := hv.closed (a, c) (ends_of_tiesOf.2 ⟨hq, by simp [meets]⟩)
        rwa [Value.otherOf_source] at hclosed
      · have hclosed := hv.closed (c, a) (ends_of_tiesOf.2 ⟨hq, by simp [meets]⟩)
        rwa [Value.otherOf_target] at hclosed

/-- One more character of the level has its turn. -/
theorem visit (hties : ∀ tie ∈ story.ties, tie.IsTie) (hu : story.Unambiguous)
    (h : Underway story seeds n done p) (hnear : story.distance seeds u < (n + 1 : ℕ)) :
    ∃ p', Walk.visit story (n + 1) p (.text u) = .ok p' ∧
      Underway story seeds n (done ++ [.text u]) p' := by
  unfold Walk.visit
  by_cases hmem : Value.text u ∈ p.visited
  · rw [if_pos (isAmong_text.2 hmem)]
    exact ⟨p, rfl, h.visit_again hnear hmem⟩
  · rw [if_neg (fun hamong => hmem (isAmong_text.1 hamong)), relationshipsFor_eq hties,
      Outcome.ok_bind]
    have hstart : Visiting story seeds n u p [] { p with visited := .text u :: p.visited } := by
      refine ⟨h.record.congr ?_ rfl rfl, rfl, h.next, fun v hv => hv, ?_⟩
      · simp
      · simp
    obtain ⟨p', hp', hv⟩ := (h.turn hnear hmem).followAll hu hties rfl hstart
    exact ⟨p', hp', h.of_visiting hnear hv⟩

/-- All characters of the level have their turn. -/
theorem visitAll (hties : ∀ tie ∈ story.ties, tie.IsTie) (hu : story.Unambiguous) :
    ∀ {rest done : List Value} {p : Progress}, Underway story seeds n done p →
      Nearer story seeds (n + 1) rest →
      ∃ p', rest.foldlM (Walk.visit story (n + 1)) p = .ok p' ∧
        Underway story seeds n (done ++ rest) p'
  | [], done, p, h, _ => by
    rw [List.append_nil]
    exact ⟨p, rfl, h⟩
  | v :: rest, done, p, h, hall => by
    obtain ⟨⟨u, rfl, hnear⟩, hrest⟩ := List.forall_mem_cons.1 hall
    obtain ⟨q, hq, hone⟩ := h.visit hties hu hnear
    rw [List.foldlM_cons, hq, Outcome.ok_bind]
    obtain ⟨p', hp', hdone⟩ := visitAll hties hu hone hrest
    exact ⟨p', hp', by rwa [List.append_assoc] at hdone⟩

end Underway

/-! ### The levels -/

/-- Level `n` of the walk is to come, with the characters that it starts from. -/
structure AtLevel (story : Story) (seeds : List String) (n : ℕ) (frontier : List Value)
    (p : Progress) : Prop where
  record : Record story seeds p (Touched story p.visited)
  visited : ∀ v, v ∈ p.visited ↔ ∃ c, v = .text c ∧ story.distance seeds c < n
  near : Nearer story seeds (n + 1) frontier
  reaches : ∀ c, story.distance seeds c < (n + 1 : ℕ) →
    story.distance seeds c < n ∨ Value.text c ∈ frontier

namespace AtLevel

variable {frontier : List Value}

/-- The character before a farther one on the way to it was visited on the level. -/
theorem succ (h : AtLevel story seeds n frontier p) (hu : Underway story seeds n frontier p') :
    AtLevel story seeds (n + 1) p'.next p' := by
  refine ⟨hu.record, ?_, hu.next, ?_⟩
  · intro v
    rw [hu.visited]
    constructor
    · rintro ⟨c, rfl, hlt | hmem⟩
      · exact ⟨c, rfl, distance_lt_mono (Nat.le_succ n) hlt⟩
      · exact ⟨c, rfl, h.near.lt hmem⟩
    · rintro ⟨c, rfl, hlt⟩
      exact ⟨c, rfl, h.reaches c hlt⟩
  · intro c hc
    rcases exists_linked hc with hseed | ⟨a, ha, hlink⟩
    · exact .inl (distance_lt_mono (by omega) (distance_lt_one.2 hseed))
    · rcases h.reaches a ha with hlt | hmem
      · exact .inl (distance_lt_of_linked hlink hlt)
      · exact hu.closed a hmem c hlink

/-- A level is gone through. -/
theorem level (hties : ∀ tie ∈ story.ties, tie.IsTie) (hu : story.Unambiguous)
    (h : AtLevel story seeds n frontier p) :
    ∃ p', Walk.level story (n + 1) p frontier = .ok p' ∧
      AtLevel story seeds (n + 1) p'.next p' := by
  have hstart : Underway story seeds n [] { p with next := [] } := by
    refine ⟨h.record.congr (fun _ => Iff.rfl) rfl rfl, ?_, nearer_nil _, nearer_nil _, by simp⟩
    intro v
    simpa using h.visited v
  obtain ⟨p', hp', hdone⟩ := hstart.visitAll hties hu h.near
  exact ⟨p', hp', h.succ hdone⟩

/-- Where no character is left, no further level would reach anything. -/
theorem stay (h : AtLevel story seeds n [] p) (m : ℕ) : AtLevel story seeds (n + m) [] p := by
  induction m with
  | zero => exact h
  | succ m ih =>
    -- nothing is just as far as the level, so nothing is one tie farther either
    have hsame : ∀ c, story.distance seeds c < (n + m + 1 : ℕ) ↔
        story.distance seeds c < (n + m : ℕ) := by
      intro c
      refine ⟨fun hc => ?_, distance_lt_mono (Nat.le_succ _)⟩
      simpa using ih.reaches c hc
    refine ⟨ih.record, ?_, nearer_nil _, ?_⟩
    · intro v
      rw [ih.visited]
      simp only [← Nat.add_assoc, hsame]
    · intro c hc
      left
      rcases exists_linked hc with hseed | ⟨a, ha, hlink⟩
      · exact distance_lt_mono (by omega) (distance_lt_one.2 hseed)
      · exact distance_lt_of_linked hlink ((hsame a).1 ha)

/-- All levels are gone through, or as many as there are characters for. -/
theorem levels (hties : ∀ tie ∈ story.ties, tie.IsTie) (hu : story.Unambiguous) (hops : ℕ)
    (h : AtLevel story seeds n frontier p) :
    ∃ p' last, Walk.levels story hops (n + 1) p frontier = .ok p' ∧
      AtLevel story seeds (n + hops) last p' := by
  induction hops generalizing n p frontier with
  | zero => exact ⟨p, frontier, rfl, h⟩
  | succ hops ih =>
    unfold Walk.levels
    by_cases hempty : frontier = []
    · subst hempty
      exact ⟨p, [], rfl, h.stay _⟩
    · obtain ⟨q, hq, hlevel⟩ := h.level hties hu
      obtain ⟨p', last, hp', hlast⟩ := ih hlevel
      refine ⟨p', last, ?_, by rwa [Nat.add_right_comm, Nat.add_assoc] at hlast⟩
      rw [if_neg (by simpa using hempty), hq, Outcome.ok_bind, hp']

end AtLevel

/-! ### The whole walk -/

theorem mem_distinct {c : String} {vs : List Value} :
    Value.text c ∈ distinct vs ↔ Value.text c ∈ vs := by
  induction vs with
  | nil => rfl
  | cons v vs ih =>
    simp only [distinct, List.mem_cons, List.mem_filter, ih, Bool.not_eq_true']
    constructor
    · exact fun h => h.imp_right And.left
    · rintro (h | h)
      · exact .inl h
      · by_cases hv : Value.text c = v
        · exact .inl hv
        · refine .inr ⟨h, ?_⟩
          rw [← Bool.not_eq_true, Value.equal_text]
          exact fun heq => hv heq.symm

theorem mem_of_mem_distinct {v : Value} {vs : List Value} (h : v ∈ distinct vs) : v ∈ vs := by
  induction vs with
  | nil => exact h
  | cons w vs ih =>
    rcases List.mem_cons.1 h with rfl | h
    · exact List.mem_cons_self
    · exact List.mem_cons_of_mem _ (ih (List.mem_filter.1 h).1)

/-- Before the first level nothing was visited, and the seeds are those at no distance. -/
theorem atLevel_zero (story : Story) (seeds : List String) :
    AtLevel story seeds 0 (distinct (seeds.map .text)) ⟨[], [], [], []⟩ := by
  refine ⟨⟨by simp, by simp [Touched], by simp, by simp [Touched]⟩, by simp, ?_, ?_⟩
  · intro v hv
    obtain ⟨c, hc, rfl⟩ := List.mem_map.1 (mem_of_mem_distinct hv)
    exact ⟨c, rfl, distance_lt_one.2 hc⟩
  · intro c hc
    right
    rw [mem_distinct, List.mem_map]
    exact ⟨c, distance_lt_one.1 hc, rfl⟩

/-- The ties that a walk reaches are those with an end nearer than its number of hops. -/
theorem reached_record (hties : ∀ tie ∈ story.ties, tie.IsTie) (hu : story.Unambiguous)
    (seeds : List String) (hops : ℕ) :
    ∃ p, reached story (seeds.map .text) hops = .ok p.walked ∧
      Record story seeds p fun q => q ∈ story.ends ∧
        min (story.distance seeds q.1) (story.distance seeds q.2) < hops := by
  obtain ⟨p, last, hp, hlevel⟩ := (atLevel_zero story seeds).levels hties hu hops
  rw [Nat.zero_add] at hlevel
  have hkeys : (seeds.map Value.text).all Value.isKey = true := by simp [Value.isKey]
  refine ⟨p, by rw [reached, hkeys, hp]; rfl, hlevel.record.congr ?_ rfl rfl⟩
  intro q
  simp [Touched, hlevel.visited]

/-- What stands in an exact record is told by the ends of the tie. -/
theorem Record.mem_walked {hops : ℕ} (h : Record story seeds p fun q => q ∈ story.ends ∧
      min (story.distance seeds q.1) (story.distance seeds q.2) < hops) (w : Walked) :
    w ∈ p.walked ↔ ∃ (q : String × String) (d : ℕ), story.firstTie? q = some w.tie ∧
      (d : ℕ∞) = min (story.distance seeds q.1) (story.distance seeds q.2) ∧ d < hops ∧
        w.hop = d + 1 := by
  constructor
  · intro hw
    obtain ⟨q, d, hfirst, hd, hhop⟩ := h.exact w hw
    have hknown := (h.known q).1 (List.mem_map.2 ⟨w, hw, ends?_of_firstTie? hfirst⟩)
    rw [← hd, Nat.cast_lt] at hknown
    exact ⟨q, d, hfirst, hd, hknown.2, hhop⟩
  · rintro ⟨q, d, hfirst, hd, hlt, hhop⟩
    have hq : q ∈ story.ends ∧
        min (story.distance seeds q.1) (story.distance seeds q.2) < hops := by
      rw [← hd, Nat.cast_lt]
      exact ⟨mem_ends_of_firstTie? hfirst, hlt⟩
    obtain ⟨w', hw', hends⟩ := List.mem_map.1 ((h.known q).2 hq)
    obtain ⟨q', d', hfirst', hd', hhop'⟩ := h.exact w' hw'
    obtain rfl : q' = q := by
      rw [ends?_of_firstTie? hfirst'] at hends
      exact Option.some.inj hends
    have htie : w'.tie = w.tie := Option.some.inj (hfirst'.symm.trans hfirst)
    have hsame : d' = d := Nat.cast_injective (hd'.trans hd.symm)
    have heq : w' = w := by
      cases w
      cases w'
      simp_all
    rwa [← heq]

theorem isTie_of_record {Known : String × String → Prop} (hties : ∀ tie ∈ story.ties, tie.IsTie)
    (h : Record story seeds p Known) : ∀ w ∈ p.walked, w.tie.IsTie := by
  intro w hw
  obtain ⟨q, d, hfirst, -, -⟩ := h.exact w hw
  exact hties _ (List.mem_of_find?_eq_some hfirst)

/-- The walk is exact: from the ties of a story that was read, whose texts tell them apart, it
reports just one for each pair of ends the nearer of which is fewer than so many ties away from the
seeds, namely the first with these ends, by the hop that goes one tie farther than that end. -/
theorem walk_exact {document : Value} (h : Story.read document = .ok story)
    (hu : story.Unambiguous) (seeds : List String) (maxHops : ℤ) :
    ∃ result, walk story (seeds.map .text) maxHops.toNat = .ok result ∧
      (result.map fun w => w.tie.ends?).Nodup ∧
      ∀ w, w ∈ result ↔ ∃ (q : String × String) (d : ℕ), story.firstTie? q = some w.tie ∧
        (d : ℕ∞) = min (story.distance seeds q.1) (story.distance seeds q.2) ∧
          (d : ℤ) < maxHops ∧ w.hop = d + 1 := by
  have hties := isTie_of_read h
  obtain ⟨p, hreached, hrecord⟩ := reached_record hties hu seeds maxHops.toNat
  obtain ⟨result, hresult, hperm⟩ := walk_of_reached hreached (isTie_of_record hties hrecord)
  refine ⟨result, hresult, ?_, ?_⟩
  · exact ((hperm.map _).nodup_iff).2 hrecord.unique
  · intro w
    rw [hperm.mem_iff, hrecord.mem_walked]
    simp only [Int.lt_toNat]

/-- A tie in a document, with one weight. -/
def tieDocument (source target : String) (trust : Int) : Value :=
  .mapping [("id", .text source), ("from", .text source), ("to", .text target),
    ("weights", .mapping [("trust", .int trust)])]

/-- The document of a story with opposite and parallel ties, a tie of a character with itself, and
one that is too far. -/
def tiesDocument : Value :=
  .mapping [("relationships", .list [tieDocument "a" "b" 1, tieDocument "b" "a" 2,
    tieDocument "a" "b" 3, tieDocument "c" "b" 4, tieDocument "c" "c" 5, tieDocument "d" "c" 6])]

/-- A walk of two hops from a seed that is given twice and one that is nobody's. -/
theorem walk_exact_two : ∃ story result, Story.read tiesDocument = .ok story ∧
    walk story (["a", "a", "x"].map .text) 2 = .ok result ∧
      (result.map fun w => (w.tie.ends?, w.hop)).Perm
        [(some ("a", "b"), 1), (some ("b", "a"), 1), (some ("c", "b"), 2)] ∧
      ∀ w ∈ result, ∃ (q : String × String) (d : ℕ), story.firstTie? q = some w.tie ∧
        (d : ℕ∞) = min (story.distance ["a", "a", "x"] q.1) (story.distance ["a", "a", "x"] q.2) ∧
          (d : ℤ) < 2 ∧ w.hop = d + 1 := by
  obtain ⟨story, hread, hu, hreport⟩ := Story.exists_read tiesDocument (fun story =>
    story.Unambiguous ∧
      (reached story (["a", "a", "x"].map .text) 2).toOption.map
        (·.map fun w => (w.tie.ends?, w.hop)) =
          some [(some ("a", "b"), 1), (some ("b", "a"), 1), (some ("c", "b"), 2)])
    (by decide +kernel)
  have hties := isTie_of_read hread
  obtain ⟨p, hp, hrecord⟩ := reached_record hties hu ["a", "a", "x"] 2
  obtain ⟨result, hwalk, hperm⟩ := walk_of_reached hp (isTie_of_record hties hrecord)
  obtain ⟨result', hresult, -, hmem⟩ := walk_exact hread hu ["a", "a", "x"] 2
  obtain rfl : result = result' := Except.ok.inj (hwalk.symm.trans hresult)
  rw [hp] at hreport
  have hmap : (p.walked.map fun w => (w.tie.ends?, w.hop)) =
      [(some ("a", "b"), 1), (some ("b", "a"), 1), (some ("c", "b"), 2)] := Option.some.inj hreport
  exact ⟨story, result, hread, hwalk, hmap ▸ hperm.map _, fun w hw => (hmem w).1 hw⟩

end Walk

end StoryWorld
