import Mathlib.Combinatorics.SimpleGraph.Metric
import StoryWorld.Proofs.Ties

/-!
How far the characters of a story are from some of them, counted in ties.

The ties make the characters a graph, whichever way they go. What is nearer than a bound is either
a seed or linked to something nearer by one, and what is linked to something near is farther by one
at most; a walk in levels needs no more than that.
-/

namespace StoryWorld

namespace Story

variable {story : Story} {seeds : List String} {a c : String} {n : ℕ}

/-- Two characters with a tie between them, in either direction. -/
def Linked (story : Story) (a b : String) : Prop := (a, b) ∈ story.ends ∨ (b, a) ∈ story.ends

/-- The characters as a graph, with an edge for each tie between two of them. -/
def tieGraph (story : Story) : SimpleGraph String :=
  SimpleGraph.fromRel fun a b => (a, b) ∈ story.ends

/-- The least number of ties that lead from one of the seeds to a character. -/
noncomputable def distance (story : Story) (seeds : List String) (c : String) : ℕ∞ :=
  ⨅ s ∈ seeds, story.tieGraph.edist s c

theorem distance_lt_iff :
    story.distance seeds c < n ↔ ∃ s ∈ seeds, ∃ w : story.tieGraph.Walk s c, w.length < n := by
  simp only [distance, SimpleGraph.edist, iInf_lt_iff, Nat.cast_lt, exists_prop]

theorem distance_lt_one : story.distance seeds c < (1 : ℕ) ↔ c ∈ seeds := by
  rw [distance_lt_iff]
  constructor
  · rintro ⟨s, hs, w, hw⟩
    rwa [← SimpleGraph.Walk.eq_of_length_eq_zero (Nat.lt_one_iff.1 hw)]
  · intro hc
    exact ⟨c, hc, .nil, by simp⟩

theorem distance_lt_mono {m : ℕ} (hmn : m ≤ n) (h : story.distance seeds c < m) :
    story.distance seeds c < n :=
  lt_of_lt_of_le h (Nat.cast_le.2 hmn)

/-- The other end of a tie is at most one tie farther. -/
theorem distance_lt_of_linked (hl : story.Linked a c) (h : story.distance seeds a < n) :
    story.distance seeds c < (n + 1 : ℕ) := by
  by_cases hac : a = c
  · subst hac
    exact distance_lt_mono (Nat.le_succ n) h
  · obtain ⟨s, hs, w, hw⟩ := distance_lt_iff.1 h
    have hadj : story.tieGraph.Adj a c := (SimpleGraph.fromRel_adj _ _ _).2 ⟨hac, hl⟩
    refine distance_lt_iff.2 ⟨s, hs, w.concat hadj, ?_⟩
    rw [SimpleGraph.Walk.length_concat]
    omega

/-- What is no seed is reached from something nearer. -/
theorem exists_linked (h : story.distance seeds c < (n + 1 : ℕ)) :
    c ∈ seeds ∨ ∃ a, story.distance seeds a < n ∧ story.Linked a c := by
  obtain ⟨s, hs, w, hw⟩ := distance_lt_iff.1 h
  rw [← w.length_reverse] at hw
  cases hrev : w.reverse with
  | nil => exact .inl hs
  | @cons _ a _ hadj w' =>
    rw [hrev, SimpleGraph.Walk.length_cons] at hw
    refine .inr ⟨a, distance_lt_iff.2 ⟨s, hs, w'.reverse, ?_⟩, ?_⟩
    · rw [SimpleGraph.Walk.length_reverse]
      omega
    · exact (((SimpleGraph.fromRel_adj _ _ _).1 hadj).2).symm

theorem distance_eq (h : story.distance seeds c < (n + 1 : ℕ))
    (hn : ¬ story.distance seeds c < n) : story.distance seeds c = n := by
  rw [Nat.cast_add, Nat.cast_one, ENat.lt_add_one_iff (ENat.natCast_ne_top n)] at h
  exact le_antisymm h (not_lt.1 hn)

end Story

end StoryWorld
