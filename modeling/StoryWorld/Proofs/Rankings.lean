import StoryWorld.Proofs.Hops

/-!
Sorting by ranks.

A ranking of some items has the lowest ranks first and keeps the order of the items of one rank. It
is what a stable sort gives, by merging or by putting one item after the other behind those of its
rank. Of a ranking by a coarse rank it can be told whether it is one by a finer rank too: just if
the items that only the finer rank tells apart came in its order. The first items of a ranking are
the foremost ones, and no item that is left out is ahead of them.
-/

namespace StoryWorld

/-- A list sorted by ranks, lowest first, with the items of one rank in the order in which they
came. -/
structure Ranking {α β : Type} [LinearOrder β] (rank : α → β) (xs ys : List α) : Prop where
  ascending : ys.Pairwise fun a b => rank a ≤ rank b
  stable : ∀ r, ys.filter (fun a => rank a = r) = xs.filter fun a => rank a = r

/-- The first of some items by their ranks, up to a limit, and those that are left out. -/
structure Foremost {α β : Type} [LinearOrder β] (rank : α → β) (limit : ℕ)
    (xs reported omitted : List α) : Prop where
  ranking : Ranking rank xs (reported ++ omitted)
  count : reported.length = min limit xs.length
  ahead : ∀ a ∈ reported, ∀ b ∈ omitted, rank a ≤ rank b

namespace Ranking

variable {α β γ : Type} [LinearOrder β] [LinearOrder γ] {rank : α → β} {xs ys l r : List α} {a : α}

theorem nil : Ranking rank [] [] := ⟨.nil, fun _ => rfl⟩

open Classical in
theorem perm (h : Ranking rank xs ys) : ys.Perm xs := by
  refine List.perm_iff_count.2 fun a => ?_
  have hcount : ∀ zs : List α,
      (zs.filter fun b => decide (rank b = rank a)).count a = zs.count a :=
    fun zs => List.count_filter (decide_eq_true rfl)
  rw [← hcount, h.stable, hcount]

theorem congr {rank' : α → β} (h : Ranking rank xs ys) (hrank : ∀ a ∈ xs, rank a = rank' a) :
    Ranking rank' xs ys := by
  have hrank' : ∀ a ∈ ys, rank a = rank' a := fun a ha => hrank a (h.perm.mem_iff.1 ha)
  refine ⟨h.ascending.imp_of_mem fun ha hb hab => ?_, fun r => ?_⟩
  · rwa [← hrank' _ ha, ← hrank' _ hb]
  · rw [List.filter_congr fun a ha => by rw [← hrank' a ha], h.stable,
      List.filter_congr fun a ha => by rw [hrank a ha]]

theorem map {δ : Type} {rank : δ → β} {f : α → δ} (h : Ranking (rank ∘ f) xs ys) :
    Ranking rank (xs.map f) (ys.map f) := by
  refine ⟨List.pairwise_map.2 h.ascending, fun r => ?_⟩
  rw [List.filter_map, List.filter_map]
  exact congrArg (List.map f) (h.stable r)

/-! ### Putting in an item -/

theorem ascending_insert (hasc : (l ++ r).Pairwise fun a b => rank a ≤ rank b)
    (hl : ∀ b ∈ l, rank b ≤ rank a) (hr : ∀ b ∈ r, rank a ≤ rank b) :
    (l ++ a :: r).Pairwise fun a b => rank a ≤ rank b := by
  rw [List.pairwise_append] at hasc
  refine List.pairwise_append.2 ⟨hasc.1, List.pairwise_cons.2 ⟨hr, hasc.2.1⟩, fun b hb c hc => ?_⟩
  rcases List.mem_cons.1 hc with rfl | hc
  · exact hl b hb
  · exact hasc.2.2 b hb c hc

/-- An item put in before those of its rank is one that came before them. -/
theorem insert_ahead (h : Ranking rank xs (l ++ r)) (hl : ∀ b ∈ l, rank b < rank a)
    (hr : ∀ b ∈ r, rank a ≤ rank b) : Ranking rank (a :: xs) (l ++ a :: r) := by
  refine ⟨ascending_insert h.ascending (fun b hb => (hl b hb).le) hr, fun s => ?_⟩
  have hstable := h.stable s
  rw [List.filter_append] at hstable
  rw [List.filter_append, List.filter_cons, List.filter_cons, ← hstable]
  by_cases hs : rank a = s
  · have hnone : (l.filter fun b => decide (rank b = s)) = [] :=
      List.filter_eq_nil_iff.2 fun b hb => by simpa [← hs] using (hl b hb).ne
    simp [hs, hnone]
  · simp [hs]

/-- One put in behind those of its rank is one that came after them. -/
theorem insert_behind (h : Ranking rank xs (l ++ r)) (hl : ∀ b ∈ l, rank b ≤ rank a)
    (hr : ∀ b ∈ r, rank a < rank b) : Ranking rank (xs ++ [a]) (l ++ a :: r) := by
  refine ⟨ascending_insert h.ascending hl fun b hb => (hr b hb).le, fun s => ?_⟩
  have hstable := h.stable s
  rw [List.filter_append] at hstable
  rw [List.filter_append, List.filter_append, List.filter_cons, ← hstable]
  by_cases hs : rank a = s
  · have hnone : (r.filter fun b => decide (rank b = s)) = [] :=
      List.filter_eq_nil_iff.2 fun b hb => by simpa [← hs] using (hr b hb).ne'
    simp [hs, hnone]
  · simp [hs]

/-- A merge sort ranks. -/
theorem mergeSort (rank : α → β) :
    ∀ xs : List α, Ranking rank xs (xs.mergeSort fun a b => decide (rank a ≤ rank b))
  | [] => by
    rw [List.mergeSort_nil]
    exact nil
  | a :: xs => by
    have htrans : ∀ a b c : α, decide (rank a ≤ rank b) = true → decide (rank b ≤ rank c) = true →
        decide (rank a ≤ rank c) = true := fun a b c hab hbc =>
      decide_eq_true ((of_decide_eq_true hab).trans (of_decide_eq_true hbc))
    have htotal : ∀ a b : α, (decide (rank a ≤ rank b) || decide (rank b ≤ rank a)) = true :=
      fun a b => by simpa using le_total (rank a) (rank b)
    obtain ⟨l, r, hcons, htail, hbefore⟩ := List.mergeSort_cons htrans htotal a xs
    have hrest := mergeSort rank xs
    have hsorted := List.pairwise_mergeSort htrans htotal (a :: xs)
    rw [hcons, List.pairwise_append, List.pairwise_cons] at hsorted
    rw [htail] at hrest
    rw [hcons]
    exact hrest.insert_ahead (fun b hb => by simpa using hbefore b hb)
      fun b hb => of_decide_eq_true (hsorted.2.1.1 b hb)

/-! ### Finer ranks -/

/-- A ranking by a coarse rank is one by a finer rank just if items that only the finer one tells
apart came in its order. -/
theorem refine_iff {place : α → γ} {coarse : γ → β} (hmono : Monotone coarse)
    (h : Ranking (coarse ∘ place) xs ys) : Ranking place xs ys ↔
      xs.Pairwise fun a b => coarse (place a) = coarse (place b) → place a ≤ place b := by
  -- Two items of one coarse rank stand in one order in both lists.
  have hsame : ∀ {a b : α}, coarse (place a) = coarse (place b) →
      (List.Sublist [a, b] ys ↔ List.Sublist [a, b] xs) := by
    intro a b hab
    have hpair : ∀ zs : List α, List.Sublist [a, b] zs ↔
        List.Sublist [a, b] (zs.filter fun c => (coarse ∘ place) c = coarse (place a)) := by
      intro zs
      refine ⟨fun hsub => ?_, fun hsub => hsub.trans List.filter_sublist⟩
      have hfilter := hsub.filter fun c => decide ((coarse ∘ place) c = coarse (place a))
      simpa [hab] using hfilter
    rw [hpair ys, hpair xs, h.stable]
  constructor
  · intro hfine
    refine List.pairwise_iff_forall_sublist.2 fun hsub hab => ?_
    exact List.pairwise_iff_forall_sublist.1 hfine.ascending ((hsame hab).2 hsub)
  · intro hcame
    refine ⟨List.pairwise_iff_forall_sublist.2 fun {a b} hsub => ?_, fun s => ?_⟩
    · rcases (List.pairwise_iff_forall_sublist.1 h.ascending hsub).lt_or_eq with hlt | heq
      · exact (lt_of_not_ge fun hle => hlt.not_ge (hmono hle)).le
      · exact List.pairwise_iff_forall_sublist.1 hcame ((hsame heq).1 hsub) heq
    · have hwithin : ∀ zs : List α, (zs.filter fun a => decide (place a = s)) =
          (zs.filter fun a => (coarse ∘ place) a = coarse s).filter fun a => place a = s := by
        intro zs
        rw [List.filter_filter]
        refine List.filter_congr fun a _ => ?_
        by_cases hs : place a = s <;> simp [hs]
      rw [hwithin ys, h.stable, ← hwithin xs]

/-! ### The first items -/

theorem take_foremost (h : Ranking rank xs ys) (limit : ℕ) :
    Foremost rank limit xs (ys.take limit) (ys.drop limit) := by
  have hsplit : ys.take limit ++ ys.drop limit = ys := List.take_append_drop limit ys
  refine ⟨by rwa [hsplit], by rw [List.length_take, h.perm.length_eq], fun a ha b hb => ?_⟩
  have hascending := h.ascending
  rw [← hsplit, List.pairwise_append] at hascending
  exact hascending.2.2 a ha b hb

end Ranking

end StoryWorld
