import StoryWorld.Proofs.Views

/-!
What a scene is told depends on the neighbourhood of its participants only.

Two stories may differ as they like in the ties whose ends are both too far from the participants,
in other characters, in secrets that no participant has to do with, and in holdings of others. A
walk of so many hops goes through both in step: as long as it goes on, the characters of a level are
near enough in either story that all their ties are among those that the stories share, so the same
ties are reached, and the same characters stand in the next level. What else a scene is told is
selected by the participants themselves.
-/

namespace StoryWorld

namespace Story

open Classical in
/-- The ties with an end that is fewer than so many ties away from some characters. -/
noncomputable def tiesWithin (story : Story) (seeds : List String) (bound : ℕ) : List Value :=
  story.ties.filter fun tie => tie.ends?.any fun q =>
    decide (story.distance seeds q.1 < bound) || decide (story.distance seeds q.2 < bound)

/-- Two stories that are the same around some participants, as far as walks of so many hops go. -/
structure AlikeAround (s t : Story) (participants : List String) (hops : ℕ) : Prop where
  ties : s.tiesWithin participants hops = t.tiesWithin participants hops
  characters : ∀ c ∈ participants, s.character? (.text c) = t.character? (.text c)
  secrets : s.secrets.items.filter (Subgraph.concerns (participants.map .text)) =
    t.secrets.items.filter (Subgraph.concerns (participants.map .text))
  networks : (s.assets.field "networks").items.filter (Subgraph.isOwned (participants.map .text)) =
    (t.assets.field "networks").items.filter (Subgraph.isOwned (participants.map .text))
  offices : (s.assets.field "offices").items.filter (Subgraph.isOwned (participants.map .text)) =
    (t.assets.field "offices").items.filter (Subgraph.isOwned (participants.map .text))
  contracts : (s.assets.field "contracts").items.filter
      (Subgraph.lists (participants.map .text) "stakeholders") =
    (t.assets.field "contracts").items.filter
      (Subgraph.lists (participants.map .text) "stakeholders")

/-- Only the ends that are given are at no distance. -/
theorem tiesWithin_one (story : Story) (seeds : List String) :
    story.tiesWithin seeds 1 = story.ties.filter fun tie =>
      tie.ends?.any fun q => seeds.contains q.1 || seeds.contains q.2 := by
  refine List.filter_congr fun tie _ => ?_
  cases tie.ends? with
  | none => rfl
  | some q => simp only [Option.any_some, distance_lt_one, List.contains_eq_mem]

/-- What two documents give alike is the same of the stories that they are read as. -/
theorem eq_of_read {α : Type} {f : Story → α} {document document' : Value} {s t : Story}
    (hs : read document = .ok s) (ht : read document' = .ok t)
    (h : (read document).map f = (read document').map f) : f s = f t := by
  rw [hs, ht] at h
  exact Except.ok.inj h

/-- The ties of a character that is near are among the ties that are. -/
theorem tiesOf_eq_of_near {story : Story} {seeds : List String} {bound : ℕ} {u : String}
    (hu : story.distance seeds u < bound) :
    story.tiesOf u = (story.tiesWithin seeds bound).filter fun tie => tie.ends?.any (meets u) := by
  rw [tiesOf, tiesWithin, List.filter_filter]
  refine List.filter_congr fun tie _ => ?_
  cases tie.ends? with
  | none => rfl
  | some q =>
    rw [Option.any_some, Option.any_some]
    cases hmeets : meets u q with
    | false => rfl
    | true =>
      rw [meets, Bool.or_eq_true, beq_iff_eq, beq_iff_eq] at hmeets
      rcases hmeets with hq | hq
      · rw [hq, decide_eq_true hu]
        rfl
      · rw [hq, decide_eq_true hu, Bool.or_true]
        rfl

end Story

namespace Walk

open Story

variable {s t : Story} {seeds : List String} {bound n hop : ℕ} {frontier : List Value}

theorem Nearer.mono {story : Story} {m : ℕ} {vs : List Value} (h : Nearer story seeds n vs)
    (hnm : n ≤ m) : Nearer story seeds m vs := by
  intro v hv
  obtain ⟨c, rfl, hc⟩ := h v hv
  exact ⟨c, rfl, distance_lt_mono hnm hc⟩

/-- A level leads to characters that are one tie farther at most. -/
theorem nearer_of_level {story : Story} (hties : ∀ tie ∈ story.ties, tie.IsTie) (hop : ℕ)
    (hnear : Nearer story seeds n frontier) (p : Progress) :
    ∃ q, level story hop p frontier = .ok q ∧ Nearer story seeds (n + 1) q.next := by
  have hfrontier : ∀ v ∈ frontier, ∃ u ∈ {u | story.distance seeds u < n}, v = .text u := by
    intro v hv
    obtain ⟨u, rfl, hu⟩ := hnear v hv
    exact ⟨u, hu, rfl⟩
  obtain ⟨q, hq, hgrows⟩ := level_grows hties hop hfrontier p
  refine ⟨q, hq, fun v hv => ?_⟩
  rcases hgrows.next v hv with hv | ⟨u, hu, c, rfl, hlinked⟩
  · cases hv
  · exact ⟨c, rfl, distance_lt_of_linked hlinked hu⟩

section Alike

variable (hs : ∀ tie ∈ s.ties, tie.IsTie) (ht : ∀ tie ∈ t.ties, tie.IsTie)
  (halike : s.tiesWithin seeds bound = t.tiesWithin seeds bound)
include hs ht halike

/-- A character that is near in both stories has the same ties in both. -/
theorem visit_alike {u : String} (hu : s.distance seeds u < bound)
    (hu' : t.distance seeds u < bound) (p : Progress) :
    visit s hop p (.text u) = visit t hop p (.text u) := by
  rw [visit, visit, relationshipsFor_eq hs, relationshipsFor_eq ht, tiesOf_eq_of_near hu,
    tiesOf_eq_of_near hu', halike]

theorem visitAll_alike : ∀ {vs : List Value}, Nearer s seeds bound vs → Nearer t seeds bound vs →
    ∀ p, vs.foldlM (visit s hop) p = vs.foldlM (visit t hop) p
  | [], _, _, _ => rfl
  | v :: vs, hnear, hnear', p => by
    obtain ⟨⟨u, rfl, hu⟩, hrest⟩ := List.forall_mem_cons.1 hnear
    obtain ⟨-, hrest'⟩ := List.forall_mem_cons.1 hnear'
    have hu' := hnear'.lt List.mem_cons_self
    rw [List.foldlM_cons, List.foldlM_cons, visit_alike hs ht halike hu hu']
    exact bind_congr fun q => visitAll_alike hrest hrest' q

/-- The levels of a walk go through both stories in step, as long as they stay near. -/
theorem levels_alike (hops : ℕ) (hbound : n + hops ≤ bound)
    (hnear : Nearer s seeds (n + 1) frontier) (hnear' : Nearer t seeds (n + 1) frontier)
    (p : Progress) : levels s hops hop p frontier = levels t hops hop p frontier := by
  induction hops generalizing n hop frontier p with
  | zero => rfl
  | succ hops ih =>
    rw [levels, levels]
    split
    · rfl
    · have hlevel : level s hop p frontier = level t hop p frontier :=
        visitAll_alike hs ht halike (hnear.mono (by omega)) (hnear'.mono (by omega)) _
      obtain ⟨q, hq, hnext⟩ := nearer_of_level hs hop hnear p
      obtain ⟨q', hq', hnext'⟩ := nearer_of_level ht hop hnear' p
      obtain rfl : q = q' := Except.ok.inj (hq.symm.trans (hlevel.trans hq'))
      rw [hq, hq', Outcome.ok_bind, Outcome.ok_bind]
      exact ih (by omega) hnext hnext' q

end Alike

/-- A walk reports the same ties of both stories. -/
theorem walk_alike (hs : ∀ tie ∈ s.ties, tie.IsTie) (ht : ∀ tie ∈ t.ties, tie.IsTie) {hops : ℕ}
    (halike : s.tiesWithin seeds hops = t.tiesWithin seeds hops) :
    walk s (seeds.map .text) hops = walk t (seeds.map .text) hops := by
  have hreached : reached s (seeds.map .text) hops = reached t (seeds.map .text) hops := by
    rw [reached_eq, reached_eq, levels_alike hs ht halike hops (Nat.zero_add hops).le
      (atLevel_zero s seeds).near (atLevel_zero t seeds).near]
  rw [walk, walk, hreached]

end Walk

namespace Subgraph

variable {s t : Story}

theorem beliefViews_alike (limits : Limits) : ∀ {ids : List String},
    (∀ c ∈ ids, s.character? (.text c) = t.character? (.text c)) →
      beliefViews s limits (ids.map .text) = beliefViews t limits (ids.map .text)
  | [], _ => rfl
  | id :: ids, h => by
    obtain ⟨hid, hrest⟩ := List.forall_mem_cons.1 h
    rw [List.map_cons, beliefViews, beliefViews, hid, beliefViews_alike limits hrest]

/-- What a scene is told is bounded by what its participants have to do with: of two stories that
were read and are alike around them, the same is extracted, whatever else the stories hold. -/
theorem extract_bounded {document document' : Value} (hd : document.isDocument = true)
    (hs : Story.read document = .ok s) (hd' : document'.isDocument = true)
    (ht : Story.read document' = .ok t) (participants : List String) (limits : Limits)
    (h : s.AlikeAround t participants limits.hops) :
    ∃ g, extract s (participants.map .text) limits = .ok g ∧
      extract t (participants.map .text) limits = .ok g := by
  have hread := Story.entities_of_typed (Story.typed_of_read hd hs)
  have hread' := Story.entities_of_typed (Story.typed_of_read hd' ht)
  have hwalk := Walk.walk_alike (Story.isTie_of_read hs) (Story.isTie_of_read ht) h.ties
  have hassets : assetViews s (participants.map .text) = assetViews t (participants.map .text) := by
    rw [(assetViews_eq hread).1, (assetViews_eq hread').1, h.networks, h.offices, h.contracts]
  have hbeliefs := beliefViews_alike limits h.characters
  have hsecrets : secretViews s (participants.map .text) limits =
      secretViews t (participants.map .text) limits := by
    rw [secretViews, secretViews, selectItems_isCandidate hread, selectItems_isCandidate hread',
      h.secrets]
  obtain ⟨g, hg⟩ := extract_ok hd hs participants limits
  refine ⟨g, hg, ?_⟩
  rw [← hg, extract, extract, hwalk, hassets, hbeliefs, hsecrets]

/-- The document of a story with a belief, a tie, a secret and a network of one character, beside
another character with what it holds and with further ties. -/
def aroundDocument (other : String) (ties : List Value) : Value :=
  .mapping [("characters", .list [.mapping [("id", .text other)], .mapping [("id", .text "a"),
      ("bdi", .mapping [("beliefs", .list [.mapping [("text", .text "all is well")]])])]]),
    ("relationships", .list (Walk.tieDocument "a" "b" 5 :: ties)),
    ("secrets", .list [.mapping [("id", .text "s"), ("holders", .list [.text other])],
      .mapping [("id", .text "t"), ("holders", .list [.text "a"])]]),
    ("assets", .mapping [("networks", .list [.mapping [("id", .text "n"), ("owner", .text other)],
      .mapping [("id", .text "m"), ("owner", .text "a")]])])]

/-- Two stories with other ties, characters, secrets and networks beside one that they share. -/
theorem extract_bounded_one : ∃ s t g,
    Story.read (aroundDocument "c" [Walk.tieDocument "b" "c" 1]) = .ok s ∧
    Story.read (aroundDocument "d" [Walk.tieDocument "d" "b" 2, Walk.tieDocument "d" "d" 3]) =
      .ok t ∧
    s.ties.length ≠ t.ties.length ∧
    extract s (["a"].map .text) ⟨1, 15, 5, 3, false⟩ = .ok g ∧
    extract t (["a"].map .text) ⟨1, 15, 5, 3, false⟩ = .ok g := by
  obtain ⟨s, hs, hlength⟩ := Story.exists_read (aroundDocument "c" [Walk.tieDocument "b" "c" 1])
    (fun s => s.ties.length = 2) (by decide +kernel)
  obtain ⟨t, ht, hlength'⟩ := Story.exists_read
    (aroundDocument "d" [Walk.tieDocument "d" "b" 2, Walk.tieDocument "d" "d" 3])
    (fun t => t.ties.length = 3) (by decide +kernel)
  have halike : s.AlikeAround t ["a"] 1 := by
    constructor
    case ties =>
      rw [Story.tiesWithin_one, Story.tiesWithin_one]
      refine Story.eq_of_read (f := fun s => s.ties.filter fun tie =>
        tie.ends?.any fun q => ["a"].contains q.1 || ["a"].contains q.2) hs ht ?_
      with_unfolding_all rfl
    case characters =>
      intro c hc
      obtain rfl := List.mem_singleton.1 hc
      refine Story.eq_of_read (f := fun s => s.character? (.text "a")) hs ht ?_
      with_unfolding_all rfl
    case secrets =>
      refine Story.eq_of_read (f := fun s => s.secrets.items.filter (concerns _)) hs ht ?_
      with_unfolding_all rfl
    case networks =>
      refine Story.eq_of_read (f := fun s =>
        (s.assets.field "networks").items.filter (isOwned _)) hs ht ?_
      with_unfolding_all rfl
    case offices => exact Story.eq_of_read (f := fun s =>
      (s.assets.field "offices").items.filter (isOwned _)) hs ht rfl
    case contracts => exact Story.eq_of_read (f := fun s =>
      (s.assets.field "contracts").items.filter (lists _ "stakeholders")) hs ht rfl
  obtain ⟨g, hg, hg'⟩ := extract_bounded (by decide +kernel) hs (by decide +kernel) ht ["a"]
    ⟨1, 15, 5, 3, false⟩ halike
  exact ⟨s, t, g, hs, ht, by rw [hlength, hlength']; decide, hg, hg'⟩

end Subgraph

end StoryWorld
