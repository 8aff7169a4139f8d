import StoryWorld.Proofs.Views

/-!
Participants that are named more than once.

The walk starts from every participant once, and secrets and holdings are told of by whether one of
their ids is among the participants; so repeating a participant changes nothing about the ties, the
secrets and the holdings that a scene is told of. Beliefs are told of one participant after the
other, and those of a participant that is repeated are told again each time. The limit holds for the
beliefs that a participant tells at once.
-/

namespace StoryWorld

/-! ### Each item once -/

section Once

variable {α β : Type} [BEq α] [LawfulBEq α] {x : α} {f : α → List β}

theorem nodup_eraseDups : ∀ xs : List α, xs.eraseDups.Nodup
  | [] => List.nodup_nil
  | x :: xs => by
    rw [List.eraseDups_cons, List.nodup_cons, List.mem_eraseDups]
    exact ⟨by simp, nodup_eraseDups _⟩
  termination_by xs => xs.length
  decreasing_by exact Nat.lt_succ_of_le (List.length_filter_le _ _)

theorem eraseDups_of_nodup : ∀ {xs : List α}, xs.Nodup → xs.eraseDups = xs
  | [], _ => rfl
  | x :: xs, h => by
    rw [List.nodup_cons] at h
    have hrest : (xs.filter fun y => !y == x) = xs :=
      List.filter_eq_self.2 fun y hy => by
        simpa using fun heq : y = x => h.1 (heq ▸ hy)
    rw [List.eraseDups_cons, hrest, eraseDups_of_nodup h.2]

/-- Items can be left out before or after. -/
theorem eraseDups_filter (p : α → Bool) :
    ∀ xs : List α, (xs.filter p).eraseDups = xs.eraseDups.filter p
  | [] => rfl
  | x :: xs => by
    have hrest := eraseDups_filter p (xs.filter fun y => !y == x)
    rw [List.filter_filter] at hrest
    rw [List.eraseDups_cons, List.filter_cons, List.filter_cons, ← hrest]
    cases hx : p x with
    | true =>
      rw [if_pos rfl, if_pos rfl, List.eraseDups_cons, List.filter_filter]
      simp only [Bool.and_comm]
    | false =>
      rw [if_neg Bool.false_ne_true, if_neg Bool.false_ne_true]
      congr 1
      refine List.filter_congr fun y _ => ?_
      by_cases hy : y = x <;> simp [hy, hx]
  termination_by xs => xs.length
  decreasing_by exact Nat.lt_succ_of_le (List.length_filter_le _ _)

/-- Each item counts once among them. -/
theorem count_eraseDups (x : α) (xs : List α) :
    xs.eraseDups.count x = if x ∈ xs then 1 else 0 := by
  rw [(nodup_eraseDups xs).count]
  simp only [List.mem_eraseDups]

omit [BEq α] [LawfulBEq α] in
/-- Items that contribute nothing can be left out. -/
theorem flatMap_filter_of_nil {p : α → Bool} {xs : List α}
    (h : ∀ y ∈ xs, p y = false → f y = []) : (xs.filter p).flatMap f = xs.flatMap f := by
  induction xs with
  | nil => rfl
  | cons y xs ih =>
    rw [List.forall_mem_cons] at h
    rw [List.filter_cons, List.flatMap_cons, ← ih h.2]
    cases hp : p y with
    | true => rfl
    | false => rw [h.1 hp]; rfl

/-- What all items contribute is what each contributes once, if repeated ones contribute nothing. -/
theorem flatMap_eraseDups : ∀ {xs : List α}, (∀ x, 1 < xs.count x → f x = []) →
    xs.eraseDups.flatMap f = xs.flatMap f
  | [], _ => rfl
  | x :: xs, h => by
    have hfew : ∀ y, 1 < (xs.filter fun z => !z == x).count y → f y = [] := fun y hy =>
      h y (hy.trans_le ((List.filter_sublist.trans (List.sublist_cons_self x xs)).count_le y))
    have hnone : ∀ y ∈ xs, (!y == x) = false → f y = [] := by
      intro y hy hsame
      obtain rfl : y = x := by simpa using hsame
      refine h y ?_
      rw [List.count_cons_self]
      exact Nat.succ_lt_succ (List.count_pos_iff.2 hy)
    rw [List.eraseDups_cons, List.flatMap_cons, List.flatMap_cons, flatMap_eraseDups hfew,
      flatMap_filter_of_nil hnone]
  termination_by xs => xs.length
  decreasing_by exact Nat.lt_succ_of_le (List.length_filter_le _ _)

end Once

/-! ### The walk -/

namespace Walk

theorem distinct_texts : ∀ ids : List String, distinct (ids.map .text) = ids.eraseDups.map .text
  | [] => rfl
  | id :: ids => by
    rw [List.map_cons, distinct, distinct_texts ids, List.eraseDups_cons, eraseDups_filter,
      List.map_cons, List.filter_map]
    simp [Function.comp_def, Value.equal, beq_eq_decide]

/-- A walk starts from each of its seeds once. -/
theorem walk_eraseDups (story : Story) (ids : List String) (hops : ℕ) :
    walk story (ids.eraseDups.map .text) hops = walk story (ids.map .text) hops := by
  rw [walk, walk, reached_eq, reached_eq, distinct_texts, distinct_texts,
    eraseDups_of_nodup (nodup_eraseDups ids)]

theorem isAmong_eraseDups (v : Value) (ids : List String) :
    isAmong v (ids.eraseDups.map .text) = isAmong v (ids.map .text) := by
  rw [isAmong, isAmong, Bool.eq_iff_iff]
  simp only [List.any_map, List.any_eq_true, List.mem_eraseDups]

end Walk

/-! ### What is told by who is among the participants -/

namespace Subgraph

theorem viewsOf_congr {view : Viewer} {participants others : List Value}
    (h : view participants = view others) :
    ∀ items, viewsOf view participants items = viewsOf view others items
  | [] => rfl
  | item :: items => by rw [viewsOf, viewsOf, h, viewsOf_congr h items]

section Among

variable {participants others : List Value}
  (h : ∀ v, Walk.isAmong v participants = Walk.isAmong v others)
include h

theorem meets_congr (ids : Value) : meets participants ids = meets others ids := by
  simp only [meets, h]

theorem involves_congr (secret : Value) : involves participants secret = involves others secret := by
  simp only [involves, meets_congr h]

/-- The secrets that a scene is told of depend on who is among the participants. -/
theorem secretViews_congr (story : Story) (limits : Limits) :
    secretViews story participants limits = secretViews story others limits := by
  have hcandidate : isCandidate participants limits = isCandidate others limits := by
    funext secret
    simp only [isCandidate, involves_congr h]
  rw [secretViews, secretViews, hcandidate]

/-- So do the holdings. -/
theorem assetViews_congr (story : Story) :
    assetViews story participants = assetViews story others := by
  have hnetworks : networkView participants = networkView others := by
    funext network
    simp only [networkView, isParticipant, h]
  have hoffices : officeView participants = officeView others := by
    funext office
    simp only [officeView, isParticipant, h]
  have hcontracts : contractView participants = contractView others := by
    funext contract
    simp only [contractView, meets_congr h]
  simp only [assetViews, viewsOf_congr hnetworks, viewsOf_congr hoffices, viewsOf_congr hcontracts]

end Among

/-! ### The beliefs of each participant -/

theorem holder_of_beliefView {id : String} {belief view : Value}
    (h : beliefView (.text id) belief = .ok view) : view.field "holder" = .text id := by
  obtain ⟨text, -, h⟩ := Outcome.bind_ok.1 h
  cases text with
  | text s =>
    cases h
    rfl
  | _ => cases h

/-- The strongest beliefs of a character are no more than the limit, and tell their holder. -/
theorem few_of_beliefsOf {id : String} {character : Value} {limits : Limits} {own : List Value}
    (h : beliefsOf (.text id) character limits = .ok own) :
    own.length ≤ limits.beliefs ∧ ∀ belief ∈ own, belief.field "holder" = .text id := by
  obtain ⟨mind, -, h⟩ := Outcome.bind_ok.1 h
  obtain ⟨all, -, h⟩ := Outcome.bind_ok.1 h
  obtain ⟨beliefs, -, h⟩ := Outcome.bind_ok.1 h
  obtain ⟨keyed, -, h⟩ := Outcome.bind_ok.1 h
  obtain ⟨sorted, -, h⟩ := Outcome.bind_ok.1 h
  refine ⟨?_, fun belief hb => ?_⟩
  · rw [← (Outcome.forall₂_of_mapM h).length_eq]
    exact List.length_take_le _ _
  · obtain ⟨source, -, hview⟩ := Outcome.mem_of_mapM h belief hb
    exact holder_of_beliefView hview

theorem Tells.few {story : Story} {limits : Limits} {id : String} {own : List Value}
    (h : Tells story limits id own) :
    own.length ≤ limits.beliefs ∧ ∀ belief ∈ own, belief.field "holder" = .text id := by
  obtain ⟨found, -, htells⟩ := h
  cases found with
  | none =>
    obtain rfl : own = [] := htells
    exact ⟨Nat.zero_le _, by simp⟩
  | some character => exact few_of_beliefsOf htells.2

/-- Of how many beliefs of a holder a scene is told. -/
def heldBy (g : Subgraph) (id : String) : ℕ :=
  g.beliefs.countP fun belief => (belief.field "holder").equal (.text id)

/-- Every time that a participant is named it tells all of its beliefs again. -/
theorem countP_told {told : String → List Value}
    (hheld : ∀ id, ∀ belief ∈ told id, belief.field "holder" = .text id) (id : String)
    (ids : List String) :
    (ids.flatMap told).countP (fun belief => (belief.field "holder").equal (.text id)) =
      ids.count id * (told id).length := by
  induction ids with
  | nil => rw [List.count_nil, Nat.zero_mul, List.flatMap_nil, List.countP_nil]
  | cons other ids ih =>
    rw [List.flatMap_cons, List.countP_append, ih]
    by_cases hother : other = id
    · subst hother
      have hall : (told other).countP (fun belief => (belief.field "holder").equal (.text other)) =
          (told other).length :=
        List.countP_eq_length.2 fun belief hb => by
          rw [hheld other belief hb]
          exact Value.equal_text.2 rfl
      rw [hall, List.count_cons_self]
      ring
    · have hnone : (told other).countP (fun belief => (belief.field "holder").equal (.text id)) =
          0 :=
        List.countP_eq_zero.2 fun belief hb => by
          rw [hheld other belief hb, Value.equal_text]
          exact fun heq => hother (by simpa using heq.symm)
      rw [hnone, List.count_cons_of_ne hother, Nat.zero_add]

/-! ### Repeating participants -/

/-- What a scene is told of a story that was read is the same when participants that were named
before are left out, but for the beliefs: those of a participant are told of as often as it is
named, so they are the same just if each participant that is repeated tells none. -/
theorem extract_repeated {document : Value} {story : Story} (hd : document.isDocument = true)
    (h : Story.read document = .ok story) (participants : List String) (limits : Limits) :
    ∃ g once, extract story (participants.map .text) limits = .ok g ∧
      extract story (participants.eraseDups.map .text) limits = .ok once ∧
      g.relationships = once.relationships ∧ g.assets = once.assets ∧ g.secrets = once.secrets ∧
      (∀ id, g.heldBy id = participants.count id * once.heldBy id ∧
        once.heldBy id ≤ limits.beliefs) ∧
      (g.beliefs = once.beliefs ↔ ∀ id, 1 < participants.count id → once.heldBy id = 0) := by
  obtain ⟨g, hg⟩ := extract_ok hd h participants limits
  obtain ⟨once, honce⟩ := extract_ok hd h participants.eraseDups limits
  obtain ⟨⟨ws, hws, hties⟩, hassets, hbeliefs, hsecrets⟩ := parts_of_extract hg
  obtain ⟨⟨ws', hws', hties'⟩, hassets', hbeliefs', hsecrets'⟩ := parts_of_extract honce
  have hamong := fun v => Walk.isAmong_eraseDups v participants
  rw [Walk.walk_eraseDups, hws] at hws'
  obtain rfl := Except.ok.inj hws'
  rw [assetViews_congr hamong, hassets] at hassets'
  rw [secretViews_congr hamong, hsecrets] at hsecrets'
  obtain ⟨told, htells, htold⟩ :=
    exists_told (Story.entities_of_typed (Story.typed_of_read hd h)) limits
  have hall : g.beliefs = participants.flatMap told :=
    Except.ok.inj (hbeliefs.symm.trans (htold participants))
  have heach : once.beliefs = participants.eraseDups.flatMap told :=
    Except.ok.inj (hbeliefs'.symm.trans (htold participants.eraseDups))
  have hheldBy : ∀ id, g.heldBy id = participants.count id * (told id).length := fun id => by
    rw [heldBy, hall, countP_told fun id => (htells id).few.2]
  have hheldBy' : ∀ id, once.heldBy id = if id ∈ participants then (told id).length else 0 :=
    fun id => by
      rw [heldBy, heach, countP_told fun id => (htells id).few.2, count_eraseDups]
      split <;> simp
  have htimes : ∀ id, g.heldBy id = participants.count id * once.heldBy id := by
    intro id
    rw [hheldBy, hheldBy']
    split
    · rfl
    · next hid => rw [List.count_eq_zero.2 hid, Nat.zero_mul, Nat.zero_mul]
  refine ⟨g, once, hg, honce, Except.ok.inj (hties.symm.trans hties'), Except.ok.inj hassets',
    Except.ok.inj hsecrets', fun id => ⟨htimes id, ?_⟩, fun hsame id hid => ?_, fun hnone => ?_⟩
  · rw [hheldBy']
    split
    · exact (htells id).few.1
    · exact Nat.zero_le _
  · have hagain : once.heldBy id = participants.count id * once.heldBy id := by
      rw [← htimes, heldBy, heldBy, hsame]
    by_contra hsome
    have hmore : 1 * once.heldBy id < participants.count id * once.heldBy id :=
      Nat.mul_lt_mul_of_pos_right hid (Nat.pos_of_ne_zero hsome)
    omega
  · rw [hall, heach, flatMap_eraseDups]
    intro id hid
    have hmem : id ∈ participants := List.count_pos_iff.1 (Nat.zero_lt_one.trans hid)
    rw [← List.length_eq_zero_iff, ← hnone id hid, hheldBy', if_pos hmem]

/-- The document of a story with two characters, one of which has two beliefs. -/
def believerDocument : Value :=
  .mapping [("characters", .list [.mapping [("id", .text "a"), ("bdi", .mapping [
      ("beliefs", .list [.mapping [("text", .text "all is well")],
        .mapping [("text", .text "it will last")]])])],
    .mapping [("id", .text "b")]])]

/-- To name a participant again that tells no beliefs changes nothing. -/
theorem extract_repeated_silent : ∃ story g once, Story.read believerDocument = .ok story ∧
    extract story (["a", "b", "b"].map .text) ⟨2, 15, 5, 1, false⟩ = .ok g ∧
    extract story (["a", "b"].map .text) ⟨2, 15, 5, 1, false⟩ = .ok once ∧
    g.heldBy "a" = 1 ∧ g.beliefs = once.beliefs := by
  obtain ⟨story, hread, htold⟩ := Story.exists_read believerDocument (fun story =>
    (extract story (["a", "b"].map .text) ⟨2, 15, 5, 1, false⟩).toOption.map
      (fun once => (once.heldBy "a", once.heldBy "b")) = some (1, 0)) (by decide +kernel)
  obtain ⟨g, once, hg, honce, -, -, -, hheld, hsame⟩ :=
    extract_repeated (by decide +kernel) hread ["a", "b", "b"] ⟨2, 15, 5, 1, false⟩
  have hdups : ["a", "b", "b"].eraseDups = ["a", "b"] := by decide
  rw [hdups] at honce
  rw [honce] at htold
  obtain ⟨ha, hb⟩ := Prod.mk.inj (Option.some.inj htold)
  refine ⟨story, g, once, hread, hg, honce, by rw [(hheld "a").1, ha]; decide, hsame.2 ?_⟩
  intro id hid
  by_cases hbeside : id = "b"
  · rw [hbeside, hb]
  · exfalso
    rw [List.count_cons, List.count_cons, List.count_cons] at hid
    simp [Ne.symm hbeside] at hid
    split at hid <;> omega

/-- One that tells beliefs tells them twice when it is named twice, which is more than the limit. -/
theorem extract_repeats_beliefs : ∃ story g once, Story.read believerDocument = .ok story ∧
    extract story (["a", "a"].map .text) ⟨2, 15, 5, 1, false⟩ = .ok g ∧
    extract story (["a"].map .text) ⟨2, 15, 5, 1, false⟩ = .ok once ∧
    g.beliefs ≠ once.beliefs ∧ 1 < g.heldBy "a" := by
  obtain ⟨story, hread, htwice, honce⟩ := Story.exists_read believerDocument (fun story =>
    (extract story (["a", "a"].map .text) ⟨2, 15, 5, 1, false⟩).toOption.map (heldBy · "a") =
      some 2 ∧
    (extract story (["a"].map .text) ⟨2, 15, 5, 1, false⟩).toOption.map (heldBy · "a") = some 1)
    (by decide +kernel)
  obtain ⟨g, hg⟩ := extract_ok (by decide +kernel) hread ["a", "a"] ⟨2, 15, 5, 1, false⟩
  obtain ⟨once, hextracted⟩ := extract_ok (by decide +kernel) hread ["a"] ⟨2, 15, 5, 1, false⟩
  rw [hg] at htwice
  rw [hextracted] at honce
  have htwo : g.heldBy "a" = 2 := Option.some.inj htwice
  have hone : once.heldBy "a" = 1 := Option.some.inj honce
  refine ⟨story, g, once, hread, hg, hextracted, fun hsame => ?_, by omega⟩
  rw [heldBy, hsame] at htwo
  rw [heldBy] at hone
  omega

end Subgraph

end StoryWorld
