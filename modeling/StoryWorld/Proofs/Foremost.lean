import StoryWorld.Proofs.Rankings

/-!
What a scene is told of first.

Ties are reported by their hop, those of one hop by their strongest weight; secrets by what the loss
of them costs; and the beliefs of a participant by how sure it is of them. Each list is a ranking,
cut at its limit, so nothing that is left out is ahead of what is told. All this is so if no number
that is compared is the undefined one. A tie without weights ranks with one whose strongest weight is
the negative infinity; it is reported behind it just if it was walked after it.
-/

namespace StoryWorld

/-! ### Ties -/

namespace Walk

variable {story : Story} {tie : Value} {ws : List Walked}

/-- The strongest of the weights of a tie; what has no weights is below every number. -/
def weight (tie : Value) : WithBot (WithBot (WithTop ℚ)) :=
  ((tie.field "weights").numbers.map Number.rank).maximum

/-- Where a tie belongs in a report: by its hop, in one hop the strongest first and those without
weights last. -/
def place (w : Walked) : ℕ ×ₗ (WithBot (WithBot (WithTop ℚ)))ᵒᵈ :=
  toLex (w.hop, .toDual (weight w.tie))

/-- A place where having no weights counts as having the lowest there is. -/
def coarse (p : ℕ ×ₗ (WithBot (WithBot (WithTop ℚ)))ᵒᵈ) : ℕ ×ₗ (WithBot (WithTop ℚ))ᵒᵈ :=
  toLex ((ofLex p).1, .toDual ((OrderDual.ofDual (ofLex p).2).unbotD ⊥))

/-- Where a tie stands in a report. -/
def standing (w : Walked) : ℕ ×ₗ (WithBot (WithTop ℚ))ᵒᵈ := coarse (place w)

theorem standing_eq (w : Walked) :
    standing w = toLex (w.hop, .toDual ((weight w.tie).unbotD ⊥)) := rfl

theorem coarse_mono : Monotone coarse := by
  intro p q hpq
  rw [Prod.Lex.le_iff] at hpq
  rw [coarse, coarse, Prod.Lex.toLex_le_toLex]
  refine hpq.imp_right (And.imp_right fun hle => ?_)
  have hmono : Monotone fun w : WithBot (WithBot (WithTop ℚ)) => w.unbotD ⊥ := by
    intro v w hvw
    cases v with
    | bot => exact bot_le
    | coe v =>
      cases w with
      | bot => exact absurd hvw (WithBot.not_coe_le_bot v)
      | coe w => exact WithBot.coe_le_coe.1 hvw
  exact hmono hle

/-- Whether the strongest weight of a tie is the negative infinity. -/
def IsBottomless (tie : Value) : Prop := weight tie = ((⊥ : WithBot (WithTop ℚ)) : WithBot _)

/-- One of its weights then is. -/
theorem IsBottomless.exists_weight (h : IsBottomless tie) :
    ∃ n ∈ (tie.field "weights").numbers, n.rank = ⊥ := by
  obtain ⟨n, hn, hrank⟩ := List.mem_map.1 (List.maximum_mem h)
  exact ⟨n, hn, hrank⟩

/-- Two ties that stand at one place belong there in their order, unless the first has no weights
and the other is bottomless. -/
theorem place_le_iff {v w : Walked} : (coarse (place v) = coarse (place w) → place v ≤ place w) ↔
    (v.hop = w.hop → weight v.tie = ⊥ → ¬IsBottomless w.tie) := by
  have hcoarse : coarse (place v) = coarse (place w) ↔
      v.hop = w.hop ∧ (weight v.tie).unbotD ⊥ = (weight w.tie).unbotD ⊥ := by
    simp [coarse, place]
  have hplace : place v ≤ place w ↔
      v.hop < w.hop ∨ v.hop = w.hop ∧ weight w.tie ≤ weight v.tie := by
    rw [place, place, Prod.Lex.toLex_le_toLex]
    rfl
  rw [hcoarse, hplace, IsBottomless]
  constructor
  · intro h hhop hnone hbottom
    have hle := h ⟨hhop, by rw [hnone, hbottom]; rfl⟩
    rw [hnone, hbottom] at hle
    rcases hle with hlt | ⟨-, hle⟩
    · exact absurd hhop hlt.ne
    · exact WithBot.not_coe_le_bot _ hle
  · rintro h ⟨hhop, hsame⟩
    refine .inr ⟨hhop, ?_⟩
    cases hv : weight v.tie with
    | bot =>
      cases hw : weight w.tie with
      | bot => exact le_rfl
      | coe q =>
        rw [hv, hw, WithBot.unbotD_bot, WithBot.unbotD_coe] at hsame
        exact absurd (by rw [hw, ← hsame]) (h hhop hv)
    | coe p =>
      cases hw : weight w.tie with
      | bot => exact bot_le
      | coe q =>
        rw [hv, hw, WithBot.unbotD_coe, WithBot.unbotD_coe] at hsame
        exact (congrArg WithBot.some hsame).ge

/-- The greatest of some numbers has the highest rank. -/
theorem greatest_rank : ∀ {ns : List Number} {best n : Number}, best.IsDefined →
    (∀ m ∈ ns, m.IsDefined) → greatest (.number best) (ns.map .number) = .ok (.number n) →
      ((best :: ns).map Number.rank).maximum = (n.rank : WithBot (WithBot (WithTop ℚ)))
  | [], best, n, _, _, h => by
    cases h
    exact List.maximum_singleton _
  | m :: ns, best, n, hbest, hns, h => by
    rw [List.forall_mem_cons] at hns
    have hgt : (Value.number m).holds .gt (.number best) = .ok (Relation.gt.ofNumbers m best) := rfl
    have hrank : Relation.gt.ofNumbers m best = true ↔ best.rank < m.rank := by
      rw [Relation.ofNumbers, Number.compare?_rank hns.1 hbest, Option.any_some,
        Relation.holdsOf, beq_iff_eq, compare_gt_iff_gt]
    have hmax : ((best :: m :: ns).map Number.rank).maximum =
        max (max best.rank m.rank : WithBot (WithBot (WithTop ℚ)))
          (ns.map Number.rank).maximum := by
      rw [List.map_cons, List.map_cons, List.maximum_cons, List.maximum_cons, max_assoc]
    rw [List.map_cons, greatest, hgt, Outcome.ok_bind] at h
    rw [hmax]
    split at h
    · next habove =>
      have hle : (best.rank : WithBot (WithBot (WithTop ℚ))) ≤ m.rank :=
        WithBot.coe_le_coe.2 (hrank.1 habove).le
      rw [max_eq_right hle, ← List.maximum_cons]
      exact greatest_rank hns.1 hns.2 h
    · next habove =>
      have hle : (m.rank : WithBot (WithBot (WithTop ℚ))) ≤ best.rank :=
        WithBot.coe_le_coe.2 (not_lt.1 (mt hrank.2 habove))
      rw [max_eq_left hle, ← List.maximum_cons]
      exact greatest_rank hbest hns.2 h

theorem numbers_of_entries : ∀ {es : List (String × Value)},
    (∀ e ∈ es, ∃ n, e.2 = .number n) → es.map Prod.snd = (Value.mapping es).numbers.map .number
  | [], _ => rfl
  | (name, v) :: es, h => by
    rw [List.forall_mem_cons] at h
    obtain ⟨⟨n, rfl⟩, hrest⟩ := h
    exact congrArg (Value.number n :: ·) (numbers_of_entries hrest)

/-- The strength of a tie is its strongest weight, the negative infinity if it has none. -/
theorem strongest_rank {n : Number} (h : tie.IsTie)
    (hdefined : ∀ n ∈ (tie.field "weights").numbers, n.IsDefined)
    (hn : strongest tie = .ok (.number n)) : n.rank = (weight tie).unbotD ⊥ := by
  obtain ⟨es, hes, hnumbers⟩ := h.weights
  rw [Value.field_of_get hes] at hdefined
  rw [weight, Value.field_of_get hes]
  rw [strongest, hes, Outcome.ok_bind] at hn
  cases es with
  | nil =>
    cases hn
    have hvalue : (Number.float (-Binary.infinity)).value? = none := by decide +kernel
    have hless : (Number.float (-Binary.infinity)).less (.int 0) = true := by decide +kernel
    rw [Number.rank, hvalue, hless]
    rfl
  | cons e es =>
    obtain ⟨name, v⟩ := e
    rw [List.forall_mem_cons] at hnumbers
    obtain ⟨⟨m, rfl⟩, hrest⟩ := hnumbers
    have hall : (Value.mapping ((name, .number m) :: es)).numbers =
        m :: (Value.mapping es).numbers := rfl
    rw [hall, List.forall_mem_cons] at hdefined
    have hgreatest : greatest (.number m) (es.map Prod.snd) = .ok (.number n) := hn
    rw [numbers_of_entries hrest] at hgreatest
    rw [hall, greatest_rank hdefined.1 hdefined.2 hgreatest]
    rfl

/-- What is walked is reported by its standing. -/
theorem walk_ranking {seeds : List Value} {hops : ℕ} (hr : reached story seeds hops = .ok ws)
    (hties : ∀ w ∈ ws, w.tie.IsTie)
    (hdefined : ∀ w ∈ ws, ∀ n ∈ (w.tie.field "weights").numbers, n.IsDefined) :
    ∃ sorted, walk story seeds hops = .ok sorted ∧ Ranking standing ws sorted := by
  obtain ⟨ks, hks, rfl⟩ := mapM_keyed hties
  rw [List.forall_mem_map] at hties hdefined
  have hkey : ∀ k ∈ ks, ∃ n : Number, k.1 = n.neg ∧ n.IsDefined ∧
      n.rank = (weight k.2.tie).unbotD ⊥ := by
    intro k hk
    obtain ⟨w, hw, hkw⟩ := Outcome.mem_of_mapM hks k hk
    obtain ⟨k', hk', rfl⟩ := List.mem_map.1 hw
    obtain ⟨n, hn⟩ := strongest_number (hties k' hk')
    obtain rfl : (n.neg, k'.2) = k := Except.ok.inj ((keyed_of_strongest hn).symm.trans hkw)
    exact ⟨n, rfl, strongest_defined (hdefined k' hk') hn,
      strongest_rank (hties k' hk') (hdefined k' hk') hn⟩
  have hbefore : ∀ k ∈ ks, ∀ l ∈ ks, before k l = decide (standing k.2 ≤ standing l.2) := by
    intro k hk l hl
    obtain ⟨m, hm, hdef, hmrank⟩ := hkey k hk
    obtain ⟨n, hn, hdef', hnrank⟩ := hkey l hl
    rw [Bool.eq_iff_iff, decide_eq_true_iff, standing_eq, standing_eq, Prod.Lex.toLex_le_toLex,
      ← hmrank, ← hnrank, before, hm, hn, Bool.or_eq_true, decide_eq_true_iff, Bool.and_eq_true,
      beq_iff_eq, Bool.not_eq_true', ← Bool.not_eq_true, Number.less_iff_rank hdef'.neg hdef.neg,
      Number.rank_neg_lt hdef' hdef, not_lt, OrderDual.toDual_le_toDual]
  have hmap := @List.map_mergeSort _ _ before (fun v w => decide (standing v ≤ standing w))
    Prod.snd ks hbefore
  refine ⟨(ks.mergeSort before).map Prod.snd, by simp [walk, hr, hks, Outcome.ok_bind], ?_⟩
  rw [hmap]
  exact Ranking.mergeSort standing _

/-- The report is in the order where ties belong just if, in one hop, no tie without weights is
walked before a bottomless one. -/
theorem ranking_place_iff {sorted : List Walked} (h : Ranking standing ws sorted) :
    Ranking place ws sorted ↔
      ws.Pairwise fun v w => v.hop = w.hop → weight v.tie = ⊥ → ¬IsBottomless w.tie := by
  rw [Ranking.refine_iff coarse_mono h]
  simp only [place_le_iff]

end Walk

/-! ### Secrets and beliefs -/

namespace Subgraph

/-- The rank of an entry of a list that is sorted by descending keys. -/
def keyRank (e : Value × Value) : (WithBot (WithTop ℚ))ᵒᵈ :=
  .toDual (e.1.number?.getD (.int 0)).rank

/-- Whether the key of an entry stands for a number. -/
def IsKeyed (e : Value × Value) : Prop := ∃ n : Number, e.1 = .number n ∧ n.IsDefined

theorem keyRank_lt {m n : Number} {v w : Value} (hm : m.IsDefined) (hn : n.IsDefined) :
    keyRank (.number n, w) < keyRank (.number m, v) ↔ m.less n = true := by
  rw [Number.less_iff_rank hm hn]
  rfl

theorem insertSorted_ranking {n : Number} (item : Value) {xs sorted : List (Value × Value)}
    (h : Ranking keyRank xs sorted) (hn : n.IsDefined) (hxs : ∀ e ∈ xs, IsKeyed e) :
    ∃ out, insertSorted (.number n) item sorted = .ok out ∧
      Ranking keyRank (xs ++ [(.number n, item)]) out := by
  have hkeyed : ∀ e ∈ sorted, IsKeyed e := fun e he => hxs e (h.perm.mem_iff.1 he)
  have hrank : ∀ e ∈ sorted, ∀ m, e.1 = .number m →
      (keyRank (.number n, item) < keyRank e ↔ m.less n = true) := by
    rintro ⟨k, v⟩ he m rfl
    obtain ⟨_, heq, hm⟩ := hkeyed _ he
    obtain rfl := Value.number.inj heq
    exact keyRank_lt hm hn
  obtain ⟨l, r, rfl, hinsert, hl, hr⟩ :=
    insertSorted_split n item fun e he => (hkeyed e he).imp fun m hm => hm.1
  refine ⟨_, hinsert, h.insert_behind (fun e he => ?_) fun e he => ?_⟩
  · obtain ⟨m, hm, hless⟩ := hl e he
    have hiff := hrank e (List.mem_append_left _ he) m hm
    rw [hless] at hiff
    exact not_lt.1 (mt hiff.1 Bool.false_ne_true)
  · cases r with
    | nil => cases he
    | cons f r =>
      obtain ⟨m, hm, hless⟩ := hr f rfl
      have hfirst := (hrank f (List.mem_append_right _ List.mem_cons_self) m hm).2 hless
      have hsorted := (List.pairwise_append.1 h.ascending).2.1
      rcases List.mem_cons.1 he with rfl | he
      · exact hfirst
      · exact hfirst.trans_le ((List.pairwise_cons.1 hsorted).1 e he)

theorem foldlM_ranking : ∀ {keyed xs sorted : List (Value × Value)}, Ranking keyRank xs sorted →
    (∀ e ∈ xs ++ keyed, IsKeyed e) →
      ∃ out, keyed.foldlM (fun sorted e => insertSorted e.1 e.2 sorted) sorted = .ok out ∧
        Ranking keyRank (xs ++ keyed) out
  | [], xs, sorted, h, _ => ⟨sorted, rfl, by rwa [List.append_nil]⟩
  | (k, v) :: keyed, xs, sorted, h, hkeyed => by
    obtain ⟨n, hk, hn⟩ := hkeyed (k, v) (List.mem_append_right _ List.mem_cons_self)
    obtain rfl : k = .number n := hk
    obtain ⟨out, hout, hranking⟩ := insertSorted_ranking v h hn fun e he =>
      hkeyed e (List.mem_append_left _ he)
    have hsplit : xs ++ (.number n, v) :: keyed = xs ++ [(.number n, v)] ++ keyed := by simp
    rw [hsplit] at hkeyed ⊢
    obtain ⟨out', hout', hranking'⟩ := foldlM_ranking hranking hkeyed
    exact ⟨out', by rw [List.foldlM_cons, hout, Outcome.ok_bind, hout'], hranking'⟩

/-- Items are sorted by their keys, the greatest first. -/
theorem sortDescending_ranking {key : Value → Outcome Value} {number : Value → Number}
    {items : List Value} (hkey : ∀ v ∈ items, key v = .ok (.number (number v)))
    (hdefined : ∀ v ∈ items, (number v).IsDefined) :
    ∃ keyed sorted, withKeys key items = .ok keyed ∧ sortDescending keyed = .ok sorted ∧
      Ranking (fun v => OrderDual.toDual (number v).rank) items sorted := by
  have hkeyed : withKeys key items = .ok (items.map fun v => (.number (number v), v)) :=
    Outcome.mapM_eq fun v hv => by rw [hkey v hv]; rfl
  obtain ⟨out, hout, hranking⟩ := @foldlM_ranking (items.map fun v => (.number (number v), v))
    [] [] .nil fun e he => by
      obtain ⟨v, hv, rfl⟩ := List.mem_map.1 he
      exact ⟨number v, rfl, hdefined v hv⟩
  refine ⟨_, out.map Prod.snd, hkeyed, by rw [sortDescending, hout]; rfl, ?_⟩
  rw [List.nil_append] at hranking
  have hitems : (items.map fun v => (Value.number (number v), v)).map Prod.snd = items := by
    rw [List.map_map]
    exact List.map_id _
  have hvalues : Ranking ((fun v => OrderDual.toDual (number v).rank) ∘ Prod.snd)
      (items.map fun v => (Value.number (number v), v)) out := by
    refine hranking.congr fun e he => ?_
    obtain ⟨v, -, rfl⟩ := List.mem_map.1 he
    rfl
  simpa only [hitems] using hvalues.map

/-- The views that are told of some items are those of the foremost ones by their keys. -/
theorem foremost_of_ranked {key view : Value → Outcome Value} {number : Value → Number}
    {items views : List Value} {count : ℕ} (hkey : ∀ v ∈ items, key v = .ok (.number (number v)))
    (hdefined : ∀ v ∈ items, (number v).IsDefined)
    (h : (do
      let sorted ← sortDescending (← withKeys key items)
      (sorted.take count).mapM view) = Except.ok views) :
    ∃ reported omitted, Foremost (fun v => OrderDual.toDual (number v).rank) count items
      reported omitted ∧ reported.mapM view = .ok views := by
  obtain ⟨keyed, sorted, hkeyed, hsorted, hranking⟩ := sortDescending_ranking hkey hdefined
  rw [hkeyed, Outcome.ok_bind, hsorted, Outcome.ok_bind] at h
  exact ⟨_, _, hranking.take_foremost count, h⟩

/-- Whether a scene can be told of a secret: it concerns a participant, and is active where this is
asked. -/
def canTell (participants : List Value) (limits : Limits) (secret : Value) : Bool :=
  concerns participants secret &&
    (limits.inactive || (secret.field "status").equal (.text "active"))

/-- How sure a character is of a belief. -/
def confidenceOf (belief : Value) : Number := (belief.field "confidence").number?.getD (.int 0)

/-- The beliefs of a character. -/
def beliefsIn (character : Value) : List Value :=
  ((character.field "bdi").field "beliefs").items

/-- No number that decides over what a scene is told is the undefined one: no weight of a tie that
is walked, no relevance of a secret that can be told, and no confidence in a belief of a
participant. -/
structure Comparable (story : Story) (participants : List String) (limits : Limits) : Prop where
  weights : ∀ walked, Walk.reached story (participants.map .text) limits.hops = .ok walked →
    ∀ w ∈ walked, ∀ n ∈ (w.tie.field "weights").numbers, n.IsDefined
  relevance : ∀ secret ∈ story.secrets.items, canTell (participants.map .text) limits secret →
    (relevanceOf secret).IsDefined
  confidence : ∀ id ∈ participants, ∀ character, story.character? (.text id) = .ok (some character) →
    ∀ belief ∈ beliefsIn character, (confidenceOf belief).IsDefined

/-- So it is for all participants and limits if none of these numbers in the story is. -/
theorem Comparable.of_all {story : Story} {limited : Bool} (h : story.Entities limited)
    (hweights : story.Weighed) (hrelevance : ∀ secret ∈ story.secrets.items,
      (relevanceOf secret).IsDefined)
    (hconfidence : ∀ character ∈ story.characters.items, ∀ belief ∈ beliefsIn character,
      (confidenceOf belief).IsDefined) (participants : List String) (limits : Limits) :
    Comparable story participants limits where
  weights walked hwalked w hw := by
    have hties : ∀ tie ∈ story.ties, tie.IsTie := fun tie ht =>
      Schema.isTie_of_typed (h.ties tie ht)
    obtain ⟨ws, hws, hbetween⟩ := Walk.reached_between hties participants limits.hops
    obtain rfl : ws = walked := Except.ok.inj (hws.symm.trans hwalked)
    exact hweights w.tie (hbetween w hw).1
  relevance secret hs _ := hrelevance secret hs
  confidence id _ character hcharacter := by
    obtain ⟨found, hfound, hmem⟩ := character?_ok h (.text id)
    obtain rfl : found = some character := Except.ok.inj (hfound.symm.trans hcharacter)
    exact hconfidence character (hmem character rfl)

theorem secretViews_foremost {story : Story} {participants : List Value} {limits : Limits}
    {limited : Bool} {views : List Value} (h : story.Entities limited)
    (hdefined : ∀ secret ∈ story.secrets.items, canTell participants limits secret →
      (relevanceOf secret).IsDefined)
    (hviews : secretViews story participants limits = .ok views) :
    ∃ secrets omitted, Foremost (fun secret => OrderDual.toDual (relevanceOf secret).rank)
      limits.secrets (story.secrets.items.filter (canTell participants limits)) secrets omitted ∧
        secrets.mapM secretView = .ok views := by
  have hselect : Story.selectItems (isCandidate participants limits) story.secrets.items =
      .ok (story.secrets.items.filter (canTell participants limits)) :=
    Story.selectItems_of_ok fun secret hs => isCandidate_eq (h.secrets secret hs) limits
  rw [secretViews, hselect, Outcome.ok_bind] at hviews
  refine foremost_of_ranked (fun secret hs => ?_) (fun secret hs => ?_) hviews
  · exact computed_relevance (h.secrets secret (List.mem_of_mem_filter hs))
  · exact hdefined secret (List.mem_of_mem_filter hs) (List.of_mem_filter hs)

theorem beliefsOf_foremost {character : Value} {id : String} {limits : Limits} {limited : Bool}
    {own : List Value} (h : Schema.typed limited Kind.character.shape character = true)
    (hdefined : ∀ belief ∈ beliefsIn character, (confidenceOf belief).IsDefined)
    (hown : beliefsOf (.text id) character limits = .ok own) :
    ∃ beliefs omitted, Foremost (fun belief => OrderDual.toDual (confidenceOf belief).rank)
      limits.beliefs (beliefsIn character) beliefs omitted ∧
        beliefs.mapM (beliefView (.text id)) = .ok own := by
  obtain ⟨mind, hmind, hinner, -⟩ := Schema.get_of_typed "bdi" rfl h rfl
  obtain ⟨beliefs, hbeliefs, hitems⟩ := Schema.get_list "beliefs" rfl hinner rfl rfl
  have hin : beliefsIn character = beliefs := by
    rw [beliefsIn, Value.field_of_get hmind, Value.field_of_get hbeliefs]
    rfl
  rw [beliefsOf, hmind, Outcome.ok_bind, hbeliefs, Outcome.ok_bind, Value.iterate,
    Outcome.ok_bind] at hown
  rw [hin] at hdefined ⊢
  refine foremost_of_ranked (fun belief hb => ?_) hdefined hown
  obtain ⟨n, hn, -⟩ := Schema.get_number "confidence" rfl (hitems belief hb) rfl (.inr (.inl rfl))
  rw [hn, confidenceOf, Value.field_of_get hn]
  rfl

/-- What a participant tells, as its foremost beliefs: none if there is no character of its id. -/
def TellsForemost (story : Story) (limits : Limits) (id : String) (own : List Value) : Prop :=
  (story.character? (.text id) = .ok none ∧ own = []) ∨
    ∃ character beliefs omitted, story.character? (.text id) = .ok (some character) ∧
      Foremost (fun belief => OrderDual.toDual (confidenceOf belief).rank) limits.beliefs
        (beliefsIn character) beliefs omitted ∧ beliefs.mapM (beliefView (.text id)) = .ok own

/-- What a scene is told of a story that was read, where the numbers compare: of the ties that are
walked, of the secrets that can be told and of the beliefs of each participant the foremost, up to
the limit of each. The ties are in the order where they belong, those without weights last, just if
in one hop no tie without weights is walked before a bottomless one. -/
theorem extract_foremost {document : Value} {story : Story} (hd : document.isDocument = true)
    (h : Story.read document = .ok story) {participants : List String} {limits : Limits}
    (hc : Comparable story participants limits) :
    ∃ g, extract story (participants.map .text) limits = .ok g ∧
      (∃ walked ties omitted,
        Walk.reached story (participants.map .text) limits.hops = .ok walked ∧
        Walk.walk story (participants.map .text) limits.hops = .ok (ties ++ omitted) ∧
        ties.mapM relationshipView = .ok g.relationships ∧
        Foremost Walk.standing limits.relationships walked ties omitted ∧
        (Foremost Walk.place limits.relationships walked ties omitted ↔ walked.Pairwise fun v w =>
          v.hop = w.hop → Walk.weight v.tie = ⊥ → ¬Walk.IsBottomless w.tie)) ∧
      (∃ secrets omitted, secrets.mapM secretView = .ok g.secrets ∧
        Foremost (fun secret => OrderDual.toDual (relevanceOf secret).rank) limits.secrets
          (story.secrets.items.filter (canTell (participants.map .text) limits)) secrets omitted) ∧
      ∃ told : String → List Value, g.beliefs = participants.flatMap told ∧
        ∀ id ∈ participants, TellsForemost story limits id (told id) := by
  have hentities := Story.entities_of_typed (Story.typed_of_read hd h)
  obtain ⟨g, hg⟩ := extract_ok hd h participants limits
  obtain ⟨⟨sorted, hsorted, hviews⟩, -, hbeliefs, hsecrets⟩ := parts_of_extract hg
  refine ⟨g, hg, ?_, ?_, ?_⟩
  · have hties : ∀ tie ∈ story.ties, tie.IsTie := fun tie ht =>
      Schema.isTie_of_typed (hentities.ties tie ht)
    obtain ⟨walked, hwalked, hbetween⟩ := Walk.reached_between hties participants limits.hops
    obtain ⟨sorted', hsorted', hranking⟩ := Walk.walk_ranking hwalked
      (fun w hw => hties w.tie (hbetween w hw).1) (hc.weights walked hwalked)
    obtain rfl : sorted = sorted' := Except.ok.inj (hsorted.symm.trans hsorted')
    refine ⟨walked, sorted.take limits.relationships, sorted.drop limits.relationships, hwalked, ?_,
      hviews, hranking.take_foremost _, ?_⟩
    · rwa [List.take_append_drop]
    · rw [← Walk.ranking_place_iff hranking]
      refine ⟨fun hforemost => ?_, fun hplace => hplace.take_foremost _⟩
      have hplace := hforemost.ranking
      rwa [List.take_append_drop] at hplace
  · obtain ⟨secrets, omitted, hforemost, hsecrets⟩ :=
      secretViews_foremost hentities hc.relevance hsecrets
    exact ⟨secrets, omitted, hsecrets, hforemost⟩
  · obtain ⟨told, htells, htold⟩ := exists_told hentities limits
    refine ⟨told, Except.ok.inj (hbeliefs.symm.trans (htold participants)), fun id hid => ?_⟩
    obtain ⟨found, hfound, hown⟩ := htells id
    cases found with
    | none => exact .inl ⟨hfound, hown⟩
    | some character =>
      obtain ⟨beliefs, omitted, hforemost, hbeliefs⟩ :=
        beliefsOf_foremost (hentities.characters character hown.1)
          (hc.confidence id hid character hfound) hown.2
      exact .inr ⟨character, beliefs, omitted, hfound, hforemost, hbeliefs⟩

/-- The document of a story with three ties of one character, two of them with weights, two secrets
that it holds, and two beliefs. -/
def rankedDocument : Value :=
  .mapping [
    ("characters", .list [.mapping [("id", .text "a"), ("bdi", .mapping [("beliefs", .list [
      .mapping [("text", .text "perhaps"), ("confidence", .float 0.5)],
      .mapping [("text", .text "surely"), ("confidence", .int 1)]])])]]),
    ("relationships", .list [
      .mapping [("id", .text "plain"), ("from", .text "a"), ("to", .text "b")],
      .mapping [("id", .text "weak"), ("from", .text "a"), ("to", .text "c"),
        ("weights", .mapping [("fear", .int 1)])],
      .mapping [("id", .text "strong"), ("from", .text "d"), ("to", .text "a"),
        ("weights", .mapping [("fear", .int 1), ("loyalty", .int 7)])]]),
    ("secrets", .list [
      .mapping [("id", .text "rumour"), ("holders", .list [.text "a"])],
      .mapping [("id", .text "letter"), ("holders", .list [.text "a"]),
        ("stats", .mapping [("legal_value", .float 0.5)])]])]

/-- Told of one of each, a scene is told of the foremost: of three ties that are walked, those
without weights last. -/
theorem extract_foremost_one : ∃ story g walked ties omitted,
    Story.read rankedDocument = .ok story ∧ Comparable story ["a"] ⟨1, 1, 1, 1, false⟩ ∧
    extract story (["a"].map .text) ⟨1, 1, 1, 1, false⟩ = .ok g ∧
    Walk.reached story (["a"].map .text) 1 = .ok walked ∧ walked.length = 3 ∧
    ties.mapM relationshipView = .ok g.relationships ∧
    Foremost Walk.place 1 walked ties omitted := by
  have hd : rankedDocument.isDocument = true := by decide +kernel
  obtain ⟨story, hread, hfinite, hweighed, hsecrets, hbeliefs⟩ :=
    Story.exists_read rankedDocument (fun story =>
      (Walk.reached story (["a"].map .text) 1).toOption.map (fun ws =>
        (ws.length, ws.all fun w => (w.tie.field "weights").numbers.all (·.value?.isSome))) =
          some (3, true) ∧
      story.Weighed ∧ (∀ secret ∈ story.secrets.items, (relevanceOf secret).IsDefined) ∧
      ∀ character ∈ story.characters.items, ∀ belief ∈ beliefsIn character,
        (confidenceOf belief).IsDefined) (by decide +kernel)
  have hc : Comparable story ["a"] ⟨1, 1, 1, 1, false⟩ :=
    .of_all (Story.entities_of_typed (Story.typed_of_read hd hread)) hweighed hsecrets hbeliefs _ _
  obtain ⟨g, hg, ⟨walked, ties, omitted, hwalked, -, hviews, -, hplace⟩, -⟩ :=
    extract_foremost hd hread hc
  rw [hwalked] at hfinite
  obtain ⟨hlength, hfinite⟩ := Prod.mk.inj (Option.some.inj hfinite)
  simp only [List.all_eq_true] at hfinite
  refine ⟨story, g, walked, ties, omitted, hread, hc, hg, hwalked, hlength, hviews, hplace.2 ?_⟩
  refine List.pairwise_iff_forall_sublist.2 fun {v w} hsub _ _ hbottom => ?_
  obtain ⟨n, hn, hrank⟩ := hbottom.exists_weight
  obtain ⟨q, hq⟩ := Option.isSome_iff_exists.1 (hfinite w (hsub.subset (by simp)) n hn)
  rw [Number.rank_of_value hq] at hrank
  cases hrank

/-- The document of a story with two ties of one character, the second of which has the negative
infinity for its weight. -/
def bottomlessDocument : Value :=
  .mapping [("relationships", .list [
    .mapping [("id", .text "plain"), ("from", .text "a"), ("to", .text "b")],
    .mapping [("id", .text "bottomless"), ("from", .text "a"), ("to", .text "c"),
      ("weights", .mapping [("loyalty", .float (-Binary.infinity))])]])]

/-- The tie without weights is told of before the one that has one, where it does not belong. -/
theorem extract_unweighted_first : ∃ story g walked ties,
    Story.read bottomlessDocument = .ok story ∧ Comparable story ["a"] ⟨1, 2, 1, 1, false⟩ ∧
    extract story (["a"].map .text) ⟨1, 2, 1, 1, false⟩ = .ok g ∧
    Walk.reached story (["a"].map .text) 1 = .ok walked ∧
    Walk.walk story (["a"].map .text) 1 = .ok ties ∧
    (ties.take 2).mapM relationshipView = .ok g.relationships ∧
    ¬Foremost Walk.place 2 walked (ties.take 2) (ties.drop 2) := by
  have hd : bottomlessDocument.isDocument = true := by decide +kernel
  obtain ⟨story, hread, hwalk, hweighed, hsecrets, hbeliefs⟩ :=
    Story.exists_read bottomlessDocument (fun story =>
      (Walk.reached story (["a"].map .text) 1).toOption.map (fun ws => ws.map fun w =>
        (w.hop, (w.tie.field "weights").numbers.map fun n =>
          n.value?.isNone && n.less (.int 0))) = some [(1, []), (1, [true])] ∧
      story.Weighed ∧ (∀ secret ∈ story.secrets.items, (relevanceOf secret).IsDefined) ∧
      ∀ character ∈ story.characters.items, ∀ belief ∈ beliefsIn character,
        (confidenceOf belief).IsDefined) (by decide +kernel)
  have hc : Comparable story ["a"] ⟨1, 2, 1, 1, false⟩ :=
    .of_all (Story.entities_of_typed (Story.typed_of_read hd hread)) hweighed hsecrets hbeliefs _ _
  obtain ⟨g, hg⟩ := extract_ok hd hread ["a"] ⟨1, 2, 1, 1, false⟩
  obtain ⟨⟨ties, hties, hviews⟩, -⟩ := parts_of_extract hg
  have horder : ∀ tie ∈ story.ties, tie.IsTie := Story.isTie_of_read hread
  obtain ⟨walked, hwalked, hbetween⟩ := Walk.reached_between horder ["a"] 1
  obtain ⟨ties', hties', hranking⟩ := Walk.walk_ranking hwalked
    (fun w hw => horder w.tie (hbetween w hw).1) (hc.weights walked hwalked)
  obtain rfl : ties = ties' := Except.ok.inj (hties.symm.trans hties')
  refine ⟨story, g, walked, ties, hread, hc, hg, hwalked, hties, hviews, fun hforemost => ?_⟩
  have hplace := hforemost.ranking
  rw [List.take_append_drop, Walk.ranking_place_iff hranking] at hplace
  rw [hwalked] at hwalk
  obtain ⟨plain, _, rfl, hplain, hrest⟩ := List.map_eq_cons_iff.1 (Option.some.inj hwalk)
  obtain ⟨bottomless, _, rfl, hbottomless, -⟩ := List.map_eq_cons_iff.1 hrest
  obtain ⟨hhop, hnone⟩ := Prod.mk.inj hplain
  obtain ⟨hhop', hlowest⟩ := Prod.mk.inj hbottomless
  obtain ⟨n, _, hnumbers, hn, hnil⟩ := List.map_eq_cons_iff.1 hlowest
  obtain rfl := List.map_eq_nil_iff.1 hnil
  rw [Bool.and_eq_true, Option.isNone_iff_eq_none] at hn
  have hrank : n.rank = ⊥ := by
    rw [Number.rank, hn.1, hn.2]
    rfl
  refine (List.pairwise_cons.1 hplace).1 bottomless List.mem_cons_self (hhop.trans hhop'.symm) ?_ ?_
  · rw [Walk.weight, List.map_eq_nil_iff.1 hnone]
    rfl
  · rw [Walk.IsBottomless, Walk.weight, hnumbers, List.map_singleton, hrank]
    exact List.maximum_singleton _

end Subgraph

end StoryWorld
