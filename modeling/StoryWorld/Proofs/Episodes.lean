import StoryWorld.Decay
import StoryWorld.Proofs.Lasting
import StoryWorld.Proofs.Views

/-!
The ends of episodes, one after the other.

A secret notes the number of the last episode that it was faded for. Once the end of an episode has
gone through, every secret of the story either does not fade any more or has noted that episode or a
later one, so the end of an episode that is not later changes nothing. A run over any list of
episodes therefore comes to the same as the run over those that are later than all before them.
-/

namespace StoryWorld

namespace Value

variable {v w x : Value} {name other : String}

theorem get_setField_self (h : v.get name = .ok x) : (v.setField name w).get name = .ok w := by
  obtain ⟨kind, slots, rfl, -⟩ := get_ok.1 h
  exact get_ok.2 ⟨kind, _, rfl, Table.get?_put_self _ _ _⟩

theorem get_setField_of_ne (h : other ≠ name) : (v.setField name w).get other = v.get other := by
  cases v with
  | entity kind slots =>
    have hslot : Slot.field other ≠ .field name := by simpa using h
    simp only [setField, get, field?, Table.get?_put_of_ne hslot]
  | _ => rfl

end Value

namespace Decay

open Value

variable {secret after decay : Value} {episode : Option Int} {m n e : Int}

/-! ### One secret -/

/-- The number of the last episode that a secret was faded for, if it has a decay. -/
def marker? (secret : Value) : Option Int :=
  match (secret.field "decay").field "last_decayed_episode" with
  | .number (.int n) => some n
  | _ => none

/-- Whether the decay of a secret, if it has one, notes the number of an episode. -/
def IsMarked (secret : Value) : Prop :=
  ∀ decay, secret.get "decay" = .ok decay → decay.category ≠ .null →
    ∃ n, decay.get "last_decayed_episode" = .ok (.int n)

theorem marker?_of_get (hdecay : secret.get "decay" = .ok decay)
    (hlast : decay.get "last_decayed_episode" = .ok (.int n)) : marker? secret = some n := by
  rw [marker?, field_of_get hdecay, field_of_get hlast]
  rfl

/-- The decay of a secret with another number noted in it. -/
abbrev noted (decay : Value) (m : Int) : Value := decay.setField "last_decayed_episode" (.int m)

theorem fading?_some : fading? secret = .ok (some decay) ↔ ∃ status halfLife,
    secret.get "status" = .ok status ∧ status.equal (.text "active") = true ∧
    secret.get "decay" = .ok decay ∧ decay.category ≠ .null ∧
    decay.get "half_life_episodes" = .ok halfLife ∧ halfLife.holds .le (.int 0) = .ok false := by
  simp only [fading?, Outcome.bind_ok]
  constructor
  · rintro ⟨status, hstatus, h⟩
    split at h
    · simp at h
    · next hactive =>
      obtain ⟨d, hd, h⟩ := Outcome.bind_ok.1 h
      split at h
      · simp at h
      · next hnull =>
        obtain ⟨halfLife, hhalf, h⟩ := Outcome.bind_ok.1 h
        obtain ⟨still, hstill, h⟩ := Outcome.bind_ok.1 h
        cases still with
        | true => simp at h
        | false =>
          obtain rfl : d = decay := by simpa using h
          exact ⟨status, halfLife, hstatus, by simpa using hactive, hd, hnull, hhalf, hstill⟩
  · rintro ⟨status, halfLife, hstatus, hactive, hdecay, hnull, hhalf, hholds⟩
    refine ⟨status, hstatus, ?_⟩
    simp [hactive, hdecay, hnull, hhalf, hholds, Outcome.ok_bind]

theorem isDone_eq (h : decay.get "last_decayed_episode" = .ok (.int n)) :
    isDone decay (some e) = .ok (decide (e ≤ n)) := by
  have hcompare : (compare n e != Ordering.lt) = decide (e ≤ n) := by
    rw [Bool.eq_iff_iff]
    simp [compare_lt_iff_lt]
  simp [isDone, h, Outcome.ok_bind, Value.int, Value.holds, Value.numeric?, Relation.ofNumbers,
    Number.compare?, Relation.holdsOf, hcompare]

theorem fadeSecret_stats {touched : Bool} (h : (fadeSecret secret decay).2 = .ok touched) :
    ∃ stats, (fadeSecret secret decay).1 = secret.setField "stats" stats := by
  unfold fadeSecret at h ⊢
  simp only at h ⊢
  split at h
  · cases h
  · exact ⟨_, rfl⟩

/-- What comes of a secret at the end of an episode: it is left alone, or it notes the episode and
stays active or turns inert. -/
theorem ofSecret_cases {effect : Effect} (h : ofSecret (some m) secret = (after, .ok effect)) :
    (after = secret ∧ (fading? secret = .ok none ∨
      ∃ decay, fading? secret = .ok (some decay) ∧ isDone decay (some m) = .ok true)) ∨
    ∃ decay, fading? secret = .ok (some decay) ∧ isDone decay (some m) = .ok false ∧
      after.get "decay" = .ok (noted decay m) ∧
      (after.get "status" = secret.get "status" ∨ after.get "status" = .ok (.text "inert")) := by
  unfold ofSecret at h
  split at h
  · cases h
  · next hfading =>
    cases h
    exact .inl ⟨rfl, .inl hfading⟩
  · next decay hfading =>
    split at h
    · cases h
    · next hdone =>
      cases h
      exact .inl ⟨rfl, .inr ⟨decay, hfading, hdone⟩⟩
    · next hdone =>
      refine .inr ⟨decay, hfading, hdone, ?_⟩
      obtain ⟨status, -, hstatus, -, hdecay, -⟩ := fading?_some.1 hfading
      have hwritten : (noteEpisode secret decay (some m)).get "decay" = .ok (noted decay m) :=
        get_setField_self hdecay
      have hsame : (noteEpisode secret decay (some m)).get "status" = secret.get "status" :=
        get_setField_of_ne (by decide)
      have hkept : ∀ stats, let faded := (noteEpisode secret decay (some m)).setField "stats" stats
          faded.get "decay" = .ok (noted decay m) ∧ faded.get "status" = secret.get "status" := by
        intro stats
        exact ⟨by rw [get_setField_of_ne (by decide), hwritten],
          by rw [get_setField_of_ne (by decide), hsame]⟩
      cases htouched : (fadeSecret (noteEpisode secret decay (some m)) decay).2 with
      | error fault => simp [htouched] at h
      | ok touched =>
        obtain ⟨stats, hstats⟩ := fadeSecret_stats htouched
        obtain ⟨hnoted, hstill⟩ := hkept stats
        rw [← hstats] at hnoted hstill
        simp only [htouched] at h
        split at h
        · cases h
        · cases h
        · cases h
          refine ⟨by rw [get_setField_of_ne (by decide), hnoted], .inr ?_⟩
          exact get_setField_self (hstill.trans hstatus)
        · cases h
          exact ⟨hnoted, .inl hstill⟩

/-- Whether the ends of all episodes up to one leave a secret alone. -/
def Settled (m : Int) (secret : Value) : Prop :=
  ∀ e ≤ m, ofSecret (some e) secret = (secret, .ok ⟨false, false⟩)

theorem ofSecret_of_lasting (h : fading? secret = .ok none) :
    ofSecret episode secret = (secret, .ok ⟨false, false⟩) := by
  simp [ofSecret, h]

theorem ofSecret_of_done (h : fading? secret = .ok (some decay))
    (hdone : isDone decay episode = .ok true) :
    ofSecret episode secret = (secret, .ok ⟨false, false⟩) := by
  simp [ofSecret, h, hdone]

/-- A secret that fades no more before the number in its decay is settled up to it. -/
theorem settled_of_marker (h : fading? secret = .ok (some decay))
    (hlast : decay.get "last_decayed_episode" = .ok (.int n)) : Settled n secret := by
  intro e he
  refine ofSecret_of_done h ?_
  rw [isDone_eq hlast, decide_eq_true he]

theorem Settled.mono (h : Settled n secret) (hmn : m ≤ n) : Settled m secret :=
  fun e he => h e (he.trans hmn)

/-- The end of an episode settles a secret up to that episode. -/
theorem settled_of_ofSecret {effect : Effect} (hmarked : IsMarked secret)
    (h : ofSecret (some m) secret = (after, .ok effect)) : Settled m after := by
  rcases ofSecret_cases h with ⟨rfl, hlasting | ⟨decay, hfading, hdone⟩⟩ |
    ⟨decay, hfading, -, hnoted, hstatus⟩
  · intro e _
    exact ofSecret_of_lasting hlasting
  · obtain ⟨-, -, -, -, hdecay, hnull, -⟩ := fading?_some.1 hfading
    obtain ⟨n, hn⟩ := hmarked decay hdecay hnull
    rw [isDone_eq hn] at hdone
    have hmn : m ≤ n := by simpa using hdone
    exact (settled_of_marker hfading hn).mono hmn
  · obtain ⟨status, halfLife, hwas, hactive, hdecay, hnull, hhalf, hholds⟩ := fading?_some.1 hfading
    obtain ⟨last, hlast⟩ := hmarked decay hdecay hnull
    -- A secret that stays active has the episode noted; one that turned inert does not fade at all.
    rcases hstatus with hsame | hinert
    · have hhalf' : (noted decay m).get "half_life_episodes" = .ok halfLife := by
        rw [noted, get_setField_of_ne (by decide), hhalf]
      have hnull' : (noted decay m).category ≠ .null := by
        obtain ⟨kind, slots, hentity, -⟩ := get_ok.1 hlast
        rw [noted, hentity]
        intro hcategory
        cases hcategory
      have hfading' : fading? after = .ok (some (noted decay m)) :=
        fading?_some.2 ⟨status, halfLife, hsame.trans hwas, hactive, hnoted, hnull', hhalf', hholds⟩
      exact settled_of_marker hfading' (get_setField_self hlast)
    · intro e _
      refine ofSecret_of_lasting ?_
      simp [fading?, hinert, Outcome.ok_bind, Value.equal]

theorem settled_ofSecret {effect : Effect} (hmarked : IsMarked secret) (h : Settled m secret)
    (hstep : ofSecret (some e) secret = (after, .ok effect)) : Settled m after := by
  rcases le_total e m with hem | hme
  · rw [h e hem] at hstep
    cases hstep
    exact h
  · exact (settled_of_ofSecret hmarked hstep).mono hme

/-- The number that a secret notes never becomes smaller. -/
theorem marker_ofSecret {effect : Effect} (hmarked : IsMarked secret)
    (h : ofSecret (some m) secret = (after, .ok effect)) :
    IsMarked after ∧ ∀ n, marker? secret = some n → ∃ n', marker? after = some n' ∧ n ≤ n' := by
  rcases ofSecret_cases h with ⟨rfl, -⟩ | ⟨decay, hfading, hdone, hnoted, -⟩
  · exact ⟨hmarked, fun n hn => ⟨n, hn, le_refl n⟩⟩
  · obtain ⟨-, -, -, -, hdecay, hnull, -⟩ := fading?_some.1 hfading
    obtain ⟨last, hlast⟩ := hmarked decay hdecay hnull
    have hafter : (noted decay m).get "last_decayed_episode" = .ok (.int m) :=
      get_setField_self hlast
    constructor
    · intro d hd _
      obtain rfl : noted decay m = d := Except.ok.inj (hnoted.symm.trans hd)
      exact ⟨m, hafter⟩
    · intro n hn
      rw [marker?_of_get hdecay hlast] at hn
      obtain rfl : last = n := by simpa using hn
      rw [isDone_eq hlast] at hdone
      have hlt : ¬m ≤ last := by simpa using hdone
      exact ⟨m, marker?_of_get hnoted hafter, by omega⟩

/-! ### The secrets of a story -/

/-- If the end of an episode comes to its result, it does for the first secret and for the rest. -/
theorem ofSecrets_cons {episode : Option Int} {x : Value} {xs ys : List Value} {r : Result}
    (h : ofSecrets episode (x :: xs) = (ys, .ok r)) :
    ∃ y effect zs rest, ofSecret episode x = (y, .ok effect) ∧
      ofSecrets episode xs = (zs, .ok rest) ∧ ys = y :: zs ∧
      r = ⟨if effect.decayed then y.field "id" :: rest.decayed else rest.decayed,
        if effect.inert then y.field "id" :: rest.inert else rest.inert⟩ := by
  rw [ofSecrets] at h
  split at h
  · cases h
  · next y effect hx =>
    rcases hrest : ofSecrets episode xs with ⟨zs, fault | rest⟩
    · rw [hrest] at h
      cases h
    · rw [hrest] at h
      cases h
      exact ⟨y, effect, zs, rest, hx, rfl, rfl, rfl⟩

/-- What one end of an episode does to the secrets, it does to each of them by itself. -/
theorem ofSecrets_ok {episode : Option Int} : ∀ {xs ys : List Value} {r : Result},
    ofSecrets episode xs = (ys, .ok r) →
      List.Forall₂ (fun x y => ∃ effect, ofSecret episode x = (y, .ok effect)) xs ys
  | [], ys, r, h => by
    cases h
    exact .nil
  | x :: xs, ys, r, h => by
    obtain ⟨y, effect, zs, rest, hx, hrest, rfl, -⟩ := ofSecrets_cons h
    exact .cons ⟨effect, hx⟩ (ofSecrets_ok hrest)

/-- Each of the secrets afterwards comes from one that was there before. -/
theorem exists_before {R : Value → Value → Prop} : ∀ {xs ys : List Value}, List.Forall₂ R xs ys →
    ∀ y ∈ ys, ∃ x ∈ xs, R x y
  | _, _, .nil, _, hy => nomatch hy
  | _, _, .cons (a := x) hxy hrest, z, hz => by
    rcases List.mem_cons.1 hz with rfl | hz
    · exact ⟨x, List.mem_cons_self, hxy⟩
    · obtain ⟨w, hw, hwz⟩ := exists_before hrest z hz
      exact ⟨w, List.mem_cons_of_mem _ hw, hwz⟩

theorem ofSecrets_settled : ∀ {xs : List Value}, (∀ x ∈ xs, Settled m x) →
    ofSecrets (some m) xs = (xs, .ok ⟨[], []⟩)
  | [], _ => rfl
  | x :: xs, h => by
    rw [List.forall_mem_cons] at h
    simp [ofSecrets, h.1 m le_rfl, ofSecrets_settled h.2, Except.map]

/-- What holds of the secrets of a story between two ends of episodes: each that can fade notes an
episode, and they are settled up to every episode that was there before. -/
structure Between (earlier : List Int) (story : Story) : Prop where
  listed : story.secrets = .list story.secrets.items
  marked : ∀ s ∈ story.secrets.items, IsMarked s
  settled : ∀ m ∈ earlier, ∀ s ∈ story.secrets.items, Settled m s

theorem between_of_read {document : Value} {story : Story} (hd : document.isDocument = true)
    (h : Story.read document = .ok story) : Between [] story := by
  have hkind : Kind.secret.inStory = true := rfl
  have hinner : Kind.secretDecay.inStory = true := rfl
  obtain ⟨list, hget, hlist⟩ := Schema.get_of_held "secrets" rfl rfl (Story.held_of_read hd h)
  obtain ⟨secrets, rfl, hsecrets⟩ := Schema.held_list hlist
  have hlisted : story.secrets = .list secrets := Except.ok.inj hget
  refine ⟨by rw [hlisted]; rfl, ?_, by simp⟩
  intro s hs decay hdecay hnull
  rw [hlisted] at hs
  obtain ⟨x, hx, hheld⟩ := Schema.get_of_held "decay" hkind rfl (hsecrets s hs)
  obtain rfl : x = decay := Except.ok.inj (hx.symm.trans hdecay)
  have hentity : Schema.Held Kind.secretDecay.shape x := by
    refine Schema.held_optional ?_ hheld
    rintro rfl
    exact hnull rfl
  obtain ⟨last, hlast, hwhole⟩ :=
    Schema.get_of_held "last_decayed_episode" hinner rfl hentity
  obtain ⟨n, rfl⟩ := Schema.whole_of_held hwhole
  exact ⟨n, hlast⟩

/-- The end of an episode keeps what holds between them, and no number that is noted becomes
smaller. -/
theorem between_apply {earlier : List Int} {story : Story} {r : Result} (h : Between earlier story)
    (happly : (apply story (some e)).outcome = .ok r) :
    Between (e :: earlier) (apply story (some e)).story ∧
      List.Forall₂ (fun s t => ∀ n, marker? s = some n → ∃ n', marker? t = some n' ∧ n ≤ n')
        story.secrets.items (apply story (some e)).story.secrets.items := by
  rcases hrun : ofSecrets (some e) story.secrets.items with ⟨ys, fault | r'⟩
  · simp [apply, hrun] at happly
  · have hafter : (apply story (some e)).story.secrets = .list ys := by simp [apply, hrun]
    have hitems : (apply story (some e)).story.secrets.items = ys := by rw [hafter]; rfl
    have hsteps := (List.forall₂_and_left _ _).2 ⟨h.marked, ofSecrets_ok hrun⟩
    have hbefore := exists_before hsteps
    rw [hitems]
    refine ⟨⟨by rw [hafter]; rfl, ?_, ?_⟩, hsteps.imp fun s t hst => ?_⟩
    · rw [hitems]
      intro t ht
      obtain ⟨s, -, hmarked, effect, hstep⟩ := hbefore t ht
      exact (marker_ofSecret hmarked hstep).1
    · rw [hitems]
      intro m hm t ht
      obtain ⟨s, hs, hmarked, effect, hstep⟩ := hbefore t ht
      rcases List.mem_cons.1 hm with rfl | hearlier
      · exact settled_of_ofSecret hmarked hstep
      · exact settled_ofSecret hmarked (h.settled m hearlier s hs) hstep
    · obtain ⟨hmarked, effect, hstep⟩ := hst
      exact (marker_ofSecret hmarked hstep).2

theorem apply_settled {earlier : List Int} {story : Story} (h : Between earlier story)
    (he : ∃ m ∈ earlier, e ≤ m) :
    apply story (some e) = ⟨story, [line (some e) ⟨[], []⟩], .ok ⟨[], []⟩⟩ := by
  obtain ⟨m, hm, hem⟩ := he
  have hsettled : ∀ s ∈ story.secrets.items, Settled e s :=
    fun s hs => (h.settled m hm s hs).mono hem
  have hsame : { story with secrets := .list story.secrets.items } = story := by rw [← h.listed]
  simp only [apply, ofSecrets_settled hsettled, hsame]

/-! ### A run over episodes -/

/-- The ends of some episodes, one after the other, up to the first that breaks off. -/
def applyEach (story : Story) : List Int → Story × Outcome (List Result)
  | [] => (story, .ok [])
  | e :: es =>
    let run := apply story (some e)
    match run.outcome with
    | .error fault => (run.story, .error fault)
    | .ok r =>
      let (last, results) := applyEach run.story es
      (last, results.map (r :: ·))

/-- Those of some episodes that are later than all earlier ones. -/
def recordsAfter (earlier : List Int) : List Int → List Int
  | [] => []
  | e :: es =>
    if ∀ m ∈ earlier, m < e then e :: recordsAfter (e :: earlier) es
    else recordsAfter (e :: earlier) es

/-- The episodes of a list that are later than all before them. -/
def records (es : List Int) : List Int := recordsAfter [] es

theorem applyEach_cons {story last : Story} {es : List Int} {results : List Result}
    (h : applyEach story (e :: es) = (last, .ok results)) :
    ∃ r rest, (apply story (some e)).outcome = .ok r ∧
      applyEach (apply story (some e)).story es = (last, .ok rest) ∧ results = r :: rest := by
  rw [applyEach] at h
  split at h
  · cases h
  · next r hr =>
    rcases hrest : applyEach (apply story (some e)).story es with ⟨final, fault | rest⟩
    · rw [hrest] at h
      cases h
    · rw [hrest] at h
      cases h
      exact ⟨r, rest, hr, rfl, rfl⟩

theorem cons_applyEach {story last : Story} {es : List Int} {r : Result} {rest : List Result}
    (hr : (apply story (some e)).outcome = .ok r)
    (hrest : applyEach (apply story (some e)).story es = (last, .ok rest)) :
    applyEach story (e :: es) = (last, .ok (r :: rest)) := by
  simp [applyEach, hr, hrest, Except.map]

/-- Between the ends of episodes, a run over more of them comes to the same as the run over those
that are later than all before. -/
theorem applyEach_recordsAfter : ∀ {es earlier : List Int} {story last : Story}
    {results : List Result}, Between earlier story → applyEach story es = (last, .ok results) →
      ∃ kept, applyEach story (recordsAfter earlier es) = (last, .ok kept)
  | [], _, _, _, results, _, h => ⟨results, h⟩
  | e :: es, earlier, story, last, _, hbetween, h => by
    obtain ⟨r, rest, hr, hrest, rfl⟩ := applyEach_cons h
    have hnext := (between_apply hbetween hr).1
    obtain ⟨kept, hkept⟩ := applyEach_recordsAfter hnext hrest
    by_cases hrecord : ∀ m ∈ earlier, m < e
    · rw [recordsAfter, if_pos hrecord]
      exact ⟨r :: kept, cons_applyEach hr hkept⟩
    · rw [recordsAfter, if_neg hrecord]
      have hmet : ∃ m ∈ earlier, e ≤ m := by simpa using hrecord
      have hstory : (apply story (some e)).story = story := by
        rw [apply_settled hbetween hmet]
      rw [hstory] at hkept
      exact ⟨kept, hkept⟩

/-- A run over a list of episodes passes between them as one step after the other. -/
theorem between_applyEach : ∀ {before earlier after : List Int} {story last : Story}
    {results : List Result}, Between earlier story →
      applyEach story (before ++ e :: after) = (last, .ok results) →
        Between (before.reverse ++ earlier) (applyEach story before).1 ∧
          ∃ r, (apply (applyEach story before).1 (some e)).outcome = .ok r
  | [], _, _, _, _, _, hbetween, h => by
    obtain ⟨r, -, hr, -⟩ := applyEach_cons h
    exact ⟨hbetween, r, hr⟩
  | b :: before, earlier, after, story, last, _, hbetween, h => by
    obtain ⟨r, rest, hr, hrest, rfl⟩ := applyEach_cons h
    have hnext := (between_apply hbetween hr).1
    have hstory : (applyEach story (b :: before)).1 =
        (applyEach (apply story (some b)).story before).1 := by
      simp [applyEach, hr]
    rw [hstory, List.reverse_cons, List.append_assoc]
    exact between_applyEach hnext hrest

/-- Running the ends of any episodes, where none breaks off, comes to the same story as running the
ends of those that are later than all before them. The end of an episode that is not changes nothing
and reports no secret, and no secret that notes an episode ever notes an earlier one. -/
theorem applyEach_records {document : Value} {story last : Story} {es : List Int}
    {results : List Result} (hd : document.isDocument = true) (h : Story.read document = .ok story)
    (hrun : applyEach story es = (last, .ok results)) :
    (∃ kept, applyEach story (records es) = (last, .ok kept)) ∧
    ∀ before e after, es = before ++ e :: after →
      let sofar := (applyEach story before).1
      ((∃ m ∈ before, e ≤ m) →
        apply sofar (some e) = ⟨sofar, [line (some e) ⟨[], []⟩], .ok ⟨[], []⟩⟩) ∧
      (∀ secret ∈ sofar.secrets.items, IsMarked secret) ∧
      List.Forall₂ (fun s t => ∀ n, marker? s = some n → ∃ n', marker? t = some n' ∧ n ≤ n')
        sofar.secrets.items (apply sofar (some e)).story.secrets.items := by
  have hbetween := between_of_read hd h
  refine ⟨applyEach_recordsAfter hbetween hrun, ?_⟩
  rintro before e after rfl
  obtain ⟨hsofar, r, hr⟩ := between_applyEach hbetween hrun
  rw [List.append_nil] at hsofar
  refine ⟨?_, hsofar.marked, (between_apply hsofar hr).2⟩
  rintro ⟨m, hm, hem⟩
  exact apply_settled hsofar ⟨m, List.mem_reverse.2 hm, hem⟩

/-- The document of a story with two secrets: one that was faded in the first episode and fades by
half in two, and one that does not fade. -/
def fadingDocument : Value :=
  .mapping [("secrets", .list [
    .mapping [("id", .text "letter"), ("decay", .mapping [("half_life_episodes", .int 2),
      ("applies_to", .list [.text "credibility"]), ("last_decayed_episode", .int 1)])],
    .mapping [("id", .text "oath")]])]

/-- Of the second episode, the first and the third, the first changes nothing. -/
theorem applyEach_records_two : ∃ story last kept, Story.read fadingDocument = .ok story ∧
    applyEach story [2, 3] = (last, .ok kept) ∧ (∃ results,
      applyEach story [2, 1, 3] = (last, .ok results)) ∧
    apply (applyEach story [2]).1 (some 1) =
      ⟨(applyEach story [2]).1, [line (some 1) ⟨[], []⟩], .ok ⟨[], []⟩⟩ := by
  obtain ⟨story, hread, hruns⟩ := Story.exists_read fadingDocument
    (fun story => (applyEach story [2, 1, 3]).2.toOption.isSome = true) (by decide +kernel)
  obtain ⟨results, hresults⟩ := Outcome.exists_ok hruns
  have hrun : applyEach story [2, 1, 3] = ((applyEach story [2, 1, 3]).1, .ok results) := by
    rw [← hresults]
  obtain ⟨⟨kept, hkept⟩, hsteps⟩ := applyEach_records (by decide +kernel) hread hrun
  exact ⟨story, _, kept, hread, hkept, ⟨results, hrun⟩, (hsteps [2] 1 [3] rfl).1 ⟨2, by decide⟩⟩

end Decay

end StoryWorld
