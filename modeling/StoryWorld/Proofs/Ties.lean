import Mathlib.Data.List.Basic
import StoryWorld.Path.Assign
import StoryWorld.Proofs.Reading
import StoryWorld.Retrieval.Walk

/-!
The ties of a story that was read, and what the walk along them asks of one.

Each tie starts and ends at a text, has numbers for its weights, and has nothing attached to it
under the name of an operation. Hence none of the questions that a walk asks of a tie can fail, and
their answers depend on its two ends only; and sorting the ties that were reached by their strength
leaves them the same ones.
-/

namespace StoryWorld

namespace Value

/-- Where a value starts and ends as a tie, if it is one in form. -/
def ends? : Value → Option (String × String)
  | entity .relationship slots =>
    match Table.get? (.field "from_") slots, Table.get? (.field "to") slots with
    | some (text source), some (text target) => some (source, target)
    | _, _ => none
  | _ => none

/-- Of two ends, the one that is not the given character. -/
def otherOf (c : String) (q : String × String) : String := if q.1 = c then q.2 else q.1

theorem otherOf_source (c a : String) : otherOf c (c, a) = a := if_pos rfl

theorem otherOf_target (c a : String) : otherOf c (a, c) = a := by
  unfold otherOf
  split
  · next h => exact h.symm
  · rfl

/-- A tie in order. -/
structure IsTie (v : Value) : Prop where
  ends : ∃ q, v.ends? = some q
  weights : ∃ es, v.get "weights" = .ok (.mapping es) ∧ ∀ e ∈ es, ∃ n, e.2 = .number n
  calling : ∀ operation, Assign.isPrivate operation = false → v.calling operation = .ok ()

variable {v : Value} {a b c : String}

theorem get_ends (h : v.ends? = some (a, b)) :
    v.get "from_" = .ok (.text a) ∧ v.get "to" = .ok (.text b) := by
  unfold ends? at h
  split at h
  · split at h
    · next hsource htarget =>
      cases h
      exact ⟨by simp [get, field?, hsource], by simp [get, field?, htarget]⟩
    · cases h
  · cases h

/-- Only a text is equal to a text. -/
theorem equal_text {v : Value} {c : String} : (text c).equal v = true ↔ v = text c := by
  constructor
  · intro h
    cases v with
    | text s =>
      rw [equal, beq_iff_eq] at h
      rw [h]
    | _ => simp [equal] at h
  · rintro rfl
    simp [equal]

theorem shownText_text (s : String) : (text s).shownText = s := by
  simp [shownText, shown]

/-- The text of a tie tells its ends. -/
theorem tieText_eq (h : v.ends? = some (a, b)) : v.tieText = .ok (a ++ "->" ++ b) := by
  simp [tieText, get_ends h, Outcome.ok_bind, shownText_text]

theorem otherEnd_eq (hv : v.IsTie) (h : v.ends? = some (a, b)) :
    Walk.otherEnd (.text c) v = .ok (.text (otherOf c (a, b))) := by
  have hcalling := hv.calling "other_end" (by decide)
  simp only [Walk.otherEnd, hcalling, get_ends h, Outcome.ok_bind, equal, beq_iff_eq, otherOf]
  split <;> rfl

theorem touches_eq (hv : v.IsTie) (h : v.ends? = some (a, b)) :
    Story.touches (.text c) v = .ok (a == c || b == c) := by
  have hcalling := hv.calling "touches" (by decide)
  simp [Story.touches, hcalling, get_ends h, Outcome.ok_bind, equal]

end Value

/-! ### Ties that were read -/

namespace Schema

/-- What a field for named numbers admits. -/
theorem numbers_admitted {name : String} {v : Value}
    (h : Admits ⟨name, name, [name], some (.mapping []), .free⟩ (.mapping .number) v) :
    ∃ es, v = .mapping es ∧ ∀ e ∈ es, ∃ n, e.2 = .number n := by
  rcases h with h | ⟨u, -, h⟩
  · exact ⟨[], by simpa using h.symm, by simp⟩
  · obtain ⟨w, hw, hv⟩ := Verdict.andThen_accepted.1 h
    unfold validate at hw
    split at hw
    · obtain ⟨fs, hfs, rfl⟩ := Verdict.map_accepted.1 hw
      obtain rfl : Value.mapping fs = v := by simpa [Rule.check] using hv
      refine ⟨fs, rfl, ?_⟩
      intro f hf
      obtain ⟨e, -, he⟩ := readEntries_accepted hfs f hf
      unfold validate at he
      obtain ⟨n, -, hn⟩ := Verdict.map_accepted.1 he
      exact ⟨n, hn.symm⟩
    · cases hw

theorem fields_of_validateFields {fields : Fields} {es : List (String × Value)}
    {slots : List (Slot × Value)} (h : validateFields fields es = .accepted slots) :
    ∀ e ∈ slots, ∃ name, e.1 = .field name := by
  induction fields generalizing slots with
  | nil =>
    cases h
    simp
  | cons g rest ih =>
    unfold validateFields at h
    obtain ⟨v, vs, -, hvs, rfl⟩ := Verdict.both_accepted.1 h
    exact List.forall_mem_cons.2 ⟨⟨_, rfl⟩, ih hvs⟩

theorem extras_of_unknownSlots {kind : Kind} {es : List (String × Value)}
    {slots : List (Slot × Value)} (h : unknownSlots kind es = .accepted slots) :
    ∀ e ∈ slots, ∃ name, e.1 = .extra name := by
  unfold unknownSlots at h
  split at h
  · cases h
    intro e he
    obtain ⟨f, -, rfl⟩ := List.mem_map.1 he
    exact ⟨f.1, rfl⟩
  · cases h
    simp
  · split at h
    · cases h
      simp
    · cases h

/-- Nothing is attached to an entity that was read. -/
theorem calling_of_validate {kind : Kind} {fields : Fields} {v w : Value}
    (h : validate (.record kind fields) v = .accepted w) (operation : String) :
    w.calling operation = .ok () := by
  obtain ⟨es, slots, extra, -, hslots, hextra, hw⟩ := record_accepted h
  have hnone : Table.has (.attached operation) (slots ++ extra) = false := by
    cases hget : Table.get? (.attached operation) (slots ++ extra) with
    | none => simp [Table.has, hget]
    | some x =>
      exfalso
      rcases List.mem_append.1 (Table.mem_of_get? hget) with hmem | hmem
      · obtain ⟨name, hname⟩ := fields_of_validateFields hslots _ hmem
        cases hname
      · obtain ⟨name, hname⟩ := extras_of_unknownSlots hextra _ hmem
        cases hname
  rw [eq_of_checkWhole hw]
  simp [Value.calling, hnone]

/-- A tie that was read is in order. -/
theorem isTie_of_validate {v w : Value}
    (h : validate Kind.relationship.shape v = .accepted w) : w.IsTie := by
  obtain ⟨slots, source, rfl, hsource, hs⟩ := read_field h "from_" rfl
  obtain ⟨slots', target, heq, htarget, ht⟩ := read_field h "to" rfl
  obtain ⟨-, rfl⟩ := by simpa using heq
  obtain ⟨slots', weights, heq, hweights, hw⟩ := read_field h "weights" rfl
  obtain ⟨-, rfl⟩ := by simpa using heq
  obtain ⟨a, rfl⟩ := text_admitted hs
  obtain ⟨b, rfl⟩ := text_admitted ht
  obtain ⟨es, rfl, hes⟩ := numbers_admitted hw
  refine ⟨⟨(a, b), by simp [Value.ends?, hsource, htarget]⟩, ⟨es, ?_, hes⟩, ?_⟩
  · simp [Value.get, Value.field?, hweights]
  · exact fun operation _ => calling_of_validate h operation

end Schema

namespace Story

variable {story : Story} {c : String}

/-- The ties of a story. -/
def ties (story : Story) : List Value := story.relationships.items

/-- The pairs of ends of the ties, in the order of these. -/
def ends (story : Story) : List (String × String) := story.ties.filterMap Value.ends?

/-- The first tie with given ends. -/
def firstTie? (story : Story) (q : String × String) : Option Value :=
  story.ties.find? fun tie => tie.ends? == some q

theorem isTie_of_read {document : Value} (h : read document = .ok story) :
    ∀ tie ∈ story.ties, tie.IsTie := by
  obtain ⟨w, hw, rfl⟩ := Outcome.map_ok.1 h
  have hv := Verdict.outcome_ok.1 hw
  obtain ⟨ys, hys, hread⟩ := Schema.entities_of_validate hv "relationships" .relationship rfl
  intro tie htie
  have hmem : tie ∈ (w.field "relationships").items := htie
  rw [hys] at hmem
  obtain ⟨x, hx⟩ := hread tie hmem
  exact Schema.isTie_of_validate hx

/-- Whether a pair of ends has a character among them. -/
def meets (c : String) (q : String × String) : Bool := q.1 == c || q.2 == c

/-- The ties of a character: those with it among their ends. -/
def tiesOf (story : Story) (c : String) : List Value :=
  story.ties.filter fun tie => tie.ends?.any (meets c)

theorem selectItems_of_ok {test : Value → Outcome Bool} {decides : Value → Bool} {xs : List Value}
    (h : ∀ x ∈ xs, test x = .ok (decides x)) : selectItems test xs = .ok (xs.filter decides) := by
  induction xs with
  | nil => rfl
  | cons x xs ih =>
    rw [List.forall_mem_cons] at h
    simp only [selectItems, h.1, ih h.2, Outcome.ok_bind, List.filter_cons]
    rfl

/-- Looking up the ties of a character never fails. -/
theorem relationshipsFor_eq (h : ∀ tie ∈ story.ties, tie.IsTie) (c : String) :
    story.relationshipsFor (.text c) = .ok (story.tiesOf c) := by
  apply selectItems_of_ok
  intro tie htie
  obtain ⟨⟨a, b⟩, hends⟩ := (h tie htie).ends
  simp [Value.touches_eq (h tie htie) hends, hends, meets]

/-- Ties with different ends have different texts. -/
def Unambiguous (story : Story) : Prop :=
  ∀ q ∈ story.ends, ∀ r ∈ story.ends, q.1 ++ "->" ++ q.2 = r.1 ++ "->" ++ r.2 → q = r

instance : Decidable story.Unambiguous :=
  inferInstanceAs (Decidable (∀ q ∈ story.ends, ∀ r ∈ story.ends,
    q.1 ++ "->" ++ q.2 = r.1 ++ "->" ++ r.2 → q = r))

theorem mem_ends {q : String × String} :
    q ∈ story.ends ↔ ∃ tie ∈ story.ties, tie.ends? = some q := by
  simp [ends]

theorem mem_tiesOf {tie : Value} {q : String × String} (hq : tie.ends? = some q) :
    tie ∈ story.tiesOf c ↔ tie ∈ story.ties ∧ meets c q = true := by
  simp [tiesOf, hq]

/-- The ends of the ties of a character are those that have it among them. -/
theorem ends_of_tiesOf {q : String × String} :
    some q ∈ (story.tiesOf c).map Value.ends? ↔ q ∈ story.ends ∧ meets c q = true := by
  rw [List.mem_map, mem_ends]
  constructor
  · rintro ⟨tie, htie, hq⟩
    rw [mem_tiesOf hq] at htie
    exact ⟨⟨tie, htie.1, hq⟩, htie.2⟩
  · rintro ⟨⟨tie, htie, hq⟩, hmeets⟩
    exact ⟨tie, (mem_tiesOf hq).2 ⟨htie, hmeets⟩, hq⟩

theorem meets_iff {c : String} {q : String × String} :
    meets c q = true ↔
      (q.1 = c ∧ q.2 = Value.otherOf c q) ∨ (q.1 = Value.otherOf c q ∧ q.2 = c) := by
  by_cases hc : q.1 = c
  · simp [meets, Value.otherOf, hc]
  · simp [meets, Value.otherOf, hc]

/-- The first of a character's ties with given ends is the first one of the story. -/
theorem firstTie?_of_tiesOf {q : String × String} {tie : Value} {done rest : List Value}
    (hall : story.tiesOf c = done ++ tie :: rest) (hq : tie.ends? = some q)
    (hdone : some q ∉ done.map Value.ends?) : story.firstTie? q = some tie := by
  have hmem : tie ∈ story.tiesOf c := by
    rw [hall]
    simp
  have hmeets := ((mem_tiesOf hq).1 hmem).2
  have hfirst : (story.tiesOf c).find? (fun t => t.ends? == some q) = some tie := by
    rw [hall, List.find?_eq_some_iff_append]
    refine ⟨by simp [hq], done, rest, rfl, ?_⟩
    intro t ht
    have hne : t.ends? ≠ some q := fun h => hdone (List.mem_map.2 ⟨t, ht, h⟩)
    simpa using hne
  rw [tiesOf, List.find?_filter] at hfirst
  rw [firstTie?, ← hfirst]
  congr 1
  funext t
  by_cases ht : t.ends? = some q
  · simp [ht, hmeets]
  · simp [ht]

theorem ends?_of_firstTie? {q : String × String} {tie : Value}
    (h : story.firstTie? q = some tie) : tie.ends? = some q := by
  simpa using List.find?_some h

theorem mem_ends_of_firstTie? {q : String × String} {tie : Value}
    (h : story.firstTie? q = some tie) : q ∈ story.ends :=
  mem_ends.2 ⟨tie, List.mem_of_find?_eq_some h, ends?_of_firstTie? h⟩

end Story

/-! ### Sorting -/

namespace Walk

theorem greatest_number {best : Value} {vs : List Value} (hbest : ∃ n, best = .number n)
    (hvs : ∀ v ∈ vs, ∃ n, v = .number n) : ∃ n, greatest best vs = .ok (.number n) := by
  induction vs generalizing best with
  | nil =>
    obtain ⟨n, rfl⟩ := hbest
    exact ⟨n, rfl⟩
  | cons v vs ih =>
    rw [List.forall_mem_cons] at hvs
    obtain ⟨⟨m, rfl⟩, hvs⟩ := hvs
    obtain ⟨n, rfl⟩ := hbest
    simp only [greatest, Value.holds, Value.numeric?, Outcome.ok_bind]
    split
    · exact ih ⟨m, rfl⟩ hvs
    · exact ih ⟨n, rfl⟩ hvs

/-- A tie in order has a number for its strength. -/
theorem strongest_number {tie : Value} (h : tie.IsTie) : ∃ n, strongest tie = .ok (.number n) := by
  obtain ⟨es, hes, hnumbers⟩ := h.weights
  simp only [strongest, hes, Outcome.ok_bind]
  cases es with
  | nil => exact ⟨_, rfl⟩
  | cons e rest =>
    rw [List.forall_mem_cons] at hnumbers
    refine greatest_number hnumbers.1 ?_
    intro v hv
    obtain ⟨f, hf, rfl⟩ := List.mem_map.1 hv
    exact hnumbers.2 f hf

/-- A tie is sorted by its strength with the sign turned around. -/
theorem keyed_of_strongest {w : Walked} {n : Number} (h : strongest w.tie = .ok (.number n)) :
    keyed w = .ok (n.neg, w) := by
  simp [keyed, h, Outcome.ok_bind, Value.minus, Value.numeric?]

theorem keyed_eq {w : Walked} (h : w.tie.IsTie) : ∃ n, keyed w = .ok (n, w) := by
  obtain ⟨n, hn⟩ := strongest_number h
  exact ⟨n.neg, keyed_of_strongest hn⟩

theorem mapM_keyed {ws : List Walked} (h : ∀ w ∈ ws, w.tie.IsTie) :
    ∃ ks, ws.mapM keyed = .ok ks ∧ ks.map Prod.snd = ws := by
  induction ws with
  | nil => exact ⟨[], rfl, rfl⟩
  | cons w ws ih =>
    rw [List.forall_mem_cons] at h
    obtain ⟨n, hn⟩ := keyed_eq h.1
    obtain ⟨ks, hks, rfl⟩ := ih h.2
    exact ⟨(n, w) :: ks, by simp [List.mapM_cons, hn, hks, Outcome.ok_bind], rfl⟩

/-- What is reported are the ties that were reached, in another order. -/
theorem walk_of_reached {story : Story} {seeds : List Value} {hops : Nat} {ws : List Walked}
    (hr : reached story seeds hops = .ok ws) (hws : ∀ w ∈ ws, w.tie.IsTie) :
    ∃ result, walk story seeds hops = .ok result ∧ result.Perm ws := by
  obtain ⟨ks, hks, rfl⟩ := mapM_keyed hws
  refine ⟨(ks.mergeSort before).map Prod.snd, by simp [walk, hr, hks, Outcome.ok_bind], ?_⟩
  exact (List.mergeSort_perm ks before).map Prod.snd

end Walk

end StoryWorld
