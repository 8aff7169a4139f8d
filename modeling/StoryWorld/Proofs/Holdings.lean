import StoryWorld.Proofs.Reading
import StoryWorld.Story.Basic
import StoryWorld.Delta.Transfer

/-!
What the cash ledger of a story says: who holds how much.

An entry in order says who holds a balance, a finite number not below zero. A ledger is sound if all
of it are entries in order and no two are of one holder; the check of the ledger as a whole finds
just the second. Entries and assets that were read are sound.
-/

namespace StoryWorld

/-- A number that the rule on balances lets pass: finite, and not below zero. -/
def Number.IsBalance (n : Number) : Prop := n.finite? = some true ∧ (Number.int 0).atMost n = true

instance (n : Number) : Decidable n.IsBalance := by
  unfold Number.IsBalance
  infer_instance

/-- What an entry of the ledger says. -/
structure Holding where
  holder : String
  balance : Number
  deriving DecidableEq, Repr

namespace Value

/-- What a value says as an entry of the ledger, if it is one in form. -/
def holding? : Value → Option Holding
  | entity .ledgerEntry slots =>
    match Table.get? (.field "holder") slots, Table.get? (.field "denarii") slots with
    | some (text holder), some (number balance) => some ⟨holder, balance⟩
    | _, _ => none
  | _ => none

/-- An entry in order. -/
def IsEntry (v : Value) : Prop := ∃ h, v.holding? = some h ∧ h.balance.IsBalance

/-- A list of entries in order. -/
def IsLedger (v : Value) : Prop := ∃ entries, v = list entries ∧ ∀ e ∈ entries, e.IsEntry

/-- Assets with a list of entries in order for their cash ledger. -/
def IsAssets (v : Value) : Prop :=
  ∃ slots ledger, v = entity .assets slots ∧
    Table.get? (.field "cash_ledger") slots = some ledger ∧ ledger.IsLedger

theorem holding?_eq {v : Value} {h : Holding} :
    v.holding? = some h ↔ ∃ slots, v = entity .ledgerEntry slots ∧
      Table.get? (.field "holder") slots = some (text h.holder) ∧
      Table.get? (.field "denarii") slots = some (number h.balance) := by
  constructor
  · intro hv
    unfold holding? at hv
    split at hv
    · split at hv
      · rename_i slots _ _ holder balance hh hb
        obtain rfl := by simpa using hv
        exact ⟨slots, rfl, hh, hb⟩
      · cases hv
    · cases hv
  · rintro ⟨slots, rfl, hh, hb⟩
    simp [holding?, hh, hb]

end Value

namespace Story

/-- What the entries of the cash ledger say, in their order. -/
def holdings (story : Story) : List Holding := (Delta.ledger story).filterMap Value.holding?

/-- The cash ledger is a list of entries in order, no two of one holder. -/
structure Sound (story : Story) : Prop where
  entries : story.assets.IsAssets
  unique : (story.holdings.map Holding.holder).Nodup

end Story

/-! ### The check of a ledger -/

namespace Ledger

/-- Entries in order pass the check after other holders only if no holder is met twice. -/
theorem nodup_of_flawAfter? : ∀ {seen : List Value} {entries : List Value},
    (∀ e ∈ entries, e.IsEntry) → flawAfter? seen entries = .ok none →
      ((entries.filterMap Value.holding?).map Holding.holder).Nodup ∧
      ∀ h ∈ (entries.filterMap Value.holding?).map Holding.holder,
        seen.any ((Value.text h).equal ·) = false
  | seen, [], _, _ => by simp
  | seen, entry :: rest, he, hf => by
    obtain ⟨h, hh, -⟩ := he entry List.mem_cons_self
    obtain ⟨slots, rfl, hholder, -⟩ := Value.holding?_eq.1 hh
    have hget : (Value.entity .ledgerEntry slots).get "holder" = .ok (.text h.holder) := by
      simp [Value.get, Value.field?, hholder]
    simp only [flawAfter?, Value.isEntity, beq_self_eq_true, Bool.not_true, if_false, hget,
      bind, Except.bind, Value.isKey, Bool.false_eq_true] at hf
    split at hf
    · cases hf
    · rename_i hseen
      obtain ⟨hnodup, hfresh⟩ :=
        nodup_of_flawAfter? (fun e h => he e (List.mem_cons_of_mem _ h)) hf
      simp only [List.filterMap_cons, hh, List.map_cons, List.nodup_cons, List.mem_cons,
        forall_eq_or_imp]
      refine ⟨⟨fun hmem => ?_, hnodup⟩, by simpa using hseen, fun g hg => ?_⟩
      · have := hfresh _ hmem
        simp [Value.equal] at this
      · have := hfresh g hg
        rw [List.any_append, Bool.or_eq_false_iff] at this
        exact this.1

end Ledger

namespace Story

/-- Assets in order hold the entries of the ledger as a list. -/
theorem ledger_of_assets {story : Story} (h : story.assets.IsAssets) :
    ∃ slots, story.assets = .entity .assets slots ∧
      Table.get? (.field "cash_ledger") slots = some (.list (Delta.ledger story)) ∧
      ∀ e ∈ Delta.ledger story, e.IsEntry := by
  obtain ⟨slots, _, hslots, hget, entries, rfl, he⟩ := h
  have hentries : Delta.ledger story = entries := by
    simp [Delta.ledger, hslots, Value.field, Value.field?, hget, Value.items]
  rw [hentries]
  exact ⟨slots, hslots, hget, he⟩

/-- Assets in order whose check finds no flaw make a sound story. -/
theorem sound_of_flaw? {story : Story} (ha : story.assets.IsAssets)
    (hf : Ledger.flaw? story.assets = .ok none) : story.Sound := by
  refine ⟨ha, ?_⟩
  obtain ⟨slots, hslots, hget, he⟩ := ledger_of_assets ha
  have hcheck : Ledger.flawAfter? [] (Delta.ledger story) = .ok none := by
    simpa [Ledger.flaw?, hslots, Value.get, Value.field?, hget, Value.iterate, bind, Except.bind]
      using hf
  exact (Ledger.nodup_of_flawAfter? he hcheck).1

end Story

/-! ### Entries and assets that were read -/

namespace Schema

theorem isBalance_of_checkBalance {n : Number} {v : Value} (h : Rule.checkBalance n = .accepted v) :
    v = .number n ∧ n.IsBalance := by
  unfold Rule.checkBalance at h
  split at h
  · cases h
  · rename_i finite hfinite
    split at h
    · rename_i hn
      rw [Bool.and_eq_true] at hn
      exact ⟨by simpa using h.symm, by rw [hfinite, hn.1], hn.2⟩
    · cases h

/-- The holder of an entry is a text. -/
theorem holder_admitted {f : Field} {shape : Shape} {v : Value}
    (hf : Kind.ledgerEntry.field? "holder" = some (f, shape)) (h : Admits f shape v) :
    ∃ s, v = .text s := by
  obtain ⟨rfl, rfl⟩ : (⟨"holder", "holder", ["holder"], none, .free⟩ : Field) = f ∧ .text = shape := by
    simpa [Kind.field?, Kind.fields, Fields.ledgerEntry, Shape.required, Shape.plain] using hf
  exact text_admitted h

/-- The balance of an entry is a number that is one. -/
theorem denarii_admitted {f : Field} {shape : Shape} {v : Value}
    (hf : Kind.ledgerEntry.field? "denarii" = some (f, shape)) (h : Admits f shape v) :
    ∃ n : Number, v = .number n ∧ n.IsBalance := by
  obtain ⟨rfl, rfl⟩ :
      (⟨"denarii", "denarii", ["denarii"], some (.int 0), .balance⟩ : Field) = f ∧
        .number = shape := by
    simpa [Kind.field?, Kind.fields, Fields.ledgerEntry, Shape.required, Shape.plain,
      Shape.withDefault, Shape.ruled] using hf
  rcases h with h | ⟨u, -, h⟩
  · exact ⟨.int 0, by simpa [Value.int] using h.symm, by decide +kernel⟩
  · obtain ⟨w, hw, hv⟩ := Verdict.andThen_accepted.1 h
    unfold validate at hw
    obtain ⟨n, -, rfl⟩ := Verdict.map_accepted.1 hw
    exact ⟨n, isBalance_of_checkBalance hv⟩

/-- An entry that was read is in order. -/
theorem isEntry_of_validate {v w : Value}
    (h : validate Kind.ledgerEntry.shape v = .accepted w) : w.IsEntry := by
  obtain ⟨slots, x, rfl, hx, hax⟩ := read_field h "holder" rfl
  obtain ⟨slots', y, heq, hy, hay⟩ := read_field h "denarii" rfl
  obtain ⟨-, rfl⟩ := by simpa using heq
  obtain ⟨holder, rfl⟩ := holder_admitted rfl hax
  obtain ⟨n, rfl, hn⟩ := denarii_admitted rfl hay
  exact ⟨⟨holder, n⟩, Value.holding?_eq.2 ⟨slots, rfl, hx, hy⟩, hn⟩

/-- What the field for the cash ledger admits is a list of entries in order. -/
theorem ledger_admitted {f : Field} {shape : Shape} {v : Value}
    (hf : Kind.assets.field? "cash_ledger" = some (f, shape)) (h : Admits f shape v) :
    v.IsLedger := by
  obtain ⟨rfl, rfl⟩ :
      (⟨"cash_ledger", "cash_ledger", ["cash_ledger"], some (.list []), .free⟩ : Field) = f ∧
        .list Kind.ledgerEntry.shape = shape := by
    simpa [Kind.field?, Kind.fields, Fields.assets, Shape.nullable, Shape.plain, Shape.many,
      Kind.shape] using hf
  rcases h with h | ⟨u, -, h⟩
  · exact ⟨[], by simpa using h.symm, by simp⟩
  · obtain ⟨w, hw, hv⟩ := Verdict.andThen_accepted.1 h
    obtain ⟨xs, ys, -, rfl, hys⟩ := list_accepted hw
    obtain rfl : Value.list ys = v := by simpa [Rule.check] using hv
    refine ⟨ys, rfl, fun e he => ?_⟩
    obtain ⟨x, -, hx⟩ := hys e he
    exact isEntry_of_validate hx

/-- Assets that were read are in order, and their check finds no flaw. -/
theorem isAssets_of_validate {v w : Value} (h : validate Kind.assets.shape v = .accepted w) :
    w.IsAssets ∧ Ledger.flaw? w = .ok none := by
  obtain ⟨slots, x, rfl, hx, hax⟩ := read_field h "cash_ledger" rfl
  refine ⟨⟨slots, x, rfl, hx, ledger_admitted rfl hax⟩, ?_⟩
  obtain ⟨es, slots', extra, -, -, -, hw⟩ := record_accepted h
  exact flaw?_of_checkWhole hw

end Schema

namespace Story

/-- A story that was read is sound. -/
theorem sound_of_read {document : Value} {story : Story} (h : read document = .ok story) :
    story.Sound := by
  obtain ⟨w, hw, rfl⟩ := Outcome.map_ok.1 h
  have hv := Verdict.outcome_ok.1 hw
  obtain ⟨slots, x, rfl, hx, hax⟩ := Schema.read_field hv "assets" rfl
  have hassets : (ofEntity (.entity .worldState slots)).assets = x := by
    simp [ofEntity, Value.field, Value.field?, hx]
  have hok : x.IsAssets ∧ Ledger.flaw? x = .ok none := by
    rcases hax with h | ⟨u, -, h⟩
    · obtain rfl := by simpa using h
      exact ⟨⟨_, _, rfl, rfl, [], rfl, by simp⟩, rfl⟩
    · obtain ⟨w, hw, hx⟩ := Verdict.andThen_accepted.1 h
      obtain rfl : w = x := by simpa [Rule.check] using hx
      exact Schema.isAssets_of_validate hw
  exact sound_of_flaw? (by rw [hassets]; exact hok.1) (by rw [hassets]; exact hok.2)

end Story

end StoryWorld
