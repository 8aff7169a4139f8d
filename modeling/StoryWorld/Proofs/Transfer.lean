import StoryWorld.Proofs.Difference
import StoryWorld.Proofs.Guarded
import StoryWorld.Proofs.Tables
import StoryWorld.Delta.Batch

/-!
What a transfer does to a sound ledger.

The holdings of a ledger say all that a transfer looks at: where the entry of a holder stands and
how much it holds. Each operation on the ledger is restated on the holdings, together with the exact
entries that it leaves. A balance that the entry does not take fails the operation and leaves the
ledger alone. Whatever comes of a transfer, the ledger stays sound.
-/

namespace StoryWorld

/-! ### An entry and its balance -/

namespace Value

/-- An entry with another balance. What was attached to it is not kept. -/
def withBalance (n : Number) : Value → Value
  | entity kind slots =>
    entity kind (Table.put (.field "denarii") (.number n) (slots.filter Assign.documented))
  | v => v

/-- Of two balances that an entry is given the second counts. -/
theorem withBalance_withBalance (e : Value) (a b : Number) :
    (e.withBalance a).withBalance b = e.withBalance b := by
  cases e with
  | entity kind slots =>
    have hkept : (Table.put (.field "denarii") (.number a) (slots.filter Assign.documented)).filter
        Assign.documented =
        Table.put (.field "denarii") (.number a) (slots.filter Assign.documented) := by
      rw [List.filter_eq_self]
      intro e he
      rcases Table.mem_put he with rfl | he
      · rfl
      · exact (List.mem_filter.1 he).2
    simp only [withBalance, hkept, Table.put_put]
  | _ => rfl

/-- Whether a value, if it is an entity, still has the set of the fields that it was given. -/
def notes : Value → Bool
  | entity _ slots => Assign.notes slots
  | _ => true

theorem holding?_withBalance {e : Value} {g : Holding} (h : e.holding? = some g) (n : Number) :
    (e.withBalance n).holding? = some ⟨g.holder, n⟩ := by
  obtain ⟨slots, rfl, hh, hd⟩ := holding?_eq.1 h
  refine Part.holding?_put_denarii (g := g) (holding?_eq.2 ⟨_, rfl, ?_, ?_⟩) n
  · rw [Table.get?_filter (fun _ => rfl), hh]
  · rw [Table.get?_filter (fun _ => rfl), hd]

end Value

namespace Schema

theorem checkBalance_eq {n : Number} (h : n.IsBalance) :
    Rule.checkBalance n = .accepted (.number n) := by
  simp [Rule.checkBalance, h.1, h.2]

end Schema

namespace Assign

/-- Assigning a balance to an entry is decided by the rule on balances. -/
theorem assign_denarii (slots : List (Slot × Value)) (n : Number) :
    assign (.entity .ledgerEntry slots) (.slot (.field "denarii")) (.number n) =
      match (Rule.checkBalance n).under "denarii" with
      | .accepted v => settle .ledgerEntry slots (.field "denarii") v
      | .rejected problems =>
        (.entity .ledgerEntry slots, .error (.invalid ⟨.ledgerEntry, problems⟩))
      | .overflow => (.entity .ledgerEntry slots, .error .overflow) := rfl

/-- An entry that notes what it is given takes a number that is a balance. -/
theorem assign_balance {e : Value} {g : Holding} (h : e.holding? = some g)
    (hnotes : e.notes = true) {n : Number} (hn : n.IsBalance) :
    assign e (.slot (.field "denarii")) (.number n) = (e.withBalance n, .ok ()) := by
  obtain ⟨slots, rfl, -, -⟩ := Value.holding?_eq.1 h
  have hslots : notes slots = true := hnotes
  rw [assign_denarii, Schema.checkBalance_eq hn]
  simp only [Verdict.under, settle, if_pos hslots]
  rfl

/-- Else it takes none, and stays as it is. -/
theorem assign_not_balance {e : Value} {g : Holding} (h : e.holding? = some g) {n : Number}
    (hn : e.notes = true → ¬n.IsBalance) :
    ∃ fault, assign e (.slot (.field "denarii")) (.number n) = (e, .error fault) ∧
      ∀ code message, fault ≠ .refused code message := by
  obtain ⟨slots, rfl, -, -⟩ := Value.holding?_eq.1 h
  rw [assign_denarii]
  cases hc : Rule.checkBalance n with
  | accepted v =>
    have hnotes : ¬notes slots = true := fun hnotes =>
      hn hnotes (Schema.isBalance_of_checkBalance hc).2
    simp only [Verdict.under, settle, if_neg hnotes]
    exact ⟨_, rfl, by simp⟩
  | rejected problems => exact ⟨_, rfl, by simp⟩
  | overflow => exact ⟨_, rfl, by simp⟩

end Assign

/-! ### The ledger and its holdings -/

namespace Story

variable {story : Story}

theorem ledger_setLedger (h : story.assets.IsAssets) (entries : List Value) :
    Delta.ledger (Delta.setLedger story entries) = entries := by
  obtain ⟨slots, _, hslots, -⟩ := h
  simp [Delta.ledger, Delta.setLedger, hslots, Value.setField, Value.field, Value.field?, Value.items]

theorem setLedger_ledger (h : story.assets.IsAssets) :
    Delta.setLedger story (Delta.ledger story) = story := by
  obtain ⟨slots, hslots, hget, -⟩ := ledger_of_assets h
  have hassets : story.assets.setField "cash_ledger" (.list (Delta.ledger story)) = story.assets :=
    Value.setField_of_field? (by simp [hslots, Value.field?, hget])
  rw [Delta.setLedger, hassets]

theorem setLedger_setLedger (entries entries' : List Value) :
    Delta.setLedger (Delta.setLedger story entries) entries' = Delta.setLedger story entries' := by
  cases h : story.assets <;> simp [Delta.setLedger, h, Value.setField, Table.put_put]

/-- The entries of a ledger in order and their holdings correspond. -/
theorem Sound.map_holding? (h : story.Sound) :
    (Delta.ledger story).map Value.holding? = story.holdings.map some := by
  obtain ⟨_, -, -, he⟩ := ledger_of_assets h.entries
  rw [holdings]
  generalize Delta.ledger story = entries at he ⊢
  induction entries with
  | nil => rfl
  | cons e rest ih =>
    obtain ⟨g, hg, -⟩ := he e List.mem_cons_self
    simp only [List.map_cons, List.filterMap_cons, hg]
    rw [ih fun e h => he e (List.mem_cons_of_mem _ h)]

/-- Every entry of a sound ledger has one of its holdings. -/
theorem Sound.holding_of_mem (h : story.Sound) {e : Value} (he : e ∈ Delta.ledger story) :
    ∃ g ∈ story.holdings, e.holding? = some g := by
  have hmem : e.holding? ∈ story.holdings.map some := h.map_holding? ▸ List.mem_map_of_mem he
  obtain ⟨g, hg, heq⟩ := List.mem_map.1 hmem
  exact ⟨g, hg, heq.symm⟩

/-- Every balance of a sound ledger is one. -/
theorem Sound.isBalance (h : story.Sound) {g : Holding} (hg : g ∈ story.holdings) :
    g.balance.IsBalance := by
  obtain ⟨e, hmem, hg⟩ := List.mem_filterMap.1 hg
  obtain ⟨_, -, -, hentries⟩ := ledger_of_assets h.entries
  obtain ⟨g', hg', hb⟩ := hentries e hmem
  rw [hg] at hg'
  obtain rfl := by simpa using hg'
  exact hb

/-- A ledger of entries with the given holdings. -/
theorem holdings_setLedger (h : story.assets.IsAssets) {entries : List Value} {hs : List Holding}
    (he : entries.map Value.holding? = hs.map some) :
    (Delta.setLedger story entries).holdings = hs := by
  rw [holdings, ledger_setLedger h]
  have := congrArg (List.filterMap id) he
  simpa [List.filterMap_map] using this

/-- A ledger of entries with holdings in order, no two of one holder, is sound. -/
theorem sound_setLedger (h : story.assets.IsAssets) {entries : List Value} {hs : List Holding}
    (he : entries.map Value.holding? = hs.map some) (hb : ∀ g ∈ hs, g.balance.IsBalance)
    (hn : (hs.map Holding.holder).Nodup) : (Delta.setLedger story entries).Sound := by
  refine ⟨?_, by rw [holdings_setLedger h he]; exact hn⟩
  obtain ⟨slots, _, hslots, -⟩ := h
  refine ⟨Table.put (.field "cash_ledger") (.list entries) slots, .list entries, ?_,
    Table.get?_put_self .., entries, rfl, fun e hmem => ?_⟩
  · simp [Delta.setLedger, hslots, Value.setField]
  · have hmem' : e.holding? ∈ hs.map some := he ▸ List.mem_map_of_mem hmem
    obtain ⟨g, hg, heq⟩ := List.mem_map.1 hmem'
    exact ⟨g, heq.symm, hb g hg⟩

end Story

namespace Delta

variable {story : Story}

/-- Looking through the entries by what they say is looking through their holdings. -/
theorem findFrom_eq {test : Value → Outcome Bool} {p : Holding → Bool}
    (ht : ∀ e g, e.holding? = some g → test e = .ok (p g)) :
    ∀ {entries : List Value} {hs : List Holding} (n : Nat),
      entries.map Value.holding? = hs.map some →
      Value.findFrom test n entries = .ok ((hs.findIdx? p).map (· + n))
  | [], [], n, _ => rfl
  | e :: entries, g :: hs, n, h => by
    rw [List.map_cons, List.map_cons, List.cons.injEq] at h
    simp only [Value.findFrom, ht e g h.1, bind, Except.bind, List.findIdx?_cons]
    by_cases hg : p g = true
    · simp [hg, pure, Except.pure]
    · rw [if_neg hg, if_neg hg, findFrom_eq ht (n + 1) h.2, Option.map_map]
      congr 2
      funext i
      simp only [Function.comp]
      omega
  | [], _ :: _, _, h => by simp at h
  | _ :: _, [], _, h => by simp at h

/-- The entry of a holder stands where the holding does. -/
theorem entryOf_eq (h : story.Sound) (holder : String) :
    entryOf story holder = .ok (story.holdings.findIdx? (·.holder == holder)) := by
  rw [entryOf, findFrom_eq (p := (·.holder == holder)) ?_ 0 h.map_holding?]
  · simp
  · intro e g hg
    obtain ⟨slots, rfl, hh, -⟩ := Value.holding?_eq.1 hg
    simp [Value.get, Value.field?, hh, Except.map, Value.equal]

/-- A holder has one entry only. -/
theorem holder_inj (h : story.Sound) {i j : Nat} {g g' : Holding}
    (hi : story.holdings[i]? = some g) (hj : story.holdings[j]? = some g') :
    g.holder = g'.holder ↔ i = j := by
  obtain ⟨hilt, rfl⟩ := List.getElem?_eq_some_iff.1 hi
  obtain ⟨hjlt, rfl⟩ := List.getElem?_eq_some_iff.1 hj
  have hi' : i < (story.holdings.map Holding.holder).length := by simpa using hilt
  have hj' : j < (story.holdings.map Holding.holder).length := by simpa using hjlt
  have hinj : (story.holdings.map Holding.holder)[i] = (story.holdings.map Holding.holder)[j] ↔
      i = j := h.unique.getElem_inj_iff
  rw [List.getElem_map, List.getElem_map] at hinj
  exact hinj

/-- The entry of a holding. -/
theorem entry_of_holding (h : story.Sound) {i : Nat} {g : Holding}
    (hi : story.holdings[i]? = some g) :
    ∃ e, (ledger story)[i]? = some e ∧ e.holding? = some g := by
  have := congrArg (·[i]?) h.map_holding?
  simpa [List.getElem?_map, hi] using this

theorem balanceAt_eq (h : story.Sound) {i : Nat} {g : Holding}
    (hi : story.holdings[i]? = some g) : balanceAt story i = .ok g.balance := by
  obtain ⟨e, he, hg⟩ := entry_of_holding h hi
  obtain ⟨slots, rfl, -, hd⟩ := Value.holding?_eq.1 hg
  simp [balanceAt, List.getD_eq_getElem?_getD, he, Value.get, Value.field?, hd, Value.number?,
    bind, Except.bind, pure, Except.pure]

/-- The ledger with another balance in one entry. -/
def rebalanced (story : Story) (i : Nat) (n : Number) : Story :=
  setLedger story ((ledger story).modify i (Value.withBalance n))

/-- Whether the entry at a position of the ledger still has the set of the fields that it was
given: it takes no balance otherwise. -/
def notesAt (story : Story) (i : Nat) : Bool := ((ledger story).getD i .null).notes

/-- Changing a balance works if the entry takes one and the result is one, and else leaves the story
as it is. -/
theorem changeBalance_eq (h : story.Sound) {i : Nat} {g : Holding}
    (hi : story.holdings[i]? = some g) (op : Number → Number → Option Number) (amount : Number) :
    (notesAt story i = true ∧ ∃ n, op g.balance amount = some n ∧ n.IsBalance ∧
      changeBalance story i op amount = (rebalanced story i n, .ok ())) ∨
    ((notesAt story i = true → ∀ n, op g.balance amount = some n → ¬n.IsBalance) ∧
      ∃ fault, changeBalance story i op amount = (story, .error fault) ∧
        ∀ code message, fault ≠ .refused code message) := by
  obtain ⟨e, he, hg⟩ := entry_of_holding h hi
  have hd : (ledger story).getD i .null = e := by simp [List.getD_eq_getElem?_getD, he]
  unfold changeBalance
  rw [balanceAt_eq h hi]
  cases ho : op g.balance amount with
  | none =>
    refine .inr ⟨by simp, .overflow, ?_, by simp⟩
    simp only [ho]
  | some n =>
    simp only [ho, setBalance, hd]
    by_cases hn : notesAt story i = true ∧ n.IsBalance
    · obtain ⟨hnotes, hbalance⟩ := hn
      refine .inl ⟨hnotes, n, rfl, hbalance, ?_⟩
      rw [Assign.assign_balance hg (by rwa [notesAt, hd] at hnotes) hbalance, rebalanced,
        List.modify_eq_set_getElem?, he]
      rfl
    · rw [not_and] at hn
      obtain ⟨fault, hassign, hfault⟩ := Assign.assign_not_balance hg (n := n) (by
        rwa [notesAt, hd] at hn)
      refine .inr ⟨fun hnotes => by simpa using hn hnotes, fault, ?_, hfault⟩
      have hsame : (ledger story).set i e = ledger story := by
        obtain ⟨hlt, rfl⟩ := List.getElem?_eq_some_iff.1 he
        exact List.set_getElem_self hlt
      simp only [hassign, hsame, Story.setLedger_ledger h.entries]

/-- The entries of a ledger with another balance in one of them. -/
theorem map_holding?_modify (h : story.Sound) (i : Nat) (n : Number) :
    ((ledger story).modify i (Value.withBalance n)).map Value.holding? =
      (story.holdings.modify i fun g => ⟨g.holder, n⟩).map some := by
  refine List.ext_getElem? fun j => ?_
  simp only [List.getElem?_map, List.getElem?_modify]
  cases hj : story.holdings[j]? with
  | none =>
    have := congrArg (·[j]?) h.map_holding?
    simp only [List.getElem?_map, hj, Option.map_none, Option.map_eq_none_iff] at this
    simp [this]
  | some g =>
    obtain ⟨e, he, hg⟩ := entry_of_holding h hj
    by_cases hij : i = j
    · simp [he, hij, Value.holding?_withBalance hg]
    · simp [he, hij, hg]

theorem holdings_rebalanced (h : story.Sound) (i : Nat) (n : Number) :
    (rebalanced story i n).holdings = story.holdings.modify i fun g => ⟨g.holder, n⟩ :=
  Story.holdings_setLedger h.entries (map_holding?_modify h i n)

/-- Another balance changes no holder. -/
theorem holders_modify (hs : List Holding) (i : Nat) (n : Number) :
    (hs.modify i fun g => ⟨g.holder, n⟩).map Holding.holder = hs.map Holding.holder := by
  refine List.ext_getElem? fun j => ?_
  simp only [List.getElem?_map, List.getElem?_modify]
  by_cases hij : i = j <;> cases hs[j]? <;> simp [hij]

/-- A ledger with another balance in one entry is sound. -/
theorem sound_rebalanced (h : story.Sound) (i : Nat) {n : Number} (hn : n.IsBalance) :
    (rebalanced story i n).Sound := by
  refine Story.sound_setLedger h.entries (map_holding?_modify h i n) (fun g hg => ?_) ?_
  · obtain ⟨j, hj⟩ := List.getElem?_of_mem hg
    rw [List.getElem?_modify] at hj
    obtain ⟨g', hg', rfl⟩ := Option.map_eq_some_iff.1 hj
    split
    · exact hn
    · exact h.isBalance (List.mem_of_getElem? hg')
  · rw [holders_modify]
    exact h.unique

/-- The story with an entry more in its ledger. -/
def enlisted (story : Story) (holder : String) (amount : Number) : Story :=
  setLedger story (ledger story ++ [newEntry holder amount])

theorem map_holding?_enlisted (h : story.Sound) (holder : String) (amount : Number) :
    (ledger story ++ [newEntry holder amount]).map Value.holding? =
      (story.holdings ++ [Holding.mk holder amount]).map some := by
  rw [List.map_append, List.map_append, h.map_holding?]
  rfl

/-- A ledger with an entry for a new holder is sound. -/
theorem sound_enlisted (h : story.Sound) {holder : String} {amount : Number}
    (hn : ∀ g ∈ story.holdings, g.holder ≠ holder) (ha : amount.IsBalance) :
    (enlisted story holder amount).Sound := by
  refine Story.sound_setLedger h.entries (map_holding?_enlisted h holder amount) (fun g hg => ?_) ?_
  · rcases List.mem_append.1 hg with hg | hg
    · exact h.isBalance hg
    · obtain rfl := by simpa using hg
      exact ha
  · rw [List.map_append, List.nodup_append]
    refine ⟨h.unique, by simp, fun a ha b hb => ?_⟩
    obtain ⟨g, hg, rfl⟩ := List.mem_map.1 ha
    rw [List.map_singleton, List.mem_singleton] at hb
    rw [hb]
    exact hn g hg

/-! ### Transfers -/

/-- The terms on which a transfer is accepted: its parties, its amount, and where the source's entry
stands, with what it holds. -/
structure Terms (story : Story) (delta : Delta) where
  source : String
  target : String
  amount : Number
  position : Nat
  holding : Holding
  parties : parties? delta = some (source, target, amount)
  finite : amount.finite? = some true
  positive : amount.atMost (.int 0) = false
  found : story.holdings.findIdx? (·.holder == source) = some position
  held : story.holdings[position]? = some holding
  enough : holding.balance.less amount = false

namespace Terms

variable {delta : Delta} (t : Terms story delta)

theorem isBalance_amount : t.amount.IsBalance := Number.isBalance_of_pos t.finite t.positive

theorem holder_eq : t.holding.holder = t.source := by
  obtain ⟨hlt, hp, -⟩ := List.findIdx?_eq_some_iff_getElem.1 t.found
  obtain ⟨_, heq⟩ := List.getElem?_eq_some_iff.1 t.held
  rw [← heq]
  simpa using hp

theorem mem_holdings : t.holding ∈ story.holdings := List.mem_of_getElem? t.held

/-- The source can always pay, if its entry takes a balance. -/
theorem debit (h : story.Sound) :
    ∃ n, t.holding.balance.sub? t.amount = some n ∧ n.IsBalance ∧
      (notesAt story t.position = true → changeBalance story t.position Number.sub? t.amount =
        (rebalanced story t.position n, .ok ())) ∧
      (notesAt story t.position = false → ∃ fault,
        changeBalance story t.position Number.sub? t.amount = (story, .error fault) ∧
          ∀ code message, fault ≠ .refused code message) := by
  obtain ⟨n, hn, hb⟩ :=
    Number.sub?_isBalance (h.isBalance t.mem_holdings) t.finite t.positive t.enough
  rcases changeBalance_eq h t.held Number.sub? t.amount with ⟨hnotes, m, hm, -, heq⟩ | ⟨hno, hfault⟩
  · obtain rfl : n = m := by simpa [hn] using hm
    exact ⟨n, hn, hb, fun _ => heq, fun hfalse => by simp [hnotes] at hfalse⟩
  · exact ⟨n, hn, hb, fun hnotes => absurd hb (hno hnotes n hn), fun _ => hfault⟩

end Terms

variable {delta : Delta}

/-- A transfer is accepted just on such terms. -/
theorem checkTransfer_ok (h : story.Sound) {r : Transfer} (hr : checkTransfer story delta = .ok r) :
    ∃ t : Terms story delta, r = ⟨t.position, t.target, t.amount⟩ := by
  unfold checkTransfer at hr
  split at hr
  · exact absurd hr Outcome.refuse_ne_ok
  rename_i source target amount hparties
  obtain ⟨finite, hfinite, hr⟩ := Outcome.bind_ok.1 hr
  split at hr
  · exact absurd hr Outcome.refuse_ne_ok
  rename_i hamount
  rw [Bool.or_eq_true, not_or, Bool.not_eq_true', Bool.not_eq_false, Bool.not_eq_true] at hamount
  obtain ⟨found, hfound, hr⟩ := Outcome.bind_ok.1 hr
  rw [entryOf_eq h] at hfound
  split at hr
  · exact absurd hr Outcome.refuse_ne_ok
  rename_i position
  have hposition : story.holdings.findIdx? (·.holder == source) = some position := by
    simpa using hfound
  obtain ⟨hlt, -⟩ := List.findIdx?_eq_some_iff_getElem.1 hposition
  have hheld := List.getElem?_eq_getElem hlt
  obtain ⟨balance, hbalance, hr⟩ := Outcome.bind_ok.1 hr
  rw [balanceAt_eq h hheld] at hbalance
  obtain rfl : story.holdings[position].balance = balance := by simpa using hbalance
  split at hr
  · exact absurd hr Outcome.refuse_ne_ok
  rename_i henough
  obtain rfl := Outcome.pure_ok.1 hr
  exact ⟨⟨source, target, amount, position, story.holdings[position], hparties,
    by rw [Outcome.ofSize_ok.1 hfinite, hamount.1], hamount.2, hposition, hheld,
    by simpa using henough⟩, rfl⟩

/-- Whether a holder can take an amount: if it has an entry, that takes a balance, and with the
amount its balance is one. -/
def Takes (story : Story) (holder : String) (amount : Number) : Prop :=
  ∀ (i : Nat) (g : Holding), story.holdings[i]? = some g → g.holder = holder →
    notesAt story i = true ∧ ∃ n, g.balance.add? amount = some n ∧ n.IsBalance

/-- The stories after an amount was credited to a holder: in its entry, or in a new one at the
end. -/
inductive Credited (story : Story) (holder : String) (amount : Number) : Story → Prop
  | entry {i : Nat} {g : Holding} {n : Number} (held : story.holdings[i]? = some g)
      (owner : g.holder = holder) (sum : g.balance.add? amount = some n) (balance : n.IsBalance) :
      Credited story holder amount (rebalanced story i n)
  | new (fresh : ∀ g ∈ story.holdings, g.holder ≠ holder) :
      Credited story holder amount (enlisted story holder amount)

/-- Crediting works if the destination can take the amount, and else leaves the story as it is. -/
theorem credit_eq (h : story.Sound) (r : Transfer) :
    (Takes story r.destination r.amount ∧ ∃ after, credit story r = (after, .ok ()) ∧
      Credited story r.destination r.amount after) ∨
    (¬Takes story r.destination r.amount ∧ ∃ fault, credit story r = (story, .error fault) ∧
      ∀ code message, fault ≠ .refused code message) := by
  unfold credit
  rw [entryOf_eq h]
  cases hi : story.holdings.findIdx? (·.holder == r.destination) with
  | none =>
    have hfresh : ∀ g ∈ story.holdings, g.holder ≠ r.destination := by
      simpa using List.findIdx?_eq_none_iff.1 hi
    exact .inl ⟨fun i g hg howner => absurd howner (hfresh g (List.mem_of_getElem? hg)), _, rfl,
      .new hfresh⟩
  | some i =>
    obtain ⟨hlt, howner, -⟩ := List.findIdx?_eq_some_iff_getElem.1 hi
    have hg := List.getElem?_eq_getElem hlt
    rw [beq_iff_eq] at howner
    rcases changeBalance_eq h hg Number.add? r.amount with
      ⟨hnotes, n, hn, hb, heq⟩ | ⟨hn, fault, heq, hf⟩
    · refine .inl ⟨fun j g' hj howner' => ?_, _, heq, .entry hg howner hn hb⟩
      obtain rfl := (holder_inj h hg hj).1 (howner.trans howner'.symm)
      obtain rfl : story.holdings[i] = g' := by simpa [hg] using hj
      exact ⟨hnotes, n, hn, hb⟩
    · refine .inr ⟨fun htakes => ?_, fault, heq, hf⟩
      obtain ⟨hnotes, n, hsum, hb⟩ := htakes i _ hg howner
      exact hn hnotes n hsum hb

/-- The ways in which a transfer ends: it is not accepted, it is made, or it breaks off, before or
after the source has paid. -/
inductive TransferEffect (story : Story) (delta : Delta) : Story × Outcome Unit → Prop
  | refused (fault : Fault) (checked : checkTransfer story delta = .error fault) :
      TransferEffect story delta (story, .error fault)
  | made (t : Terms story delta) (n : Number) (after : Story)
      (checked : checkTransfer story delta = .ok ⟨t.position, t.target, t.amount⟩)
      (rest : t.holding.balance.sub? t.amount = some n) (balance : n.IsBalance)
      (takes : Takes (rebalanced story t.position n) t.target t.amount)
      (credited : Credited (rebalanced story t.position n) t.target t.amount after)
      (notes : notesAt story t.position = true) :
      TransferEffect story delta (after, .ok ())
  | unpaid (t : Terms story delta) (fault : Fault)
      (checked : checkTransfer story delta = .ok ⟨t.position, t.target, t.amount⟩)
      (severe : ∀ code message, fault ≠ .refused code message)
      (notes : notesAt story t.position = false) :
      TransferEffect story delta (story, .error fault)
  | broken (t : Terms story delta) (n : Number) (fault : Fault)
      (checked : checkTransfer story delta = .ok ⟨t.position, t.target, t.amount⟩)
      (rest : t.holding.balance.sub? t.amount = some n) (balance : n.IsBalance)
      (takes : ¬Takes (rebalanced story t.position n) t.target t.amount)
      (severe : ∀ code message, fault ≠ .refused code message)
      (notes : notesAt story t.position = true) :
      TransferEffect story delta (rebalanced story t.position n, .error fault)

theorem transfer_effect (h : story.Sound) (delta : Delta) :
    TransferEffect story delta (transfer story delta) := by
  unfold transfer
  cases hc : checkTransfer story delta with
  | error fault => exact .refused fault hc
  | ok r =>
    obtain ⟨t, rfl⟩ := checkTransfer_ok h hc
    obtain ⟨n, hn, hb, hpays, hfails⟩ := t.debit h
    cases hnotes : notesAt story t.position with
    | false =>
      obtain ⟨fault, hfail, hsevere⟩ := hfails hnotes
      simp only [hfail]
      exact .unpaid t fault hc hsevere hnotes
    | true =>
      simp only [hpays hnotes]
      rcases credit_eq (sound_rebalanced h t.position hb) ⟨t.position, t.target, t.amount⟩ with
        ⟨htakes, after, heq, hcredited⟩ | ⟨htakes, fault, heq, hsevere⟩
      · rw [heq]
        exact .made t n after hc hn hb htakes hcredited hnotes
      · rw [heq]
        exact .broken t n fault hc hn hb htakes hsevere hnotes

/-- A transfer that is refused changes nothing: what breaks off after the debit is no refusal. -/
theorem transfer_refused (h : story.Sound) {code : Code} {message : String}
    (hr : (transfer story delta).2 = .error (.refused code message)) :
    (transfer story delta).1 = story := by
  have heffect := transfer_effect h delta
  generalize transfer story delta = r at heffect hr ⊢
  cases heffect with
  | refused fault => rfl
  | made t n after => cases hr
  | unpaid t fault => rfl
  | broken t n fault hc hn hb htakes hsevere =>
    exact absurd (by simpa using hr) (hsevere code message)

/-- A story stays sound if a balance is credited. -/
theorem Credited.sound {holder : String} {amount : Number} {after : Story} (h : story.Sound)
    (ha : amount.IsBalance) (hc : Credited story holder amount after) : after.Sound := by
  cases hc with
  | entry held owner sum balance => exact sound_rebalanced h _ balance
  | new fresh => exact sound_enlisted h fresh ha

/-- A transfer keeps a story sound, whatever comes of it. -/
theorem sound_transfer (h : story.Sound) : (transfer story delta).1.Sound := by
  have heffect := transfer_effect h delta
  generalize transfer story delta = r at heffect ⊢
  cases heffect with
  | refused fault => exact h
  | made t n after hc hn hb htakes hcredited =>
    exact hcredited.sound (sound_rebalanced h t.position hb) t.isBalance_amount
  | unpaid t fault => exact h
  | broken t n fault hc hn hb => exact sound_rebalanced h t.position hb

/-- What a story keeps with any other ledger, it keeps over a transfer. -/
theorem transfer_keeps {inv : Story → Prop}
    (hset : ∀ s entries, inv s → inv (setLedger s entries)) (h : inv story) :
    inv (transfer story delta).1 := by
  have hchange : ∀ s i op amount, inv s → inv (changeBalance s i op amount).1 := by
    intro s i op amount hs
    unfold changeBalance
    split
    · exact hs
    · split
      · exact hset s _ hs
      · exact hs
  unfold transfer
  split
  · exact h
  · rename_i t _
    have hdebited := hchange story t.source Number.sub? t.amount h
    split
    · rename_i debited hd
      rw [hd] at hdebited
      unfold credit
      split
      · exact hdebited
      · exact hchange debited _ _ _ hdebited
      · exact hset debited _ hdebited
    · rename_i debited _ hd
      rw [hd] at hdebited
      exact hdebited

/-- A property of stories that asks of the ledger no more than a property of its entries, which an
entry keeps with another balance and a new one has. -/
structure EntryWise (inv : Story → Prop) (P : Value → Prop) : Prop where
  entries : ∀ {story}, story.Sound → inv story → ∀ e ∈ ledger story, P e
  setLedger : ∀ {story xs}, story.Sound → inv story → (∀ e ∈ xs, P e) → inv (setLedger story xs)
  withBalance : ∀ {e g}, e.holding? = some g → P e → ∀ n, P (e.withBalance n)
  newEntry : ∀ holder {amount}, amount.IsBalance → P (newEntry holder amount)

namespace EntryWise

variable {inv : Story → Prop} {P : Value → Prop}

theorem rebalanced (hw : EntryWise inv P) (hsound : story.Sound) (h : inv story) (i : Nat)
    (n : Number) : inv (rebalanced story i n) := by
  refine hw.setLedger hsound h fun e he => ?_
  obtain ⟨j, hj⟩ := List.getElem?_of_mem he
  rw [List.getElem?_modify] at hj
  obtain ⟨e', he', rfl⟩ := Option.map_eq_some_iff.1 hj
  have hmem := List.mem_of_getElem? he'
  have hentry := hw.entries hsound h e' hmem
  obtain ⟨g, -, hg⟩ := hsound.holding_of_mem hmem
  split
  · exact hw.withBalance hg hentry n
  · exact hentry

theorem enlisted (hw : EntryWise inv P) (hsound : story.Sound) (h : inv story) (holder : String)
    {amount : Number} (ha : amount.IsBalance) : inv (enlisted story holder amount) := by
  refine hw.setLedger hsound h fun e he => ?_
  rcases List.mem_append.1 he with he | he
  · exact hw.entries hsound h e he
  · obtain rfl := List.mem_singleton.1 he
    exact hw.newEntry holder ha

/-- Whatever comes of a transfer, the story has the property still. -/
theorem transfer (hw : EntryWise inv P) (hsound : story.Sound) (h : inv story) :
    inv (transfer story delta).1 := by
  have heffect := transfer_effect hsound delta
  generalize Delta.transfer story delta = r at heffect ⊢
  cases heffect with
  | refused fault => exact h
  | made t n after hc hn hb htakes hcredited =>
    have hpaid := hw.rebalanced hsound h t.position n
    have hsound' := sound_rebalanced hsound t.position hb
    cases hcredited with
    | entry => exact hw.rebalanced hsound' hpaid _ _
    | new => exact hw.enlisted hsound' hpaid _ t.isBalance_amount
  | unpaid t fault => exact h
  | broken t n fault => exact hw.rebalanced hsound h t.position n

end EntryWise

end Delta

end StoryWorld
