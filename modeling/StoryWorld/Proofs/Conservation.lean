import StoryWorld.Proofs.Runs

/-!
Transfers of whole amounts conserve money.

Where all balances are whole numbers, a transfer of a whole amount that is made takes the amount
from the balance of the source and adds it to that of the destination, whose entry is made if there
is none. Nothing else in the story changes, and the total is what it was. A transfer that is refused
changes nothing, so over a run of such transfers the total can change only where one breaks off.

An entry that is written loses what was attached to it. A transfer of a holder to itself leaves
every document as it was, and the story itself just if nothing is attached to the entry of the
holder.
-/

namespace StoryWorld

/-! ### Whole balances -/

/-- A whole number as itself, a float as zero. -/
def Number.whole : Number → Int
  | int n => n
  | float _ => 0

namespace Story

/-- The sum of all balances that are whole numbers. -/
def total (story : Story) : Int := (story.holdings.map (·.balance.whole)).sum

/-- Every balance is a whole number. -/
def WholeBalances (story : Story) : Prop := ∀ g ∈ story.holdings, ∃ n, g.balance = .int n

end Story

/-! ### Payments -/

/-- What a payment from a source to a target adds to the balance of a holder. -/
def gain (source target : String) (n : Int) (holder : String) : Int :=
  (if holder = target then n else 0) - (if holder = source then n else 0)

/-- A holding after a payment. -/
def Holding.paid (source target : String) (n : Int) (g : Holding) : Holding :=
  ⟨g.holder, .int (g.balance.whole + gain source target n g.holder)⟩

/-- An entry after a payment: only those of the two parties are written. -/
def Value.paid (source target : String) (n : Int) (e : Value) : Value :=
  match e.holding? with
  | some g =>
    if g.holder = source ∨ g.holder = target then e.withBalance (g.paid source target n).balance
    else e
  | none => e

variable {source target : String} {n : Int}

/-- What an entry says after a payment. -/
theorem Value.holding?_paid {e : Value} {g : Holding} (h : e.holding? = some g)
    (hw : ∃ b, g.balance = .int b) :
    (e.paid source target n).holding? = some (g.paid source target n) := by
  obtain ⟨b, hb⟩ := hw
  rw [paid, h]
  simp only
  split
  · exact holding?_withBalance h _
  · rename_i hne
    rw [not_or] at hne
    rw [h]
    obtain ⟨holder, balance⟩ := g
    simp_all [Holding.paid, gain, Number.whole]

/-- What is added for one holder is added once, if the holder is there. -/
theorem sum_ite_holder (k : String) (n : Int) : ∀ {hs : List Holding},
    (hs.map Holding.holder).Nodup →
      (hs.map fun g => if g.holder = k then n else 0).sum =
        if k ∈ hs.map Holding.holder then n else 0
  | [], _ => by simp
  | g :: hs, h => by
    rw [List.map_cons, List.nodup_cons] at h
    rw [List.map_cons, List.sum_cons, sum_ite_holder k n h.2, List.map_cons]
    by_cases hg : g.holder = k
    · subst hg
      simp [h.1]
    · have hk : k ≠ g.holder := Ne.symm hg
      simp [hg, hk]

/-- What a payment adds to all balances: the amount if the target is there, less the amount if the
source is. -/
theorem sum_paid {hs : List Holding} (h : (hs.map Holding.holder).Nodup) :
    ((hs.map (Holding.paid source target n)).map (·.balance.whole)).sum =
      (hs.map (·.balance.whole)).sum +
        ((if target ∈ hs.map Holding.holder then n else 0) +
          (if source ∈ hs.map Holding.holder then -n else 0)) := by
  rw [← sum_ite_holder target n h, ← sum_ite_holder source (-n) h, ← List.sum_map_add,
    ← List.sum_map_add, List.map_map]
  congr 1
  refine List.map_congr_left fun g _ => ?_
  simp only [Function.comp, Holding.paid, Number.whole, gain]
  by_cases hs : g.holder = source <;> simp [hs, sub_eq_add_neg]

/-- The entries that a payment makes: one for the target, if it has none. -/
def newEntries (story : Story) (target : String) (n : Int) : List Value :=
  if target ∈ story.holdings.map Holding.holder then [] else [Delta.newEntry target (.int n)]

/-- A value without anything attached to it. -/
def Value.IsBare : Value → Prop
  | entity _ slots => ∀ e ∈ slots, Assign.documented e = true
  | _ => True

/-- Whether a value is an entry of a holder. -/
def Value.BelongsTo (holder : String) (e : Value) : Prop :=
  ∃ g, e.holding? = some g ∧ g.holder = holder

/-- The story afterwards is the one before with just a payment from a source to a target made. -/
structure Paid (story after : Story) (source target : String) (n : Int) : Prop where
  rest : after = Delta.setLedger story (Delta.ledger after)
  entries : Delta.ledger after =
    (Delta.ledger story).map (Value.paid source target n) ++ newEntries story target n
  holdings : after.holdings = story.holdings.map (Holding.paid source target n) ++
    (newEntries story target n).filterMap Value.holding?
  total : after.total = story.total
  whole : after.WholeBalances
  same : source = target → after.dump = story.dump
  unchanged : source = target →
    (after = story ↔ ∀ e ∈ Delta.ledger story, e.BelongsTo source → e.IsBare)

/-! ### Writing out what a payment leaves -/

namespace Value

/-- What is attached is not written out. -/
theorem dumpSlots_documented (kind : Kind) : ∀ slots : List (Slot × Value),
    dumpSlots kind (slots.filter Assign.documented) = dumpSlots kind slots
  | [] => rfl
  | (.field name, v) :: rest => by
    rw [List.filter_cons_of_pos rfl, dumpSlots, dumpSlots, dumpSlots_documented kind rest]
  | (.extra name, v) :: rest => by
    rw [List.filter_cons_of_pos rfl, dumpSlots, dumpSlots, dumpSlots_documented kind rest]
  | (.attached _, _) :: rest | (.given, _) :: rest => by
    rw [List.filter_cons_of_neg (by simp [Assign.documented]), dumpSlots,
      dumpSlots_documented kind rest]

/-- A field with a value that is written out in the same way. -/
theorem dumpSlots_put {name : String} {v w : Value} (hw : w.dump = v.dump) (kind : Kind) :
    ∀ {slots : List (Slot × Value)}, Table.get? (.field name) slots = some v →
      dumpSlots kind (Table.put (.field name) w slots) = dumpSlots kind slots
  | [], h => by simp at h
  | (slot, u) :: rest, h => by
    by_cases hs : slot = .field name
    · subst hs
      obtain rfl : u = v := by simpa [Table.get?] using h
      simp [Table.put, dumpSlots, hw]
    · have hrest : Table.get? (.field name) rest = some v := by simpa [Table.get?, hs] using h
      have ih := dumpSlots_put hw kind hrest
      cases slot <;> simp [Table.put, hs, dumpSlots, ih]

theorem dumpItems_map {f : Value → Value} : ∀ {xs : List Value},
    (∀ x ∈ xs, (f x).dump = x.dump) → dumpItems (xs.map f) = dumpItems xs
  | [], _ => rfl
  | x :: xs, h => by
    rw [List.map_cons, dumpItems, dumpItems, h x List.mem_cons_self,
      dumpItems_map fun y hy => h y (List.mem_cons_of_mem _ hy)]

/-- An entry that is given the balance that it has loses just what was attached to it. -/
theorem withBalance_self {e : Value} {g : Holding} (h : e.holding? = some g) :
    (e.withBalance g.balance).dump = e.dump ∧ (e.withBalance g.balance = e ↔ e.IsBare) := by
  obtain ⟨slots, rfl, -, hd⟩ := holding?_eq.1 h
  have hget : Table.get? (.field "denarii") (slots.filter Assign.documented) =
      some (.number g.balance) := by
    rw [Table.get?_filter (fun _ => rfl), hd]
  rw [withBalance, Table.put_of_get? hget]
  refine ⟨by rw [dump, dump, dumpSlots_documented], ?_⟩
  rw [entity.injEq, and_iff_right rfl, List.filter_eq_self]
  rfl

/-- A payment of a holder to itself. -/
theorem paid_self {e : Value} {g : Holding} (h : e.holding? = some g)
    (hw : ∃ b, g.balance = .int b) (k : String) :
    (e.paid k k n).dump = e.dump ∧ (e.paid k k n = e ↔ (e.BelongsTo k → e.IsBare)) := by
  obtain ⟨b, hb⟩ := hw
  have hsame : (g.paid k k n).balance = g.balance := by
    simp [Holding.paid, gain, hb, Number.whole]
  have hholder : e.BelongsTo k ↔ g.holder = k := by simp [BelongsTo, h]
  rw [paid, h, hholder]
  simp only [hsame, or_self]
  split
  · rename_i hk
    exact ⟨(withBalance_self h).1, by rw [(withBalance_self h).2, forall_prop_of_true hk]⟩
  · rename_i hk
    exact ⟨rfl, iff_of_true rfl fun heq => absurd heq hk⟩

end Value

/-- A story is written out the same if its ledger is. -/
theorem Story.dump_setLedger {story : Story} (h : story.assets.IsAssets) {entries : List Value}
    (he : Value.dumpItems entries = Value.dumpItems (Delta.ledger story)) :
    (Delta.setLedger story entries).dump = story.dump := by
  obtain ⟨slots, hslots, hget, -⟩ := ledger_of_assets h
  have hassets : (Delta.setLedger story entries).assets.dump = story.assets.dump := by
    have hlist : (Value.list entries).dump = (Value.list (Delta.ledger story)).dump := by
      rw [Value.dump, Value.dump, he]
    rw [Delta.setLedger, hslots, Value.setField, Value.dump, Value.dump,
      Value.dumpSlots_put hlist .assets hget]
  simp only [dump, toEntity, Value.dump, List.cons_append, Value.dumpSlots, hassets]
  rfl

namespace Delta

variable {story : Story}

/-! ### The ledger after a payment -/

/-- The entries of a ledger after a payment, entry by entry. -/
theorem eq_map_paid (h : story.Sound) {entries : List Value}
    (hlen : entries.length = (ledger story).length)
    (he : ∀ (j : Nat) (e : Value) (g : Holding), (ledger story)[j]? = some e →
      story.holdings[j]? = some g →
      e.holding? = some g → entries[j]? = some (e.paid source target n)) :
    entries = (ledger story).map (Value.paid source target n) := by
  refine List.ext_getElem? fun j => ?_
  rw [List.getElem?_map]
  cases hj : story.holdings[j]? with
  | none =>
    have hnone : (ledger story)[j]? = none := by
      have := congrArg (·[j]?) h.map_holding?
      simpa [List.getElem?_map, hj] using this
    have hout : entries[j]? = none := by
      rw [List.getElem?_eq_none_iff, hlen]
      exact List.getElem?_eq_none_iff.1 hnone
    rw [hnone, hout]
    rfl
  | some g =>
    obtain ⟨e, hej, heg⟩ := entry_of_holding h hj
    rw [hej, he j e g hej hj heg]
    rfl

/-- A debit of the source and a credit of the target in their entries is a payment. -/
theorem paid_of_credited (h : story.Sound) {p i : Nat} {gs gt : Holding}
    (hp : story.holdings[p]? = some gs) (hi : story.holdings[i]? = some gt) (n : Int) :
    ((ledger story).modify p (Value.withBalance (.int (gs.balance.whole - n)))).modify i
        (Value.withBalance (.int (gt.balance.whole - (if p = i then n else 0) + n))) =
      (ledger story).map (Value.paid gs.holder gt.holder n) := by
  refine eq_map_paid h (by simp) fun j e g hej hj heg => ?_
  have hsource := holder_inj h hj hp
  have htarget := holder_inj h hj hi
  rw [List.getElem?_modify, List.getElem?_modify, hej]
  simp only [Value.paid, heg, Holding.paid, gain, hsource, htarget]
  by_cases hjp : j = p <;> by_cases hji : j = i
  · subst hjp hji
    obtain rfl : g = gt := by simpa [hj] using hi
    simp [Value.withBalance_withBalance]
  · subst hjp
    obtain rfl : g = gs := by simpa [hj] using hp
    have hij : i ≠ j := Ne.symm hji
    simp [hji, hij, sub_eq_add_neg]
  · subst hji
    obtain rfl : g = gt := by simpa [hj] using hi
    have hpj : p ≠ j := Ne.symm hjp
    simp [hjp, hpj]
  · have hpj : p ≠ j := Ne.symm hjp
    have hij : i ≠ j := Ne.symm hji
    simp [hjp, hji, hpj, hij]

/-- A debit of the source alone is what a payment does to the entries if the target has none. -/
theorem paid_of_debited (h : story.Sound) {p : Nat} {gs : Holding}
    (hp : story.holdings[p]? = some gs) (ht : ∀ g ∈ story.holdings, g.holder ≠ target) (n : Int) :
    (ledger story).modify p (Value.withBalance (.int (gs.balance.whole - n))) =
      (ledger story).map (Value.paid gs.holder target n) := by
  refine eq_map_paid h (by simp) fun j e g hej hj heg => ?_
  have hsource := holder_inj h hj hp
  have htarget := ht g (List.mem_of_getElem? hj)
  rw [List.getElem?_modify, hej]
  simp only [Value.paid, heg, Holding.paid, gain, hsource, htarget]
  by_cases hjp : j = p
  · subst hjp
    obtain rfl : g = gs := by simpa [hj] using hp
    simp [sub_eq_add_neg]
  · have hpj : p ≠ j := Ne.symm hjp
    simp [hjp, hpj]

/-- What the entries of a sound ledger say after a payment. -/
theorem map_holding?_paid (h : story.Sound) (hw : story.WholeBalances) (source target : String)
    (n : Int) :
    ((ledger story).map (Value.paid source target n)).map Value.holding? =
      (story.holdings.map (Holding.paid source target n)).map some := by
  have hone : ∀ e ∈ ledger story, (e.paid source target n).holding? =
      e.holding?.map (Holding.paid source target n) := by
    intro e he
    obtain ⟨g, hg, heq⟩ := h.holding_of_mem he
    rw [Value.holding?_paid heq (hw g hg), heq]
    rfl
  calc ((ledger story).map (Value.paid source target n)).map Value.holding?
      = ((ledger story).map Value.holding?).map (Option.map (Holding.paid source target n)) := by
        rw [List.map_map, List.map_map]
        exact List.map_congr_left hone
    _ = (story.holdings.map (Holding.paid source target n)).map some := by
        rw [h.map_holding?, List.map_map, List.map_map]
        rfl

end Delta

/-- A story with the ledger after a payment is one with just the payment made. -/
theorem paid_setLedger {story after : Story} (h : story.Sound) (hw : story.WholeBalances)
    (hsource : source ∈ story.holdings.map Holding.holder)
    (hafter : after = Delta.setLedger story
      ((Delta.ledger story).map (Value.paid source target n) ++ newEntries story target n)) :
    Paid story after source target n := by
  have hentries : Delta.ledger after =
      (Delta.ledger story).map (Value.paid source target n) ++ newEntries story target n := by
    rw [hafter, Story.ledger_setLedger h.entries]
  have hrest : after = Delta.setLedger story (Delta.ledger after) := by rw [hentries, hafter]
  have hholdings : after.holdings = story.holdings.map (Holding.paid source target n) ++
      (newEntries story target n).filterMap Value.holding? := by
    have hpaid := congrArg (List.filterMap id) (Delta.map_holding?_paid h hw source target n)
    rw [Story.holdings, hentries, List.filterMap_append]
    congr 1
    simpa [List.filterMap_map] using hpaid
  have hnew : (newEntries story target n).filterMap Value.holding? =
      if target ∈ story.holdings.map Holding.holder then [] else [⟨target, .int n⟩] := by
    unfold newEntries
    split <;> rfl
  have hself : source = target →
      newEntries story target n = [] ∧ ∀ e ∈ Delta.ledger story,
        (e.paid source target n).dump = e.dump ∧
          (e.paid source target n = e ↔ (e.BelongsTo source → e.IsBare)) := by
    rintro rfl
    refine ⟨if_pos hsource, fun e he => ?_⟩
    obtain ⟨g, hg, heq⟩ := h.holding_of_mem he
    exact Value.paid_self heq (hw g hg) source
  refine ⟨hrest, hentries, hholdings, ?_, fun g hg => ?_, fun hst => ?_, fun hst => ?_⟩
  · rw [Story.total, hholdings, List.map_append, List.sum_append, sum_paid h.unique, hnew,
      if_pos hsource, Story.total]
    by_cases ht : target ∈ story.holdings.map Holding.holder <;> simp [ht, Number.whole]
  · rw [hholdings, hnew] at hg
    rcases List.mem_append.1 hg with hg | hg
    · obtain ⟨g', -, rfl⟩ := List.mem_map.1 hg
      exact ⟨_, rfl⟩
    · split at hg
      · cases hg
      · obtain rfl := by simpa using hg
        exact ⟨n, rfl⟩
  · obtain ⟨hnone, hdump⟩ := hself hst
    rw [hrest, hentries, hnone, List.append_nil]
    exact Story.dump_setLedger h.entries (Value.dumpItems_map fun e he => (hdump e he).1)
  · obtain ⟨hnone, hkept⟩ := hself hst
    have hledger : after = story ↔
        (Delta.ledger story).map (Value.paid source target n) = Delta.ledger story := by
      rw [← List.append_nil (List.map _ _), ← hnone, ← hentries]
      constructor
      · rintro rfl
        rfl
      · intro heq
        rw [hrest, heq, Story.setLedger_ledger h.entries]
    have hmap := List.map_inj_left (l := Delta.ledger story)
      (f := Value.paid source target n) (g := id)
    rw [List.map_id] at hmap
    exact hledger.trans (hmap.trans (forall₂_congr fun e he => (hkept e he).2))

namespace Delta

variable {story : Story} {delta : Delta}

theorem parties?_eq {amount : Number} (h : parties? delta = some (source, target, amount)) :
    delta.source = some source ∧ delta.target = some target ∧ delta.amount = some amount := by
  have hpresent : ∀ {given : Option String} {s : String}, Text.present? given = some s →
      given = some s := by
    intro given s hs
    cases given with
    | none => cases hs
    | some given =>
      simp only [Text.present?] at hs
      split at hs
      · cases hs
      · exact hs
  simp only [parties?, bind, Option.bind_eq_some_iff, pure, Option.some.injEq, Prod.mk.injEq] at h
  obtain ⟨s, hs, t, ht, a, ha, rfl, rfl, rfl⟩ := h
  exact ⟨hpresent hs, hpresent ht, ha⟩

/-- The holdings after a debit of the entry at a position: the same holders, that one with less. -/
theorem holding_debited (h : story.Sound) (hw : story.WholeBalances) {p i : Nat} {gs g : Holding}
    (hp : story.holdings[p]? = some gs)
    (hg : (rebalanced story p (.int (gs.balance.whole - n))).holdings[i]? = some g) :
    ∃ gt, story.holdings[i]? = some gt ∧ g.holder = gt.holder ∧
      g.balance = .int (gt.balance.whole - (if p = i then n else 0)) := by
  rw [holdings_rebalanced h, List.getElem?_modify] at hg
  obtain ⟨gt, hgt, rfl⟩ := Option.map_eq_some_iff.1 hg
  refine ⟨gt, hgt, ?_⟩
  by_cases hpi : p = i
  · obtain rfl : gs = gt := by simpa [hpi, hgt] using hp.symm
    simp [hpi]
  · obtain ⟨a, ha⟩ := hw _ (List.mem_of_getElem? hgt)
    simp [hpi, ha, Number.whole]

/-- What the source of a transfer of a whole amount has left. -/
theorem Terms.rest_eq (t : Terms story delta) (hw : story.WholeBalances)
    (hn : delta.amount = some (.int n)) {rest : Number}
    (hrest : t.holding.balance.sub? t.amount = some rest) :
    t.amount = .int n ∧ rest = .int (t.holding.balance.whole - n) := by
  obtain ⟨-, -, hamount⟩ := parties?_eq t.parties
  have hta : t.amount = .int n := by simpa [hn] using hamount.symm
  obtain ⟨c, hc⟩ := hw _ t.mem_holdings
  exact ⟨hta, by simpa [hc, hta, Number.sub?, Number.combine?, Number.whole] using hrest.symm⟩

/-- A debit of the source and a credit of the target make a payment. -/
theorem Terms.paid (t : Terms story delta) (h : story.Sound) (hw : story.WholeBalances)
    (hta : t.amount = .int n) {after : Story}
    (hc : Credited (rebalanced story t.position (.int (t.holding.balance.whole - n))) t.target
      t.amount after) : Paid story after t.source t.target n := by
  have hdebited : ledger (rebalanced story t.position (.int (t.holding.balance.whole - n))) =
      (ledger story).modify t.position (Value.withBalance (.int (t.holding.balance.whole - n))) :=
    Story.ledger_setLedger h.entries _
  refine paid_setLedger h hw (List.mem_map.2 ⟨_, t.mem_holdings, t.holder_eq⟩) ?_
  rw [← t.holder_eq]
  cases hc with
  | @entry i g m held owner sum balance =>
    obtain ⟨gt, hgt, hholder, hbalance⟩ := holding_debited h hw t.held held
    rw [← owner, hholder]
    obtain rfl : .int (gt.balance.whole - (if t.position = i then n else 0) + n) = m := by
      simpa [hbalance, hta, Number.add?, Number.combine?] using sum
    have hthere : newEntries story gt.holder n = [] :=
      if_pos (List.mem_map_of_mem (List.mem_of_getElem? hgt))
    rw [rebalanced, hdebited, paid_of_credited h t.held hgt, hthere, List.append_nil, rebalanced,
      Story.setLedger_setLedger]
  | new fresh =>
    have hnone : ∀ g ∈ story.holdings, g.holder ≠ t.target := by
      intro g hg
      have hmem : g.holder ∈ (rebalanced story t.position
          (.int (t.holding.balance.whole - n))).holdings.map Holding.holder := by
        rw [holdings_rebalanced h, holders_modify]
        exact List.mem_map_of_mem hg
      obtain ⟨g', hg', heq⟩ := List.mem_map.1 hmem
      rw [← heq]
      exact fresh g' hg'
    have hnew : newEntries story t.target n = [newEntry t.target (.int n)] := by
      refine if_neg fun hmem => ?_
      obtain ⟨g, hg, heq⟩ := List.mem_map.1 hmem
      exact hnone g hg heq
    rw [enlisted, hdebited, paid_of_debited h t.held hnone, hta, hnew, rebalanced,
      Story.setLedger_setLedger]

/-- A transfer of a whole amount that is made is a payment between its parties. -/
theorem paid_of_transfer (h : story.Sound) (hw : story.WholeBalances)
    (hn : delta.amount = some (.int n)) {after : Story}
    (ht : transfer story delta = (after, .ok ())) :
    ∃ source target, delta.source = some source ∧ delta.target = some target ∧
      Paid story after source target n := by
  have heffect := transfer_effect h delta
  rw [ht] at heffect
  cases heffect with
  | made t rest after hc hrest hb htakes hcredited =>
    obtain ⟨hsource, htarget, -⟩ := parties?_eq t.parties
    obtain ⟨hta, rfl⟩ := t.rest_eq hw hn hrest
    exact ⟨t.source, t.target, hsource, htarget, t.paid h hw hta hcredited⟩

end Delta

/-! ### Runs of transfers -/

/-- A transfer of a whole amount. -/
def Delta.IsWhole (delta : Delta) : Prop :=
  delta.op = .transfer ∧ ∃ n, delta.amount = some (.int n)

/-- The story after the first `k` of a sequence of deltas. -/
def Story.afterFirst (story : Story) (calls : List (Delta × Tag)) (k : Nat) : Story :=
  story.after ((calls.take k).map fun call => .apply call.1 call.2)

theorem Story.afterFirst_succ (story : Story) {calls : List (Delta × Tag)} {k : Nat}
    (hk : k < calls.length) :
    story.afterFirst calls (k + 1) =
      (Delta.apply (story.afterFirst calls k) calls[k].1 calls[k].2).story := by
  rw [afterFirst, afterFirst, List.take_add_one, List.getElem?_eq_getElem hk, after, List.map_append,
    List.foldl_append]
  rfl

namespace Delta

variable {story : Story} {delta : Delta}

/-- Another whole balance in one entry keeps the balances whole. -/
theorem whole_rebalanced (h : story.Sound) (hw : story.WholeBalances) (p : Nat) (b : Int) :
    (rebalanced story p (.int b)).WholeBalances := by
  intro g hg
  rw [holdings_rebalanced h] at hg
  obtain ⟨j, hj⟩ := List.getElem?_of_mem hg
  rw [List.getElem?_modify] at hj
  obtain ⟨g', hg', rfl⟩ := Option.map_eq_some_iff.1 hj
  split
  · exact ⟨b, rfl⟩
  · exact hw _ (List.mem_of_getElem? hg')

/-- A transfer of a whole amount keeps the balances whole, even if it breaks off. -/
theorem whole_transfer (h : story.Sound) (hw : story.WholeBalances)
    (hn : delta.amount = some (.int n)) : (transfer story delta).1.WholeBalances := by
  have heffect := transfer_effect h delta
  generalize transfer story delta = r at heffect ⊢
  cases heffect with
  | refused fault => exact hw
  | unpaid t fault => exact hw
  | made t rest after hc hrest hb htakes hcredited =>
    obtain ⟨hta, rfl⟩ := t.rest_eq hw hn hrest
    exact (t.paid h hw hta hcredited).whole
  | broken t rest fault hc hrest =>
    obtain ⟨-, rfl⟩ := t.rest_eq hw hn hrest
    exact whole_rebalanced h hw t.position _

/-- A call to transfer a whole amount keeps the total, if it returns. -/
theorem total_apply (h : story.Sound) (hw : story.WholeBalances) (hd : delta.IsWhole) {tag : Tag}
    {r : DeltaResult} (hr : (apply story delta tag).outcome = .ok r) :
    (apply story delta tag).story.total = story.total := by
  obtain ⟨hop, n, hn⟩ := hd
  rcases perform_of_apply hr with ⟨-, hp⟩ | ⟨code, message, -, hp⟩
  · rw [perform_transfer hop] at hp
    obtain ⟨_, _, -, -, hpaid⟩ := paid_of_transfer h hw hn hp
    exact hpaid.total
  · rw [perform_transfer hop] at hp
    rw [apply_story, perform_transfer hop, transfer_refused h hp]

/-- A call to transfer a whole amount keeps the ledger sound and its balances whole. -/
theorem whole_apply (h : story.Sound) (hw : story.WholeBalances) (hd : delta.IsWhole) (tag : Tag) :
    (apply story delta tag).story.Sound ∧ (apply story delta tag).story.WholeBalances := by
  obtain ⟨hop, n, hn⟩ := hd
  rw [apply_story, perform_transfer hop]
  exact ⟨sound_transfer h, whole_transfer h hw hn⟩

/-- A batch of transfers of whole amounts keeps the total, if it ends. -/
theorem total_applyEach {tag : Tag} : ∀ {story : Story} {deltas : List Delta}, story.Sound →
    story.WholeBalances → (∀ d ∈ deltas, d.IsWhole) → ∀ {r : BatchResult},
      (applyEach story tag deltas).outcome = .ok r →
        (applyEach story tag deltas).story.total = story.total
  | story, [], _, _, _, _, _ => rfl
  | story, delta :: rest, h, hw, hd, r, hr => by
    have hone := hd delta List.mem_cons_self
    obtain ⟨hsound, hwhole⟩ := whole_apply h hw hone tag
    simp only [applyEach] at hr ⊢
    split at hr
    · cases hr
    · rename_i result hresult
      obtain ⟨r', hr', -⟩ := Outcome.map_ok.1 hr
      rw [total_applyEach hsound hwhole (fun d hmem => hd d (List.mem_cons_of_mem _ hmem)) hr',
        total_apply h hw hone hresult]

end Delta

/-- A run of transfers of whole amounts keeps the ledger sound and its balances whole. -/
theorem Story.whole_afterFirst {story : Story} (h : story.Sound) (hw : story.WholeBalances)
    {calls : List (Delta × Tag)} (hd : ∀ call ∈ calls, call.1.IsWhole) : ∀ {k : Nat},
      k ≤ calls.length →
        (story.afterFirst calls k).Sound ∧ (story.afterFirst calls k).WholeBalances
  | 0, _ => ⟨h, hw⟩
  | k + 1, hk => by
    obtain ⟨hsound, hwhole⟩ := whole_afterFirst h hw hd (Nat.le_of_succ_le hk)
    rw [afterFirst_succ story hk]
    exact Delta.whole_apply hsound hwhole (hd _ (List.getElem_mem hk)) _

/-- It keeps the total, as long as every call returned. -/
theorem Story.total_afterFirst {story : Story} (h : story.Sound) (hw : story.WholeBalances)
    {calls : List (Delta × Tag)} (hd : ∀ call ∈ calls, call.1.IsWhole) : ∀ {k : Nat}
      (_ : k ≤ calls.length),
      (∀ i (_ : i < k), ∃ r,
        (Delta.apply (story.afterFirst calls i) calls[i].1 calls[i].2).outcome = .ok r) →
      (story.afterFirst calls k).total = story.total
  | 0, _, _ => rfl
  | k + 1, hk, hr => by
    obtain ⟨hsound, hwhole⟩ := whole_afterFirst h hw hd (Nat.le_of_succ_le hk)
    obtain ⟨r, hlast⟩ := hr k (Nat.lt_succ_self k)
    rw [afterFirst_succ story hk,
      Delta.total_apply hsound hwhole (hd _ (List.getElem_mem hk)) hlast,
      total_afterFirst h hw hd (Nat.le_of_succ_le hk) fun i hi => hr i (Nat.lt_succ_of_lt hi)]

/-- The document of a story in which one holder has money. -/
def singleHolderDocument : Value :=
  .mapping [("assets", .mapping [("cash_ledger", .list [.mapping [
    ("holder", .text "a"), ("denarii", .int 5)]])])]

/-- A delta that transfers a number of denarii. -/
def transferDelta (source target : String) (amount : Number) : Delta :=
  ⟨.transfer, "", .null, none, some source, some target, some amount⟩

/-- The document of a story in which the entry of the one holder has a field with a private name. -/
def notedDocument : Value :=
  .mapping [("assets", .mapping [("cash_ledger", .list [.mapping [
    ("holder", .text "a"), ("denarii", .int 5), ("_note", .int 1)]])])]

/-- A delta that sets this field. -/
def notingDelta : Delta :=
  ⟨.set, "assets.cash_ledger[0]._note", .int 2, none, none, none, none⟩

/-- What is attached to the first entry of the cash ledger in the place of this field. -/
def attachedNote (story : Story) : Option Number :=
  (Delta.ledger story)[0]?.bind fun e =>
    (e.read (.slot (.attached "_note"))).toOption.bind Value.number?

end StoryWorld
