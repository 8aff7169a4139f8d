import StoryWorld.Proofs.Runs

/-!
Transfers are all or nothing, as long as the destination can take the amount.

What is refused is refused before anything is paid. The debit of a transfer that is accepted works,
since the balance covers the amount, as long as the entry of the source takes balances at all. Then
only the credit can fail: where the balance of the destination and the amount add up to no finite
number, or its entry takes none, the transfer breaks off, and the source has paid.
-/

namespace StoryWorld.Delta

variable {story : Story} {delta : Delta}

/-- Whether a transfer, if it is accepted, can be made: the entry of the source takes what is left,
and the destination can take the amount once the source has paid. -/
def Creditable (story : Story) (delta : Delta) : Prop :=
  ∀ r, checkTransfer story delta = .ok r → ∃ debited,
    changeBalance story r.source Number.sub? r.amount = (debited, .ok ()) ∧
      Takes debited r.destination r.amount

/-- A transfer was made in full: the source has paid and the destination was credited. -/
def Settled (story after : Story) (delta : Delta) : Prop :=
  ∃ (t : Terms story delta) (n : Number), t.holding.balance.sub? t.amount = some n ∧
    Credited (rebalanced story t.position n) t.target t.amount after

/-- A transfer is accepted in advance just if its check finds nothing. -/
theorem check_transfer (hop : delta.op = .transfer) :
    check story delta = .ok none ↔ ∃ r, checkTransfer story delta = .ok r := by
  unfold check
  rw [hop]
  simp only
  cases checkTransfer story delta with
  | ok r => simp [Except.map]
  | error fault => cases fault <;> simp [Except.map]

/-- Once a transfer is accepted, it is creditable if the entry of the source takes what is left and
the destination can take the amount after that. -/
theorem creditable_iff (h : story.Sound) (t : Terms story delta) {n : Number}
    (hc : checkTransfer story delta = .ok ⟨t.position, t.target, t.amount⟩)
    (hn : t.holding.balance.sub? t.amount = some n) :
    Creditable story delta ↔
      notesAt story t.position = true ∧ Takes (rebalanced story t.position n) t.target t.amount := by
  obtain ⟨m, hm, -, hpays, hfails⟩ := t.debit h
  obtain rfl : n = m := by simpa [hn] using hm
  constructor
  · intro hcredit
    obtain ⟨debited, hd, htakes⟩ := hcredit _ hc
    cases hnotes : notesAt story t.position with
    | false =>
      obtain ⟨fault, hfail, -⟩ := hfails hnotes
      rw [hfail] at hd
      cases hd
    | true =>
      rw [hpays hnotes] at hd
      obtain rfl : rebalanced story t.position n = debited := congrArg Prod.fst hd
      exact ⟨rfl, htakes⟩
  · rintro ⟨hnotes, htakes⟩ r hr
    obtain rfl : (⟨t.position, t.target, t.amount⟩ : Transfer) = r := by simpa [hc] using hr
    exact ⟨_, hpays hnotes, htakes⟩

/-- A transfer is all or nothing exactly if it is creditable: if it is accepted in advance it is made
in full and reported applied, and if it is not reported applied the story is as it was. One that is
not creditable is accepted, breaks off, and leaves the source debited, unless its entry takes no
balance at all. -/
theorem all_or_nothing_iff (h : story.Sound) (hop : delta.op = .transfer) (tag : Tag) :
    (Creditable story delta ↔
      (check story delta = .ok none →
        (apply story delta tag).outcome = .ok (.applied ⟨delta, tag⟩) ∧
          Settled story (apply story delta tag).story delta) ∧
      ((∀ c, (apply story delta tag).outcome ≠ .ok (.applied c)) →
        (apply story delta tag).story = story)) ∧
    (¬Creditable story delta → check story delta = .ok none ∧
      ∃ (t : Terms story delta) (n : Number) (fault : Fault),
        t.holding.balance.sub? t.amount = some n ∧
          (apply story delta tag).outcome = .error fault ∧
            (apply story delta tag).story =
              if notesAt story t.position then rebalanced story t.position n else story) := by
  rw [check_transfer hop]
  have hperform := perform_transfer hop story
  have heffect := transfer_effect h delta
  rw [← hperform] at heffect
  generalize hr : perform story delta = r at heffect
  cases heffect with
  | refused fault hc =>
    obtain ⟨hsame, -⟩ := apply_of_error tag hr
    have hnone : ¬∃ r, checkTransfer story delta = .ok r := by
      rw [hc]
      simp
    have hvacuous : Creditable story delta := fun r hr => absurd ⟨r, hr⟩ hnone
    exact ⟨⟨fun _ => ⟨fun hsome => absurd hsome hnone, fun _ => hsame⟩, fun _ => hvacuous⟩,
      fun hnot => absurd hvacuous hnot⟩
  | made t n after hc hn hb htakes hcredited hnotes =>
    have hcredit := (creditable_iff h t hc hn).2 ⟨hnotes, htakes⟩
    rw [apply_of_ok tag hr]
    exact ⟨⟨fun _ => ⟨fun _ => ⟨rfl, t, n, hn, hcredited⟩, fun hno => absurd rfl (hno _)⟩,
      fun _ => hcredit⟩, fun hnot => absurd hcredit hnot⟩
  | unpaid t fault hc hsevere hnotes =>
    obtain ⟨n, hn, -⟩ := t.debit h
    have hcredit : ¬Creditable story delta := fun hcredit => by
      have hnoting := ((creditable_iff h t hc hn).1 hcredit).1
      rw [hnotes] at hnoting
      cases hnoting
    rw [apply_of_severe tag hsevere hr]
    refine ⟨⟨fun hyes => absurd hyes hcredit, fun hboth => ?_⟩,
      fun _ => ⟨⟨_, hc⟩, t, n, fault, hn, rfl, by rw [hnotes]; rfl⟩⟩
    obtain ⟨hout, -⟩ := hboth.1 ⟨_, hc⟩
    cases hout
  | broken t n fault hc hn hb htakes hsevere hnotes =>
    have hcredit : ¬Creditable story delta := fun hcredit =>
      htakes ((creditable_iff h t hc hn).1 hcredit).2
    rw [apply_of_severe tag hsevere hr]
    refine ⟨⟨fun hyes => absurd hyes hcredit, fun hboth => ?_⟩,
      fun _ => ⟨⟨_, hc⟩, t, n, fault, hn, rfl, by rw [hnotes]; rfl⟩⟩
    obtain ⟨hout, -⟩ := hboth.1 ⟨_, hc⟩
    cases hout

/-! ### Where a transfer is not all or nothing -/

/-- The document of a story with two holders that have 1e308 and 1.7e308 denarii. -/
def largeHoldersDocument : Value :=
  .mapping [("assets", .mapping [("cash_ledger", .list [
    .mapping [("holder", .text "a"), ("denarii", .float (Float.ofBits 0x7fe1ccf385ebc8a0))],
    .mapping [("holder", .text "b"), ("denarii", .float (Float.ofBits 0x7fee42d130773b76))]])])]

/-- A transfer of all that the first of the two has. -/
def largeTransfer (target : String) : Delta :=
  ⟨.transfer, "", .null, none, some "a", some target,
    some (.float (Float.ofBits 0x7fe1ccf385ebc8a0))⟩

/-- The sum of two balances can be too large for one: the transfer is accepted, breaks off, and the
source has lost what it paid. -/
theorem transfer_not_atomic : ∃ story, Story.read largeHoldersDocument = .ok story ∧
    check story (largeTransfer "b") = .ok none ∧
      (∀ c, (apply story (largeTransfer "b") ⟨none, none⟩).outcome ≠ .ok (.applied c)) ∧
        (apply story (largeTransfer "b") ⟨none, none⟩).story.holdings ≠ story.holdings := by
  obtain ⟨story, hread, hcheck, hout, hheld⟩ := Story.exists_read largeHoldersDocument (fun story =>
    check story (largeTransfer "b") = .ok none ∧
      (apply story (largeTransfer "b") ⟨none, none⟩).isApplied = false ∧
        (apply story (largeTransfer "b") ⟨none, none⟩).story.holdings ≠ story.holdings)
    (by decide +kernel)
  exact ⟨story, hread, hcheck, Run.isApplied_eq_false_iff.1 hout, hheld⟩

/-- A holder without an entry can take any amount. -/
theorem all_or_nothing_new : ∃ story, Story.read largeHoldersDocument = .ok story ∧
    Settled story (apply story (largeTransfer "c") ⟨none, none⟩).story (largeTransfer "c") := by
  obtain ⟨story, hread, hcheck, hout⟩ := Story.exists_read largeHoldersDocument (fun story =>
    check story (largeTransfer "c") = .ok none ∧
      (apply story (largeTransfer "c") ⟨none, none⟩).isApplied = true) (by decide +kernel)
  obtain ⟨hiff, hbroken⟩ := all_or_nothing_iff (Story.sound_of_read hread)
    (show (largeTransfer "c").op = .transfer from rfl) ⟨none, none⟩
  have hcreditable : Creditable story (largeTransfer "c") := by
    by_contra hnot
    obtain ⟨-, t, n, fault, -, hfault, -⟩ := hbroken hnot
    obtain ⟨c, hc⟩ := Run.isApplied_iff.1 hout
    rw [hfault] at hc
    cases hc
  exact ⟨story, hread, ((hiff.1 hcreditable).1 hcheck).2⟩

end StoryWorld.Delta
