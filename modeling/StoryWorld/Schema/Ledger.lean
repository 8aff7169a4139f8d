import StoryWorld.Value.Order

/-!
The condition on a cash ledger: it holds ledger entries only, and no two of one holder.

The check goes through the entries in turn. It says nothing about balances, which the entries guard
themselves.
-/

namespace StoryWorld.Ledger

/-- What is wrong with a ledger. -/
inductive Flaw where
  | notAnEntry (v : Value)
  | duplicate (holder : Value)

/-- The message about a flaw. -/
def Flaw.message : Flaw → String
  | notAnEntry v => "cash_ledger holds a non-entry value: " ++ v.quotedText
  | duplicate holder => "duplicate cash_ledger entry for holder: " ++ holder.shownText

/-- The first flaw of the entries, after entries of the given holders. -/
def flawAfter? (seen : List Value) : List Value → Outcome (Option Flaw)
  | [] => .ok none
  | entry :: rest =>
    if !entry.isEntity .ledgerEntry then .ok (some (.notAnEntry entry))
    else do
      let holder ← entry.get "holder"
      if !holder.isKey then .error .wrongType
      else if seen.any (holder.equal ·) then return some (.duplicate holder)
      else flawAfter? (seen ++ [holder]) rest

/-- The first flaw of the cash ledger of assets. -/
def flaw? (assets : Value) : Outcome (Option Flaw) := do
  let ledger ← assets.get "cash_ledger"
  let entries ← ledger.iterate
  flawAfter? [] entries

end StoryWorld.Ledger
