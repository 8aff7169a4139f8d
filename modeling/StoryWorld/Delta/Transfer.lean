import StoryWorld.Delta.Amend
import StoryWorld.Text.Optional

/-!
Moving money from one holder of the cash ledger to another.

The source needs an entry with enough money. The destination gets an entry if it has none. The
source pays first; a destination that cannot take the money makes the transfer fail with the source
already debited.
-/

namespace StoryWorld.Delta

/-- The position of a holder's entry in the cash ledger. -/
def entryOf (story : Story) (holder : String) : Outcome (Option Nat) :=
  Value.findFrom (fun entry => (entry.get "holder").map fun h => h.equal (.text holder)) 0
    (ledger story)

/-- The balance of the entry at a position. -/
def balanceAt (story : Story) (position : Nat) : Outcome Number := do
  let entry := (ledger story).getD position .null
  match (← entry.get "denarii").number? with
  | some n => return n
  | none => .error .wrongType

/-- The story with another list of entries in its cash ledger. -/
def setLedger (story : Story) (entries : List Value) : Story :=
  { story with assets := story.assets.setField "cash_ledger" (.list entries) }

/-- Assigns a balance to the entry at a position, which guards it. -/
def setBalance (story : Story) (position : Nat) (n : Number) : Story × Outcome Unit :=
  let entry := (ledger story).getD position .null
  let (entry, outcome) := Assign.assign entry (.slot (.field "denarii")) (.number n)
  (setLedger story ((ledger story).set position entry), outcome)

/-- Changes the balance of the entry at a position by an operation with an amount. -/
def changeBalance (story : Story) (position : Nat) (op : Number → Number → Option Number)
    (amount : Number) : Story × Outcome Unit :=
  match balanceAt story position with
  | .error fault => (story, .error fault)
  | .ok balance =>
    match op balance amount with
    | some n => setBalance story position n
    | none => (story, .error .overflow)

/-- A new entry of the cash ledger. -/
def newEntry (holder : String) (amount : Number) : Value :=
  .entity .ledgerEntry [(.field "holder", .text holder), (.field "denarii", .number amount)]

/-- What a transfer is about: where the source's entry stands, the destination, and the amount. -/
structure Transfer where
  source : Nat
  destination : String
  amount : Number
  deriving DecidableEq, Repr

/-- The parties and the amount of a delta that has them all. -/
def parties? (delta : Delta) : Option (String × String × Number) := do
  let source ← Text.present? delta.source
  let destination ← Text.present? delta.target
  let amount ← delta.amount
  return (source, destination, amount)

/-- Checks a transfer without making it. -/
def checkTransfer (story : Story) (delta : Delta) : Outcome Transfer :=
  match parties? delta with
  | none => refuse .invalidDelta "Transfer requires from, to, and amount fields"
  | some (source, destination, amount) => do
    let finite ← Outcome.ofSize amount.finite?
    if !finite || amount.atMost (.int 0) then
      refuse .invalidDelta
        ("Transfer amount must be a positive number, got " ++ String.ofList amount.message)
    else
      match ← entryOf story source with
      | none => refuse .noLedgerEntry ("No ledger entry for: " ++ source)
      | some position =>
        let balance ← balanceAt story position
        if balance.less amount then
          refuse .insufficientFunds
            ("Insufficient funds: " ++ source ++ " has " ++ String.ofList balance.message ++
              ", needs " ++ String.ofList amount.message)
        else return ⟨position, destination, amount⟩

/-- Credits the destination of a transfer: adds to its entry, or makes one at the end. -/
def credit (story : Story) (t : Transfer) : Story × Outcome Unit :=
  match entryOf story t.destination with
  | .error fault => (story, .error fault)
  | .ok (some position) => changeBalance story position Number.add? t.amount
  | .ok none =>
    (setLedger story (ledger story ++ [newEntry t.destination t.amount]), .ok ())

/-- Makes a transfer: debits the source, then credits the destination. -/
def transfer (story : Story) (delta : Delta) : Story × Outcome Unit :=
  match checkTransfer story delta with
  | .error fault => (story, .error fault)
  | .ok t =>
    match changeBalance story t.source Number.sub? t.amount with
    | (debited, .ok ()) => credit debited t
    | (debited, .error fault) => (debited, .error fault)

end StoryWorld.Delta
