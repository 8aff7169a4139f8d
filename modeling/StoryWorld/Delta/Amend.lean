import StoryWorld.Delta.Basic
import StoryWorld.Schema.Comparison

/-!
What a path delta does at its place.

Every operation checks its place first: arithmetic needs two numbers, appending and removing need a
list. A value that takes the place of an entity, or joins a list of entities, is read as one. A
change to the assets is rehearsed: it is made on a copy, and only if the cash ledger of the copy is
sound is it made in earnest.
-/

namespace StoryWorld.Delta

/-- The operation of arithmetic that a delta stands for. -/
def arithmetic? : DeltaOp → Option (Number → Number → Option Number)
  | .add => some Number.add?
  | .subtract => some Number.sub?
  | .multiply => some Number.mul?
  | _ => none

/-- The list at a place. -/
def requireList (story : Story) (place : Place) (delta : Delta) : Outcome (List Value) := do
  match ← place.read story with
  | .list xs => return xs
  | v =>
    refuse .typeMismatch
      ("'" ++ delta.op.name ++ "' requires a sequence at " ++ delta.path ++ ", got " ++
        v.category.name)

/-- The number at a place and the number of the delta. -/
def requireNumbers (story : Story) (place : Place) (delta : Delta) : Outcome (Number × Number) := do
  let current ← place.read story
  match current.number?, delta.value.number? with
  | some a, some b => return (a, b)
  | _, _ =>
    refuse .typeMismatch
      ("'" ++ delta.op.name ++ "' requires numeric values at " ++ delta.path ++ ", got " ++
        current.category.name ++ " and " ++ delta.value.category.name)

/-- The delta's value read as an entity of a kind. -/
def fit (kind : Kind) (delta : Delta) : Outcome Value :=
  match Schema.read kind delta.value with
  | .error (.invalid report) =>
    refuse .typeMismatch
      ("'" ++ delta.op.name ++ "' value does not fit " ++ kind.name ++ " at " ++ delta.path ++
        ": " ++ report.summary)
  | outcome => outcome

/-- The item that appending adds: an entity where the list is declared to hold entities. -/
def newItem (story : Story) (place : Place) (delta : Delta) : Outcome Value :=
  match place.itemKind? story with
  | some kind => fit kind delta
  | none => .ok delta.value

/-- The value that setting writes: an entity where it takes the place of one in a list. -/
def replacement (story : Story) (place : Place) (delta : Delta) : Outcome Value :=
  match place.last with
  | .item _ => do
    match ← place.read story with
    | .entity kind _ => fit kind delta
    | _ => return delta.value
  | _ => .ok delta.value

/-- The one key and value that an item has to have to be removed, if the delta gives a pattern. -/
def pattern? (delta : Delta) : Outcome (Option (String × Value)) :=
  match delta.pattern with
  | none => .ok none
  | some [pair] => .ok (some pair)
  | some es =>
    refuse .invalidDelta
      ("'remove' match needs exactly one key/value pair, got " ++ toString es.length)

/-- What an item has under a key: a declared field by either of its names, or an extra field. -/
def itemField? (item : Value) (key : String) : Option Value :=
  match item with
  | .mapping es => Table.get? key es
  | .entity kind slots =>
    match kind.fields.find? fun f => f.1.name == key || f.1.external == key with
    | some f => Table.get? (.field f.1.name) slots
    | none => Table.get? (.extra key) slots
  | _ => none

/-- Whether an item is the one to be removed. -/
def isSought (delta : Delta) (pattern : Option (String × Value)) (item : Value) : Outcome Bool :=
  match pattern with
  | none => item.strictEqual delta.value
  | some (key, wanted) =>
    match itemField? item key with
    | some v => v.strictEqual wanted
    | none => .ok false

/-- The list without the item at a position. -/
def without (xs : List Value) (position : Nat) : List Value := xs.eraseIdx position

/-- Checks a path delta at its place without making it. -/
def checkAt (story : Story) (place : Place) (delta : Delta) : Outcome Unit :=
  match delta.op with
  | .set => (replacement story place delta).map fun _ => ()
  | .add | .subtract | .multiply => (requireNumbers story place delta).map fun _ => ()
  | .append => do
    let _ ← requireList story place delta
    let _ ← newItem story place delta
    return ()
  | .remove => do
    let _ ← requireList story place delta
    let _ ← pattern? delta
    return ()
  | .transfer => .ok ()

/-- The list after appending. -/
def appended (story : Story) (place : Place) (delta : Delta) : Outcome (List Value) := do
  let xs ← requireList story place delta
  let x ← newItem story place delta
  return xs ++ [x]

/-- The list after removing the first item that is sought; it stays as it is if none is. -/
def removed (story : Story) (place : Place) (delta : Delta) : Outcome (List Value) := do
  let xs ← requireList story place delta
  let pattern ← pattern? delta
  match ← Value.findFrom (isSought delta pattern) 0 xs with
  | some i => return without xs i
  | none => return xs

/-- The result of arithmetic at a place. -/
def computed (story : Story) (place : Place) (delta : Delta)
    (op : Number → Number → Option Number) : Outcome Value := do
  let (a, b) ← requireNumbers story place delta
  let n ← Outcome.ofSize (op a b)
  return .number n

/-- Writes a value that may have failed to come about. -/
def writeOutcome (story : Story) (place : Place) (path : String) :
    Outcome Value → Story × Outcome Unit
  | .ok v => place.write story path v
  | .error fault => (story, .error fault)

/-- Puts a list that may have failed to come about in the place of another. -/
def putOutcome (story : Story) (place : Place) : Outcome (List Value) → Story × Outcome Unit
  | .ok xs => (place.put story (.list xs), .ok ())
  | .error fault => (story, .error fault)

/-- Makes a path delta at its place: the story afterwards, and whether it worked. -/
def amend (story : Story) (place : Place) (delta : Delta) : Story × Outcome Unit :=
  match delta.op with
  | .set => writeOutcome story place delta.path (replacement story place delta)
  | .append => putOutcome story place (appended story place delta)
  | .remove => putOutcome story place (removed story place delta)
  | .transfer =>
    (story, refuse .invalidDelta ("Operator '" ++ delta.op.name ++ "' cannot target a path"))
  | op =>
    match arithmetic? op with
    | some f => writeOutcome story place delta.path (computed story place delta f)
    | none => (story, .ok ())

/-- The entries of the cash ledger. -/
def ledger (story : Story) : List Value := (story.assets.field "cash_ledger").items

/-- A story with a copy of the assets and nothing else of its own. -/
def onTrial (story : Story) : Story :=
  { Story.ofEntity (Shape.blank .worldState Fields.worldState) with assets := story.assets }

/-- Makes a path delta where its path leads to: the story afterwards, and whether it worked. -/
def amendAt (story : Story) (delta : Delta) : Story × Outcome Unit :=
  match Place.resolve story delta.path with
  | .ok place => amend story place delta
  | .error fault => (story, .error fault)

/-- Makes a delta on the assets of a copy, and fails if the delta does or if it leaves the cash
ledger of the copy unsound. Deltas elsewhere need no rehearsal. -/
def rehearse (story : Story) (delta : Delta) : Outcome Unit :=
  if (Segment.split delta.path.toList).head? ≠ some Root.assets.name.toList then .ok ()
  else
    match amendAt (onTrial story) delta with
    | (_, .error fault) => .error fault
    | (after, .ok ()) => do
      match ← Ledger.flaw? after.assets with
      | none => return ()
      | some flaw =>
        refuse .invalidDelta ("Delta would break the cash ledger: " ++ flaw.message)

/-- Makes a path delta: resolves its path, rehearses it, and makes it in earnest. -/
def amendPath (story : Story) (delta : Delta) : Story × Outcome Unit :=
  match Place.resolve story delta.path with
  | .error fault => (story, .error fault)
  | .ok place =>
    match rehearse story delta with
    | .error fault => (story, .error fault)
    | .ok () => amend story place delta

/-- Checks a path delta without making it. -/
def checkPath (story : Story) (delta : Delta) : Outcome Unit := do
  let place ← Place.resolve story delta.path
  checkAt story place delta
  rehearse story delta

end StoryWorld.Delta
