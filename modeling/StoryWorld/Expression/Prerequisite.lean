import StoryWorld.Delta.Text
import StoryWorld.Expression.Evaluate

/-!
Prerequisites: expressions that have to be true.

A prerequisite passes only if its expression comes out as `true`; a number never passes.
-/

namespace StoryWorld

/-- A condition, and the id it goes by if it has one. -/
structure Prerequisite where
  expr : String
  id : Option String
  deriving DecidableEq, Repr

/-- What came of one condition. -/
structure PrerequisiteResult where
  expr : String
  id : Option String
  passed : Bool
  failure : Option (Code × String)
  deriving DecidableEq, Repr

namespace Prerequisite

/-- The prerequisite of an entity that was read as one. -/
def ofEntity (v : Value) : Prerequisite := ⟨(v.field "expr").textOr "", Delta.text? (v.field "id")⟩

/-- Reads a document as a prerequisite. -/
def read (document : Value) : Outcome Prerequisite :=
  (Schema.read .prereq document).map ofEntity

/-- Reads an item of a list of prerequisites: a text is an expression without an id. -/
def readItem : Value → Outcome Prerequisite
  | .text s => .ok ⟨s, none⟩
  | v => read v

/-- The prerequisite that a value stands for: an object is read as one, anything else is shown as a
text, which is an expression without an id. -/
def ofItem : Value → Outcome Prerequisite
  | .mapping es => read (.mapping es)
  | v => .ok ⟨v.shownText, none⟩

/-- The prerequisites in a text. -/
def parseText (text : List Char) : Outcome (List Prerequisite) := do
  let document ← Json.load text
  let items ← documentItems document ["prereqs"]
  (items.mapM readItem).mapError (refuseText "prereq")

/-- A prerequisite as a document. -/
def dump (p : Prerequisite) : Value :=
  .mapping [("expr", .text p.expr), ("id", Delta.optionalText p.id)]

/-- What a finding means for a condition. -/
def judge (p : Prerequisite) : Expr.Finding → PrerequisiteResult
  | .value (.bool true) => ⟨p.expr, p.id, true, none⟩
  | .value _ => ⟨p.expr, p.id, false, none⟩
  | .failure code message => ⟨p.expr, p.id, false, some (code, message)⟩

/-- Evaluates conditions in their order, with the lines that they write. -/
def evaluateAll (context : Context) :
    List Prerequisite → List Line × Outcome (List PrerequisiteResult)
  | [] => ([], .ok [])
  | p :: rest =>
    match Expr.evaluate context p.expr with
    | (lines, .error fault) => (lines, .error fault)
    | (lines, .ok finding) =>
      let (more, results) := evaluateAll context rest
      (lines ++ more, results.map (judge p finding :: ·))

/-- Whether every condition passed. -/
def allPassed (results : List PrerequisiteResult) : Bool := results.all PrerequisiteResult.passed

/-- The name that a result goes by: its id, or its expression. -/
def label (r : PrerequisiteResult) : String := (Text.present? r.id).getD r.expr

end Prerequisite

end StoryWorld
