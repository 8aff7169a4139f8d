import StoryWorld.Delta.Transfer
import StoryWorld.Journal

/-!
Applying deltas one by one and in batches.

A refusal becomes a result with a code and a message, and a batch goes on after it: nothing that
was applied is taken back. Any other failure ends the batch, with what was done up to then in
effect.
-/

namespace StoryWorld

/-- An operation on a story: the story afterwards, the lines it wrote, and what came of it. -/
structure Run (α : Type) where
  story : Story
  lines : List Line
  outcome : Outcome α

/-- What came of one delta. -/
inductive DeltaResult where
  | applied (committed : Committed)
  | rejected (code : Code) (message : String)

/-- A delta that was refused, and why. -/
structure DeltaFailure where
  delta : Delta
  code : Code
  message : String

/-- What came of a batch. -/
structure BatchResult where
  applied : List Committed
  failed : List DeltaFailure

/-- Whether every delta of a batch was applied. -/
def BatchResult.success (r : BatchResult) : Bool := r.failed.isEmpty

namespace Delta

/-- The component that deltas are logged under. -/
def component : String := "delta_engine"

/-- Makes a delta: the story afterwards, and whether it worked. -/
def perform (story : Story) (delta : Delta) : Story × Outcome Unit :=
  match delta.op with
  | .transfer => transfer story delta
  | _ => amendPath story delta

/-- The line about a delta that was refused. -/
def rejectedLine (delta : Delta) (tag : Tag) (code : Code) (message : String) : Line :=
  ⟨.debug, component, tag.scene, some delta.path,
    "Delta rejected op=" ++ delta.op.name ++ " code=" ++ code.name ++ " error=" ++ message⟩

/-- The line about a delta that was applied. -/
def appliedLine (delta : Delta) (tag : Tag) : Line :=
  ⟨.debug, component, tag.scene, some delta.path, "Delta applied op=" ++ delta.op.name⟩

/-- Applies a delta. -/
def apply (story : Story) (delta : Delta) (tag : Tag) : Run DeltaResult :=
  match perform story delta with
  | (after, .ok ()) =>
    ⟨after, [appliedLine delta tag], .ok (.applied ⟨delta, tag⟩)⟩
  | (after, .error (.refused code message)) =>
    ⟨after, [rejectedLine delta tag code message], .ok (.rejected code message)⟩
  | (after, .error fault) => ⟨after, [], .error fault⟩

/-- Applies deltas in their order, up to the first failure that is no refusal. -/
def applyEach (story : Story) (tag : Tag) : List Delta → Run BatchResult
  | [] => ⟨story, [], .ok ⟨[], []⟩⟩
  | delta :: rest =>
    let one := apply story delta tag
    match one.outcome with
    | .error fault => ⟨one.story, one.lines, .error fault⟩
    | .ok result =>
      let more := applyEach one.story tag rest
      let add (r : BatchResult) : BatchResult :=
        match result with
        | .applied c => ⟨c :: r.applied, r.failed⟩
        | .rejected code message => ⟨r.applied, ⟨delta, code, message⟩ :: r.failed⟩
      ⟨more.story, one.lines ++ more.lines, more.outcome.map add⟩

/-- The line about a delta of a batch that was refused. -/
def failureLine (tag : Tag) (f : DeltaFailure) : Line :=
  ⟨.warning, component, tag.scene, none,
    "Delta failed op=" ++ f.delta.op.name ++ " path=" ++ Text.orDash (some f.delta.path) ++
      " code=" ++ f.code.name ++ " error=" ++ f.message⟩

/-- The lines about a batch: how many deltas were applied and refused, then each refusal. -/
def batchLines (tag : Tag) (r : BatchResult) : List Line :=
  ⟨.info, component, tag.scene, none,
    "Delta batch completed applied=" ++ toString r.applied.length ++ " failed=" ++
      toString r.failed.length⟩ :: r.failed.map (failureLine tag)

/-- Applies a batch of deltas. -/
def applyAll (story : Story) (deltas : List Delta) (tag : Tag) : Run BatchResult :=
  let run := applyEach story tag deltas
  match run.outcome with
  | .ok r => ⟨run.story, run.lines ++ batchLines tag r, .ok r⟩
  | .error _ => run

/-- Checks a delta without making it. A refusal is the result here; any other failure is one. -/
def check (story : Story) (delta : Delta) : Outcome (Option (Code × String)) :=
  let checked : Outcome Unit :=
    match delta.op with
    | .transfer => (checkTransfer story delta).map fun _ => ()
    | _ => checkPath story delta
  match checked with
  | .ok () => .ok none
  | .error (.refused code message) => .ok (some (code, message))
  | .error fault => .error fault

end Delta

end StoryWorld
