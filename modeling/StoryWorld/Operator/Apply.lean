import StoryWorld.Delta.Batch
import StoryWorld.Operator.Basic

/-!
Applying an operator to a story.

The conditions are checked for the bound roles first; only if all of them pass are the effects
applied, with their paths written out and the parties of transfers replaced by the bound ids.
-/

namespace StoryWorld.Operator

/-- What came of an operator: the results of its conditions, and of its effects if they were
applied. -/
structure Result where
  id : String
  conditions : List PrerequisiteResult
  effects : Option BatchResult

/-- Whether every condition passed and every effect was applied. -/
def Result.success (r : Result) : Bool :=
  Prerequisite.allPassed r.conditions && r.effects.any BatchResult.success

/-- The party of a transfer: the id of a role that is bound, or the name as it is. -/
def party (bindings : Bindings) (name : Option String) : Option String :=
  match name with
  | some "actor" => some ((Text.present? bindings.actor).getD "actor")
  | some "target" => some ((Text.present? bindings.target).getD "target")
  | other => other

/-- An effect for bound roles: its path written out, its parties replaced. -/
def bindEffect (bindings : Bindings) (delta : Delta) : Delta :=
  let expanded := delta.expand bindings
  { expanded with
    source := party bindings expanded.source
    target := party bindings expanded.target }

/-- The component that operators are logged under. -/
def component : String := "operators"

/-- The line about an operator whose conditions did not all pass. -/
def blockedLine (op : Operator) (tag : Tag) (results : List PrerequisiteResult) : Line :=
  let failed := (results.filter fun r => !r.passed).map fun r => Value.text (Prerequisite.label r)
  ⟨.info, component, tag.scene, none,
    "Operator blocked id=" ++ op.id ++ " failed_prereqs=" ++ (Value.list failed).quotedText⟩

/-- The line about an operator whose effects were applied. -/
def appliedLine (op : Operator) (tag : Tag) (batch : BatchResult) : Line :=
  ⟨.info, component, tag.scene, none,
    "Operator applied id=" ++ op.id ++ " applied=" ++ toString batch.applied.length ++ " failed=" ++
      toString batch.failed.length⟩

/-- The tag of an operator's effects: without a reason of its own, the operator is the reason. -/
def effectTag (op : Operator) (tag : Tag) : Tag :=
  ⟨tag.scene, some ((Text.present? tag.reason).getD ("operator:" ++ op.id))⟩

/-- Applies the effects of an operator whose conditions passed. -/
def applyEffects (story : Story) (op : Operator) (bindings : Bindings) (tag : Tag)
    (results : List PrerequisiteResult) : Run Result :=
  let run := Delta.applyAll story (op.effects.map (bindEffect bindings)) (effectTag op tag)
  match run.outcome with
  | .error fault => ⟨run.story, run.lines, .error fault⟩
  | .ok batch =>
    ⟨run.story, run.lines ++ [appliedLine op tag batch], .ok ⟨op.id, results, some batch⟩⟩

/-- Applies an operator. -/
def apply (story : Story) (op : Operator) (bindings : Bindings) (tag : Tag) : Run Result :=
  match Context.ofStory story bindings with
  | .error fault => ⟨story, [], .error fault⟩
  | .ok context =>
    match Prerequisite.evaluateAll context op.prerequisites with
    | (lines, .error fault) => ⟨story, lines, .error fault⟩
    | (lines, .ok results) =>
      if Prerequisite.allPassed results then
        let run := applyEffects story op bindings tag results
        ⟨run.story, lines ++ run.lines, run.outcome⟩
      else ⟨story, lines ++ [blockedLine op tag results], .ok ⟨op.id, results, none⟩⟩

end StoryWorld.Operator
