import StoryWorld.Fault

/-!
Laying one configuration over another.

Where both have a mapping under a key, the two are laid over each other in turn; everywhere else the
upper one counts.
-/

namespace StoryWorld.Config

mutual

/-- A value laid over what stands below it, if anything does. -/
def layOver (below : Option Value) : Value → Value
  | .mapping es =>
    match below with
    | some (.mapping base) => .mapping (layAll base es)
    | _ => .mapping es
  | v => v

/-- The entries of a mapping laid over those of another, one after the other. -/
def layAll (base : List (String × Value)) : List (String × Value) → List (String × Value)
  | [] => base
  | (k, v) :: rest => layAll (Table.put k (layOver (Table.get? k base) v) base) rest

end

/-- A layer of configuration: nothing, or anything that counts as nothing, is an empty mapping. -/
def layer : Option Value → Outcome (List (String × Value))
  | none => .ok []
  | some (.mapping es) => .ok es
  | some v => if v.truthy then .error .noField else .ok []

/-- Layers laid over a configuration, the last of them on top. -/
def layers (base : List (String × Value)) : List (Option Value) → Outcome (List (String × Value))
  | [] => .ok base
  | upper :: rest => do
    let es ← layer upper
    layers (layAll base es) rest

end StoryWorld.Config
