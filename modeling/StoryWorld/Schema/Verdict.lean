import StoryWorld.Fault

/-!
The verdict on a document or a part of it.

All problems are collected, so a verdict that rejects names every one of them. A number too large
for the check that it has to pass stops the whole reading, whatever else is wrong.
-/

namespace StoryWorld

/-- The outcome of reading a document as a shape. -/
inductive Verdict (α : Type) where
  | accepted (a : α)
  | rejected (problems : List Problem)
  | overflow

namespace Verdict

variable {α β γ : Type}

/-- The verdict with its result changed. -/
def map (f : α → β) : Verdict α → Verdict β
  | accepted a => accepted (f a)
  | rejected ps => rejected ps
  | overflow => overflow

/-- Both parts of a document: the problems of the first come first. -/
def both (f : α → β → γ) : Verdict α → Verdict β → Verdict γ
  | overflow, _ => overflow
  | _, overflow => overflow
  | accepted a, accepted b => accepted (f a b)
  | accepted _, rejected qs => rejected qs
  | rejected ps, accepted _ => rejected ps
  | rejected ps, rejected qs => rejected (ps ++ qs)

/-- A further check on a result that was accepted. -/
def andThen : Verdict α → (α → Verdict β) → Verdict β
  | accepted a, f => f a
  | rejected ps, _ => rejected ps
  | overflow, _ => overflow

/-- A single complaint about the value itself. -/
def reject (c : Complaint) : Verdict α := rejected [⟨[], c⟩]

/-- The verdict with its problems moved inside a place. -/
def under (place : String) : Verdict α → Verdict α
  | rejected ps => rejected (ps.map fun p => ⟨place :: p.place, p.complaint⟩)
  | v => v

/-- The verdict with its problems marked at the end of their places. -/
def marked (mark : String) : Verdict α → Verdict α
  | rejected ps => rejected (ps.map fun p => ⟨p.place ++ [mark], p.complaint⟩)
  | v => v

/-- The verdict as the outcome of reading a document of a kind. -/
def outcome (kind : Kind) : Verdict α → Outcome α
  | accepted a => .ok a
  | rejected ps => .error (.invalid ⟨kind, ps⟩)
  | overflow => .error .overflow

end Verdict

end StoryWorld
