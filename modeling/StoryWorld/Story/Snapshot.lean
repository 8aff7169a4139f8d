import StoryWorld.Story.Basic
import StoryWorld.Json.Canonical
import StoryWorld.Digest.Sha256

/-!
Saving a story, loading it again, and its fingerprint.

A story is saved in its stored form, canonically written; the fingerprint is the digest of that
text.
-/

namespace StoryWorld

/-- The canonical text of a document. -/
def canonicalText (document : Value) : Outcome (List Char) :=
  match Json.canonical? document with
  | some s => .ok s
  | none => .error .wrongType

namespace Story

/-- The text that a story is saved as. -/
def save (story : Story) : Outcome (List Char) := do
  let document ← Schema.stored Kind.worldState.shape story.toEntity
  canonicalText document

/-- Loads a story from a text. -/
def load (text : List Char) : Outcome Story :=
  match Json.read? Json.stored text with
  | some document => read document
  | none => .error .notJson

/-- The fingerprint of a story: the digest of the text it is saved as. -/
def fingerprint (story : Story) : Outcome String := story.save.map Sha256.digestText

/-- The story that is loaded from what this one is saved as. -/
def reload (story : Story) : Outcome Story := story.save.bind load

end Story

end StoryWorld
