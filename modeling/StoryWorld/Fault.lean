import StoryWorld.Value.Basic

/-!
Why an operation fails.

Most failures are refusals with a code and a message. A document that does not fit its kind comes
with a report of every problem in it. The remaining causes are conditions of the values at hand: a
number too large, a quotient by zero, a value of another shape than the operation needs.
-/

namespace StoryWorld

/-- The codes of refusals. -/
inductive Code where
  | unknownRoot | malformedPath | pathNotFound | typeMismatch | insufficientFunds | noLedgerEntry
  | invalidDelta | unknownContextRoot | contextNotAvailable | syntaxError
  deriving DecidableEq, Repr

/-- The name of a code. -/
def Code.name : Code → String
  | unknownRoot => "UnknownRoot"
  | malformedPath => "MalformedPath"
  | pathNotFound => "PathNotFound"
  | typeMismatch => "TypeMismatch"
  | insufficientFunds => "InsufficientFunds"
  | noLedgerEntry => "NoLedgerEntry"
  | invalidDelta => "InvalidDelta"
  | unknownContextRoot => "UnknownContextRoot"
  | contextNotAvailable => "ContextNotAvailable"
  | syntaxError => "SyntaxError"

/-- What is wrong with one place of a document. -/
inductive Complaint where
  | missing | modelType | listType | mappingType | textType | choice | extraForbidden
  | tooSmall | tooLarge | rule
  | wholeType | wholeNumeral | wholeSize | wholeFraction | wholeFinite
  | realType | realNumeral | truthType | truthNumeral
  deriving DecidableEq, Repr

/-- The name of a complaint. -/
def Complaint.name : Complaint → String
  | missing => "missing"
  | modelType => "model_type"
  | listType => "list_type"
  | mappingType => "dict_type"
  | textType => "string_type"
  | choice => "enum"
  | extraForbidden => "extra_forbidden"
  | tooSmall => "greater_than_equal"
  | tooLarge => "less_than_equal"
  | rule => "value_error"
  | wholeType => "int_type"
  | wholeNumeral => "int_parsing"
  | wholeSize => "int_parsing_size"
  | wholeFraction => "int_from_float"
  | wholeFinite => "finite_number"
  | realType => "float_type"
  | realNumeral => "float_parsing"
  | truthType => "bool_type"
  | truthNumeral => "bool_parsing"

/-- A complaint and the place it is about: field names and positions from the outside in. -/
structure Problem where
  place : List String
  complaint : Complaint
  deriving DecidableEq, Repr

/-- All problems of a document, and the kind it was read as. -/
structure Report where
  kind : Kind
  problems : List Problem
  deriving DecidableEq, Repr

namespace Report

/-- The first line of a report: how many problems there are, and of what kind of document. A refusal
that quotes a report has only this line of it: the lines after it, one for each problem in the words
of whoever reads documents, are left out of all texts. -/
def summary (report : Report) : String :=
  let count := report.problems.length
  toString count ++ (if count = 1 then " validation error for " else " validation errors for ") ++
    report.kind.name

/-- The order of the lines of a report: by place, then by complaint. -/
def lineLe (a b : String × String) : Bool :=
  decide (a.1 < b.1) || (a.1 == b.1 && decide ¬ b.2 < a.2)

/-- The problems as pairs of a dotted place and the name of the complaint, sorted. -/
def lines (report : Report) : List (String × String) :=
  (report.problems.map fun p => (".".intercalate p.place, p.complaint.name)).mergeSort lineLe

end Report

/-- The causes of failure. -/
inductive Fault where
  /-- The operation is refused, for a reason that callers tell apart by the code. -/
  | refused (code : Code) (message : String)
  /-- A document does not fit its kind. -/
  | invalid (report : Report)
  /-- A whole number is too large for a float, or a result for any float. -/
  | overflow
  /-- A quotient by zero. -/
  | divisionByZero
  /-- A text is no numeral, or too long for one. -/
  | badNumeral
  /-- A name that is none of those known. -/
  | unknownName
  /-- A value with too many levels to be saved. -/
  | tooDeep
  /-- A value of a type that the operation does not work on. -/
  | wrongType
  /-- A value without the field that the operation reads or writes. -/
  | noField
  /-- No snapshot has the name. -/
  | unknownSnapshot
  /-- A variable with an empty name. -/
  | emptyVariable
  /-- A text that is not JSON. -/
  | notJson
  deriving DecidableEq, Repr

/-- The result of an operation, or the cause of its failure. -/
abbrev Outcome (α : Type) := Except Fault α

/-- A refusal. -/
def refuse {α : Type} (code : Code) (message : String) : Outcome α := .error (.refused code message)

/-- A result that may be too large. -/
def Outcome.ofSize {α : Type} : Option α → Outcome α
  | some a => .ok a
  | none => .error .overflow

namespace Outcome

variable {α β : Type}

/-- An operation in two parts works only if both of them do. -/
theorem bind_ok {x : Outcome α} {f : α → Outcome β} {b : β} :
    (x >>= f) = .ok b ↔ ∃ a, x = .ok a ∧ f a = .ok b := by
  cases x <;> simp [bind, Except.bind]

theorem map_ok {x : Outcome α} {f : α → β} {b : β} :
    x.map f = .ok b ↔ ∃ a, x = .ok a ∧ f a = b := by
  cases x <;> simp [Except.map]

theorem ok_bind (a : α) (f : α → Outcome β) : ((.ok a : Outcome α) >>= f) = f a := rfl

/-- It fails if the first part does, or else the second. -/
theorem bind_error {x : Outcome α} {f : α → Outcome β} {fault : Fault} :
    (x >>= f) = .error fault ↔ x = .error fault ∨ ∃ a, x = .ok a ∧ f a = .error fault := by
  cases x <;> simp [bind, Except.bind]

theorem map_error {x : Outcome α} {f : α → β} {fault : Fault} :
    x.map f = .error fault ↔ x = .error fault := by
  cases x <;> simp [Except.map]

theorem toOption_eq_some {x : Outcome α} {a : α} : x.toOption = some a ↔ x = .ok a := by
  cases x <;> simp [Except.toOption]

@[simp] theorem pure_ok {a b : α} : (pure a : Outcome α) = .ok b ↔ a = b := by
  simp [pure, Except.pure]

@[simp] theorem ofSize_ok {x : Option α} {a : α} : ofSize x = .ok a ↔ x = some a := by
  cases x <;> simp [ofSize]

@[simp] theorem refuse_ne_ok {code : Code} {message : String} {a : α} :
    (refuse code message : Outcome α) ≠ .ok a := by
  simp [refuse]

/-- Whatever an operation fails with, if it fails, has a property. -/
def FailsOnly (P : Fault → Prop) (x : Outcome α) : Prop := ∀ fault, x = .error fault → P fault

variable {P : Fault → Prop}

@[simp] theorem failsOnly_ok (a : α) : FailsOnly P (.ok a : Outcome α) := by
  intro fault h
  cases h

@[simp] theorem failsOnly_pure (a : α) : FailsOnly P (pure a : Outcome α) := failsOnly_ok a

@[simp] theorem failsOnly_error {fault : Fault} :
    FailsOnly P (.error fault : Outcome α) ↔ P fault := by
  simp [FailsOnly]

@[simp] theorem failsOnly_refuse {code : Code} {message : String} :
    FailsOnly P (refuse code message : Outcome α) ↔ P (.refused code message) :=
  failsOnly_error

/-- An operation in two parts fails as its parts do. -/
theorem FailsOnly.bind {x : Outcome α} {f : α → Outcome β} (hx : x.FailsOnly P)
    (hf : ∀ a, x = .ok a → (f a).FailsOnly P) : (x >>= f).FailsOnly P := by
  intro fault h
  rcases bind_error.1 h with h | ⟨a, ha, h⟩
  · exact hx fault h
  · exact hf a ha fault h

theorem FailsOnly.map {x : Outcome α} (hx : x.FailsOnly P) (f : α → β) :
    FailsOnly P (x.map f) :=
  fun fault h => hx fault (map_error.1 h)

end Outcome

end StoryWorld
