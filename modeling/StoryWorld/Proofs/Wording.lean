import StoryWorld.Path.Place

/-!
Outcomes that differ in the wording of their messages only.

The text of a path is looked at to cut it into segments, and is otherwise quoted in messages. So two
texts that are cut alike resolve alike: to the same place, or to refusals with the same code.
-/

namespace StoryWorld

/-- The cause of a failure without the message that comes with a refusal. -/
def Fault.unworded : Fault → Fault
  | refused code _ => refused code ""
  | fault => fault

namespace Outcome

variable {α β : Type} {x y : Outcome α}

theorem mapError_ok (f : Fault → Fault) (a : α) : Except.mapError f (.ok a) = .ok a := rfl

theorem mapError_error (f : Fault → Fault) (fault : Fault) :
    (.error fault : Outcome α).mapError f = .error (f fault) := rfl

/-- The same result, or failures that differ in their messages at most. -/
def Agree (x y : Outcome α) : Prop := x.mapError Fault.unworded = y.mapError Fault.unworded

theorem Agree.refl (x : Outcome α) : x.Agree x := Eq.refl _

theorem agree_refuse (code : Code) (m n : String) :
    (refuse code m : Outcome α).Agree (refuse code n) := Eq.refl _

theorem Agree.result (h : x.Agree y) (a : α) : x = .ok a ↔ y = .ok a := by
  cases x <;> cases y <;> simp_all [Agree, mapError_ok, mapError_error]

theorem unworded_refused {fault : Fault} {code : Code} :
    fault.unworded = .refused code "" ↔ ∃ message, fault = .refused code message := by
  cases fault <;> simp [Fault.unworded]

/-- A refusal with a code is one with that code in the other outcome. -/
theorem Agree.refused (h : x.Agree y) (code : Code) :
    (∃ message, x = .error (.refused code message)) ↔
      ∃ message, y = .error (.refused code message) := by
  have hcode : ∀ z : Outcome α, (∃ message, z = .error (.refused code message)) ↔
      z.mapError Fault.unworded = .error (.refused code "") := by
    intro z
    cases z with
    | ok a => simp [mapError_ok]
    | error fault => simp [mapError_error, unworded_refused]
  rw [hcode, hcode, h]

theorem Agree.bind {f g : α → Outcome β} (h : x.Agree y)
    (hfg : ∀ a, x = .ok a → (f a).Agree (g a)) : (x >>= f).Agree (y >>= g) := by
  cases x with
  | ok a =>
    obtain rfl := (h.result a).1 rfl
    exact hfg a rfl
  | error fault =>
    cases y with
    | ok b => cases (h.result b).2 rfl
    | error other => exact congrArg Except.error (Except.error.inj h)

end Outcome

open Outcome

namespace Locate

variable (p q : String)

theorem child_agree (v : Value) (name : String) : (child p v name).Agree (child q v name) := by
  cases v with
  | entity kind slots =>
    simp only [child]
    cases fieldStep? kind slots name with
    | some step => exact .refl _
    | none => exact agree_refuse _ _ _
  | mapping es =>
    simp only [child]
    split
    · exact .refl _
    · exact agree_refuse _ _ _
  | list xs =>
    simp only [child]
    cases xs.findIdx? (hasId name) with
    | some i => exact .refl _
    | none => exact agree_refuse _ _ _
  | _ => exact agree_refuse _ _ _

theorem access_agree (name : String) (v : Value) (accessor : Accessor) :
    (access p name v accessor).Agree (access q name v accessor) := by
  cases accessor with
  | key k => exact child_agree p q v k
  | position i =>
    cases v with
    | list xs =>
      simp only [access]
      split
      · exact .refl _
      · exact agree_refuse _ _ _
    | _ => exact agree_refuse _ _ _

theorem stepsOf_agree (v : Value) (segment : Segment) :
    (stepsOf p v segment).Agree (stepsOf q v segment) := by
  refine (child_agree p q v segment.name).bind ?_
  rintro first -
  cases segment.accessor with
  | none => exact .refl _
  | some accessor =>
    refine (Agree.refl _).bind ?_
    rintro value -
    refine (access_agree p q segment.name value accessor).bind ?_
    rintro second -
    exact .refl _

theorem stepsFrom_agree : ∀ (v : Value) (segments : List Segment),
    (stepsFrom p v segments).Agree (stepsFrom q v segments)
  | v, [] => .refl _
  | v, [segment] => stepsOf_agree p q v segment
  | v, segment :: next :: rest => by
    refine (stepsOf_agree p q v segment).bind ?_
    rintro steps -
    refine (Agree.refl _).bind ?_
    rintro w -
    refine (stepsFrom_agree w (next :: rest)).bind ?_
    rintro more -
    exact .refl _

theorem locate_agree (v : Value) (segments : List Segment) :
    (locate p v segments).Agree (locate q v segments) := by
  simp only [locate]
  split
  · exact agree_refuse _ _ _
  · exact stepsFrom_agree p q v segments

end Locate

namespace Segment

variable (p q : String)

theorem parse_agree (raw : List Char) : (parse raw p).Agree (parse raw q) := by
  simp only [parse]
  split
  · exact agree_refuse _ _ _
  · split
    · exact .refl _
    · rcases indexed? raw with _ | ⟨name, digits | quoted⟩
      · exact agree_refuse _ _ _
      · exact .refl _
      · exact .refl _

theorem parseAll_agree : ∀ raws : List (List Char), (parseAll p raws).Agree (parseAll q raws)
  | [] => .refl _
  | raw :: raws => by
    refine (parse_agree p q raw).bind ?_
    rintro segment -
    refine (parseAll_agree raws).bind ?_
    rintro segments -
    exact .refl _

end Segment

/-- Two texts that are cut into the same parts resolve alike. -/
theorem Place.resolve_agree (story : Story) {p q : String}
    (h : Segment.split p.toList = Segment.split q.toList) :
    (resolve story p).Agree (resolve story q) := by
  simp only [resolve, h]
  split
  · split
    · exact agree_refuse _ _ _
    · refine (Segment.parseAll_agree p q _).bind ?_
      rintro segments -
      refine (Locate.locate_agree p q _ segments).bind ?_
      rintro steps -
      split
      · exact .refl _
      · exact agree_refuse _ _ _
  · exact agree_refuse _ _ _

end StoryWorld
