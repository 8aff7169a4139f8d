import StoryWorld.Proofs.Refusals
import StoryWorld.Proofs.Roles

/-!
Blanks around a path that starts from a role.

Resolving trims a path, but the role is looked for in the text as it is. Blanks behind such a path
make no difference, since what is written out for it is trimmed in its turn. Blanks before it hide
the role, so that the path is not written out, and its root is unknown.
-/

namespace StoryWorld

open Outcome

/-! ### Roots that are known -/

/-- Whether an outcome is no complaint about an unknown root. -/
abbrev Outcome.Rooted {α : Type} (x : Outcome α) : Prop :=
  x.FailsOnly fun fault => ∀ message, fault ≠ .refused .unknownRoot message

theorem Outcome.Unrefused.rooted {α : Type} {x : Outcome α} (h : x.Unrefused) : x.Rooted :=
  fun fault hx => h fault hx .unknownRoot

namespace Segment

theorem rooted_parse (raw : List Char) (path : String) : (parse raw path).Rooted := by
  simp only [parse]
  split
  · simp
  · split
    · simp
    · rcases indexed? raw with _ | ⟨name, digits | quoted⟩
      · simp
      · simp only
        split <;> simp
      · simp

theorem rooted_parseAll (path : String) : ∀ raws, (parseAll path raws).Rooted
  | [] => failsOnly_ok _
  | raw :: raws => .bind (rooted_parse raw path) fun _ _ =>
      .bind (rooted_parseAll path raws) fun _ _ => failsOnly_ok _

end Segment

namespace Locate

theorem rooted_child (path : String) (v : Value) (name : String) : (child path v name).Rooted := by
  cases v <;> simp only [child] <;> first | split <;> simp | simp

theorem rooted_stepsOf (path : String) (v : Value) (segment : Segment) :
    (stepsOf path v segment).Rooted := by
  refine .bind (rooted_child path v segment.name) fun first _ => ?_
  cases segment.accessor with
  | none => exact failsOnly_ok _
  | some accessor =>
    refine .bind (Value.unrefused_read v first).rooted fun value _ =>
      .bind ?_ fun _ _ => failsOnly_ok _
    cases accessor with
    | key k => exact rooted_child path value k
    | position i =>
      simp only [access]
      split
      · split <;> simp
      · simp

theorem rooted_stepsFrom (path : String) : ∀ v segments, (stepsFrom path v segments).Rooted
  | _, [] => failsOnly_ok _
  | v, [segment] => rooted_stepsOf path v segment
  | v, segment :: next :: rest => .bind (rooted_stepsOf path v segment) fun steps _ =>
      .bind (Value.unrefused_follow v steps).rooted fun w _ =>
        .bind (rooted_stepsFrom path w (next :: rest)) fun _ _ => failsOnly_ok _

theorem rooted_locate (path : String) (v : Value) (segments : List Segment) :
    (locate path v segments).Rooted := by
  simp only [locate]
  split
  · simp
  · exact rooted_stepsFrom path v segments

end Locate

/-- A path whose first part is a root is never refused for its root. -/
theorem Place.rooted_resolve (story : Story) {path : String} {root : Root}
    {parts : List (List Char)} (h : Segment.split path.toList = root.name.toList :: parts) :
    (resolve story path).Rooted := by
  simp only [resolve, h]
  split
  · next first second rest heq =>
    obtain rfl := (List.cons.inj heq).1
    simp only [String.ofList_toList, Root.ofName?_name]
    refine .bind (Segment.rooted_parseAll path _) fun segments _ =>
      .bind (Locate.rooted_locate path _ segments) fun steps _ => ?_
    split <;> simp
  · simp

/-! ### Blanks -/

namespace Role

variable {bindings : Bindings} {role : Role} {id path : String} {rest : List Char}

/-- Whether a path starts with a blank. -/
def startsBlank (path : String) : Bool := path.toList.head?.any Text.isBlank

/-- What is written out is cut into the same parts with blanks behind it and without. -/
theorem split_expand (hbound : role.id? bindings = some id) (rest : List Char) :
    Segment.split (bindings.expand (role.path rest)).toList = role.root.name.toList ::
      (Text.splitAt '.' id.toList ++ Text.splitAt '.' (Text.trimRight rest)) := by
  rw [expand_bound hbound, Place.split_spliced]

/-- A path from a role that starts with no blank has the role in front as it is. -/
theorem exists_path (hstart : startsBlank path = false)
    (htrim : Text.trim path.toList = (role.path rest).toList) :
    ∃ more, path = role.path more ∧ Text.trimRight more = rest := by
  have hleft : Text.trimLeft path.toList = path.toList := by
    rw [startsBlank] at hstart
    cases hpath : path.toList with
    | nil => rfl
    | cons c s =>
      rw [hpath] at hstart
      exact Text.trimLeft_cons (by simpa using hstart) s
  rw [Text.trim, hleft, Role.path, String.toList_ofList] at htrim
  obtain ⟨blanks, hblanks⟩ := Text.exists_trimRight path.toList
  rw [htrim, List.append_assoc, List.cons_append] at hblanks
  refine ⟨rest ++ blanks, ?_, ?_⟩
  · rw [Role.path, ← hblanks, String.ofList_toList]
  · rw [hblanks, Text.trimRight_append (by decide)] at htrim
    simpa using htrim

/-- No role is found behind a blank. -/
theorem expand_of_blank (hstart : startsBlank path = true) : bindings.expand path = path := by
  have hafter : ∀ role : Role, Bindings.after? role.name path = none := by
    intro role
    rw [startsBlank] at hstart
    rw [Bindings.after?]
    cases hpath : path.toList with
    | nil => cases role <;> rfl
    | cons c s =>
      rw [hpath, List.head?_cons, Option.any_some] at hstart
      refine if_neg fun hstarts => ?_
      have hrole : ∃ d t, role.name.toList ++ ['.'] = d :: t ∧ Text.isBlank d = false := by
        cases role <;> exact ⟨_, _, rfl, by decide⟩
      obtain ⟨d, t, hname, hd⟩ := hrole
      rw [hname, List.isPrefixOf_iff_prefix, List.cons_prefix_cons] at hstarts
      rw [hstarts.1, hstart] at hd
      cases hd
  have hactor := hafter actor
  have htarget := hafter target
  have htie := hafter relationship
  simp_all [Bindings.expand, name]

theorem resolve_of_blank (story : Story) (hstart : startsBlank path = true)
    (htrim : Text.trim path.toList = (role.path rest).toList) :
    Place.resolve story (bindings.expand path) =
      refuse .unknownRoot ("Unknown root '" ++ role.name ++ "' in path: " ++ path) := by
  have hsplit : Segment.split path.toList =
      role.name.toList :: Text.splitAt '.' rest := by
    have hrole : '.' ∉ role.name.toList := by cases role <;> decide
    rw [Segment.split, htrim, Role.path, String.toList_ofList, Text.splitAt_append hrole]
  obtain ⟨raw, raws, hraws⟩ := List.exists_cons_of_ne_nil (Text.splitAt_ne_nil '.' rest)
  have hroot : Root.ofName? role.name = none := by cases role <;> decide
  rw [expand_of_blank hstart, Place.resolve, hsplit, hraws]
  simp only [String.ofList_toList, hroot]

/-- Of a path that starts, blanks aside, from a bound role: with blanks around it comes to the same
place or to a refusal with the same code as without them just if it starts with none, and just if it
starts with one its root is unknown. Blanks behind it make no difference. -/
theorem resolve_padded_iff (story : Story) (hbound : role.id? bindings = some id)
    (htrim : Text.trim path.toList = (role.path rest).toList) :
    ((Place.resolve story (bindings.expand path)).Agree
        (Place.resolve story (bindings.expand (role.path rest))) ↔ startsBlank path = false) ∧
      ((∃ message, Place.resolve story (bindings.expand path) =
        .error (.refused .unknownRoot message)) ↔ startsBlank path = true) := by
  have hwritten := split_expand hbound
  have hrooted : ∀ more, ¬ ∃ message, Place.resolve story (bindings.expand (role.path more)) =
      .error (.refused .unknownRoot message) := by
    rintro more ⟨message, hm⟩
    exact Place.rooted_resolve story (hwritten more) _ hm message rfl
  cases hstart : startsBlank path with
  | false =>
    obtain ⟨more, rfl, rfl⟩ := exists_path hstart htrim
    refine ⟨iff_of_true (Place.resolve_agree story ?_) rfl, iff_of_false (hrooted more) (by simp)⟩
    rw [hwritten, hwritten, Text.trimRight_trimRight]
  | true =>
    have hblank : ∃ message, Place.resolve story (bindings.expand path) =
        .error (.refused .unknownRoot message) := ⟨_, resolve_of_blank story hstart htrim⟩
    refine ⟨iff_of_false (fun hagree => ?_) (by simp), iff_of_true hblank rfl⟩
    exact hrooted rest ((hagree.refused .unknownRoot).1 hblank)

/-- A path to a number of the actor, with blanks behind it. -/
theorem resolve_padded_behind : ∃ story place, Story.read Context.pairDocument = .ok story ∧
    Place.resolve story ((⟨some "a", none, none⟩ : Bindings).expand "actor.stats.wit \n") =
      .ok place ∧
    Place.resolve story ((⟨some "a", none, none⟩ : Bindings).expand "actor.stats.wit") =
      .ok place := by
  obtain ⟨story, hread, hplace⟩ := Story.exists_read Context.pairDocument (fun story =>
    Place.resolve story ((⟨some "a", none, none⟩ : Bindings).expand "actor.stats.wit") =
      .ok (.under .characters 0 [.slot (.field "stats"), .key "wit"])) (by decide +kernel)
  have hbound : actor.id? ⟨some "a", none, none⟩ = some "a" := rfl
  have htrim : Text.trim "actor.stats.wit \n".toList = (actor.path "stats.wit".toList).toList := by
    decide +kernel
  obtain ⟨hagree, -⟩ := resolve_padded_iff story hbound htrim
  exact ⟨story, _, hread, ((hagree.2 (by decide +kernel)).result _).2 hplace, hplace⟩

/-- With a blank before it the same path leads nowhere. -/
theorem resolve_padded_before : ∃ story, Story.read Context.pairDocument = .ok story ∧
    Place.resolve story ((⟨some "a", none, none⟩ : Bindings).expand " actor.stats.wit") =
      refuse .unknownRoot "Unknown root 'actor' in path:  actor.stats.wit" ∧
    Place.resolve story ((⟨some "a", none, none⟩ : Bindings).expand "actor.stats.wit") =
      .ok (.under .characters 0 [.slot (.field "stats"), .key "wit"]) :=
  Story.exists_read Context.pairDocument (fun story =>
    Place.resolve story ((⟨some "a", none, none⟩ : Bindings).expand " actor.stats.wit") =
      refuse .unknownRoot "Unknown root 'actor' in path:  actor.stats.wit" ∧
    Place.resolve story ((⟨some "a", none, none⟩ : Bindings).expand "actor.stats.wit") =
      .ok (.under .characters 0 [.slot (.field "stats"), .key "wit"])) (by decide +kernel)

end Role

end StoryWorld
