import StoryWorld.Proofs.Loosened

/-!
Documents with prose around them.

Prose has no brackets, quotes or marks of a code fence. So what is left of it after the cleaning
holds neither the first opening nor the last closing bracket, and the span between the two is the
document. The text as a whole is no other document: the first character of one that is not prose
would have to be that bracket too.
-/

namespace StoryWorld.Json

variable {dialect : Dialect} {depth : Nat} {v : Value} {s t before after rest : List Char}

/-! ### Prose and brackets -/

/-- The characters that set documents apart from prose. -/
def isMark (c : Char) : Bool :=
  c == '[' || c == ']' || c == '\x7b' || c == '\x7d' || c == '\x22' || c == '\x60'

theorem isMark_iff {c : Char} : isMark c = true ↔
    c = '[' ∨ c = ']' ∨ c = '\x7b' ∨ c = '\x7d' ∨ c = '\x22' ∨ c = '\x60' := by
  simp [isMark, or_assoc]

/-- A text without any of these characters. -/
def Prose (s : List Char) : Prop := ∀ c ∈ s, isMark c = false

theorem Prose.not_mem {c : Char} (hs : Prose s) (hc : isMark c = true) : c ∉ s := by
  intro hmem
  rw [hs c hmem] at hc
  cases hc

theorem Prose.append (hs : Prose s) (ht : Prose t) : Prose (s ++ t) :=
  List.forall_mem_append.2 ⟨hs, ht⟩

theorem Prose.of_subset (hs : Prose s) (hsub : t ⊆ s) : Prose t := fun c hc => hs c (hsub hc)

theorem Prose.reverse (hs : Prose s) : Prose s.reverse :=
  hs.of_subset (List.reverse_subset.2 (List.Subset.refl s))

theorem Prose.trimLeft (hs : Prose s) : Prose (Text.trimLeft s) :=
  hs.of_subset (List.dropWhile_sublist _).subset

theorem Prose.trimRight (hs : Prose s) : Prose (Text.trimRight s) :=
  (hs.reverse.of_subset (List.dropWhile_sublist _).subset).reverse

theorem prose_of_blank (h : Blank s) : Prose s := by
  intro c hc
  rcases isBlank_iff.1 (h c hc) with rfl | rfl | rfl | rfl <;> rfl

theorem prose_of_numeric (h : ∀ c ∈ s, isNumeric c = true) : Prose s := by
  intro c hc
  by_contra hmark
  have hnumeric := h c hc
  rcases isMark_iff.1 (by simpa using hmark) with rfl | rfl | rfl | rfl | rfl | rfl <;>
    cases hnumeric

/-- The brackets of the two kinds of container. -/
inductive Brackets : Char → Char → Prop
  | list : Brackets '[' ']'
  | mapping : Brackets '\x7b' '\x7d'

namespace Brackets

variable {o c : Char}

theorem isMark (h : Brackets o c) : isMark o = true ∧ isMark c = true := by
  cases h <;> decide

theorem starts (h : Brackets o c) : starts o = true := by
  cases h <;> decide

theorem not_isBlank (h : Brackets o c) : Text.isBlank o = false ∧ Text.isBlank c = false := by
  cases h <;> decide

end Brackets

/-- Lists and objects. -/
def isContainer : Value → Bool
  | .list _ => true
  | .mapping _ => true
  | _ => false

theorem brackets_of_spellsValue (h : Spells dialect depth (.value v) s)
    (hv : isContainer v = true) : ∃ o c m, Brackets o c ∧ s = o :: (m ++ [c]) := by
  cases h with
  | nil _ => exact ⟨_, _, _, .list, rfl⟩
  | list _ => exact ⟨_, _, _, .list, rfl⟩
  | empty _ => exact ⟨_, _, _, .mapping, rfl⟩
  | mapping _ => exact ⟨_, _, _, .mapping, rfl⟩
  | _ => cases hv

theorem brackets_of_loosened (h : Loosened dialect depth (.value v) s t)
    (hv : isContainer v = true) : ∃ o c m, Brackets o c ∧ t = o :: (m ++ [c]) := by
  cases h with
  | value h => exact brackets_of_spellsValue h hv
  | list _ _ => exact ⟨_, _, _, .list, rfl⟩
  | mapping _ _ => exact ⟨_, _, _, .mapping, rfl⟩

/-! ### Spans -/

theorem findIdx?_eq_none {c : Char} (h : c ∉ s) : s.findIdx? (· == c) = none := by
  rw [List.findIdx?_eq_none_iff]
  intro d hd
  rw [beq_eq_false_iff_ne]
  rintro rfl
  exact h hd

theorem findIdx?_append_cons {c : Char} (h : c ∉ s) (rest : List Char) :
    (s ++ c :: rest).findIdx? (· == c) = some s.length := by
  rw [List.findIdx?_append, findIdx?_eq_none h, List.findIdx?_cons]
  simp

theorem span?_eq {o c : Char} (ho : o ∉ before) (hc : c ∉ after) (m : List Char) :
    span? o c (before ++ o :: (m ++ c :: after)) =
      some (before.length, before.length + m.length + 1) := by
  have hlast : (before ++ o :: (m ++ c :: after)).reverse.findIdx? (· == c) =
      some after.length := by
    have hreverse : (before ++ o :: (m ++ c :: after)).reverse =
        after.reverse ++ c :: (before ++ o :: m).reverse := by simp
    rw [hreverse, findIdx?_append_cons (by simpa using hc), List.length_reverse]
  rw [span?, findIdx?_append_cons ho, hlast]
  simp
  omega

/-- A span that opens with another character starts later. -/
theorem span?_later {o c d : Char} (ho : o ∉ before) (hd : d ≠ o) {span : Nat × Nat}
    (h : span? o c (before ++ d :: rest) = some span) : before.length < span.1 := by
  rw [span?, List.findIdx?_append, findIdx?_eq_none ho, List.findIdx?_cons,
    if_neg (by simpa using hd)] at h
  simp only at h
  split at h
  · next first back hfirst hback =>
    split at h
    · cases h
      simp only [Option.none_or, Option.map_eq_some_iff] at hfirst
      obtain ⟨_, ⟨i, -, rfl⟩, rfl⟩ := hfirst
      show before.length < i + 1 + before.length
      omega
    · cases h
  · cases h

/-- The brackets that stand out from prose enclose the span. -/
theorem outermost?_eq {o c : Char} (hoc : Brackets o c) (hb : Prose before) (ha : Prose after)
    (m : List Char) :
    outermost? (before ++ o :: (m ++ c :: after)) = some (o :: (m ++ [c])) := by
  have hcut : ((before ++ o :: (m ++ c :: after)).drop before.length).take
      (before.length + m.length + 1 + 1 - before.length) = o :: (m ++ [c]) := by
    have hsplit : o :: (m ++ c :: after) = (o :: (m ++ [c])) ++ after := by simp
    rw [List.drop_left, hsplit]
    refine List.take_left' ?_
    simp
    omega
  cases hoc with
  | list =>
    have hspan := span?_eq (hb.not_mem (c := '[') rfl) (ha.not_mem (c := ']') rfl) m
    rw [outermost?, hspan]
    cases hother : span? '\x7b' '\x7d' (before ++ '[' :: (m ++ ']' :: after)) with
    | none => exact congrArg some hcut
    | some span =>
      have hlater := span?_later (hb.not_mem (c := '\x7b') rfl) (by decide) hother
      simp only [if_pos hlater]
      exact congrArg some hcut
  | mapping =>
    have hspan := span?_eq (hb.not_mem (c := '\x7b') rfl) (ha.not_mem (c := '\x7d') rfl) m
    rw [outermost?, hspan]
    cases hother : span? '[' ']' (before ++ '\x7b' :: (m ++ '\x7d' :: after)) with
    | none => exact congrArg some hcut
    | some span =>
      have hlater := span?_later (hb.not_mem (c := '[') rfl) (by decide) hother
      simp only [if_neg (Nat.lt_asymm hlater)]
      exact congrArg some hcut

/-! ### Documents among prose -/

/-- The first character that is no prose comes after all the prose before it. -/
theorem append_cons_inj {s t s' t' : List Char} {c d : Char} (h : s ++ c :: t = s' ++ d :: t')
    (hs : Prose s) (hs' : Prose s') (hc : isMark c = true) (hd : isMark d = true) :
    s = s' ∧ c :: t = d :: t' := by
  have hrun : ∀ {s : List Char}, Prose s → ∀ x ∈ s, (!isMark x) = true := by
    intro s hs x hx
    rw [hs x hx, Bool.not_false]
  have hstop : ∀ {c : Char} {t : List Char}, isMark c = true →
      Stops (fun x => !isMark x) (c :: t) := by
    rintro c t hc _ ⟨⟩
    simp [hc]
  have hbefore : s = s' := by
    rw [← takeWhile_run (hrun hs) (hstop (t := t) hc), h]
    exact takeWhile_run (hrun hs') (hstop hd)
  subst hbefore
  exact ⟨rfl, List.append_cancel_left h⟩

theorem read?_of_spells (h : Spells stored stored.maxDepth (.value v) s) :
    read? stored s = some v := by
  have hpadded := Spells.padded blank_nil h blank_nil
  rw [List.nil_append, List.append_nil] at hpadded
  exact read?_iff.2 hpadded

/-- What stands out from prose on both sides is fixed. -/
theorem enclosed_inj {m m' before' after' : List Char} {o c o' c' : Char}
    (h : before ++ o :: (m ++ c :: after) = before' ++ o' :: (m' ++ c' :: after'))
    (hb : Prose before) (ha : Prose after) (hb' : Prose before') (ha' : Prose after')
    (ho : isMark o = true) (hc : isMark c = true) (ho' : isMark o' = true)
    (hc' : isMark c' = true) :
    o :: (m ++ [c]) = o' :: (m' ++ [c']) := by
  have hinner := (append_cons_inj h hb hb' ho ho').2
  have hback : after.reverse ++ c :: (o :: m).reverse =
      after'.reverse ++ c' :: (o' :: m').reverse := by
    simpa using congrArg List.reverse hinner
  have hlast := (append_cons_inj hback ha.reverse ha'.reverse hc hc').2
  simpa using congrArg List.reverse hlast

theorem shape_of_spellsValue (h : Spells dialect depth (.value v) s) :
    Prose s ∨ ∃ o m c, s = o :: (m ++ [c]) ∧ isMark o = true ∧ isMark c = true := by
  cases h with
  | null => exact .inl (by simp [Prose, isMark])
  | true => exact .inl (by simp [Prose, isMark])
  | false => exact .inl (by simp [Prose, isMark])
  | number h _ => exact .inl (prose_of_numeric (numeric_of_spellsNumeral h))
  | text h =>
    obtain ⟨-⟩ := h
    exact .inr ⟨_, _, _, rfl, by decide, by decide⟩
  | _ => exact .inr ⟨_, _, _, rfl, by decide, by decide⟩

/-- Between prose a container is the only document that can be read. -/
theorem eq_of_read?_enclosed {u : Value} {o c : Char} {m : List Char} (hoc : Brackets o c)
    (h : Spells stored stored.maxDepth (.value v) (o :: (m ++ [c]))) (hb : Prose before)
    (ha : Prose after) (hread : read? stored (before ++ o :: (m ++ c :: after)) = some u) :
    u = v := by
  obtain ⟨before', t, after', hsplit, hb', ht, ha'⟩ : ∃ before' t after',
      before ++ o :: (m ++ c :: after) = before' ++ t ++ after' ∧ Blank before' ∧
        Spells stored stored.maxDepth (.value u) t ∧ Blank after' := by
    generalize before ++ o :: (m ++ c :: after) = text at hread
    cases read?_iff.1 hread with
    | padded hb' ht ha' => exact ⟨_, _, _, rfl, hb', ht, ha'⟩
  rcases shape_of_spellsValue ht with hprose | ⟨o', m', c', rfl, ho', hc'⟩
  · -- Prose throughout has no bracket.
    have hall := ((prose_of_blank hb').append hprose).append (prose_of_blank ha')
    rw [← hsplit] at hall
    exact absurd (List.mem_append_right _ List.mem_cons_self) (hall.not_mem hoc.isMark.1)
  · rw [List.append_assoc, List.cons_append, List.append_assoc, List.singleton_append] at hsplit
    have hsame := enclosed_inj hsplit hb ha (prose_of_blank hb') (prose_of_blank ha')
      hoc.isMark.1 hoc.isMark.2 ho' hc'
    rw [← hsame] at ht
    exact Option.some.inj ((read?_of_spells ht).symm.trans (read?_of_spells h))

/-! ### Cleaned prose -/

theorem prose_cleared (h : Prose s) : Prose (cleared s) := by
  intro c hc
  rcases mem_unifyLineEnds (List.mem_filter.1 hc).1 with rfl | hmem
  · rfl
  · exact h c hmem

theorem closesNext_of_prose (h : Prose s) : closesNext s = false := by
  unfold closesNext
  split
  · next c rest heq =>
    have hmem : c ∈ s := (List.dropWhile_sublist _).subset (heq ▸ List.mem_cons_self)
    have hmark := h c hmem
    simp only [isMark, Bool.or_eq_false_iff] at hmark
    simp [hmark]
  · rfl

theorem not_hasTrailingComma_of_prose (h : Prose s) : ¬ HasTrailingComma s := by
  rintro ⟨start, rest, rfl, hrest⟩
  have hafter : Prose rest := h.of_subset fun c hc =>
    List.mem_append_right _ (List.mem_cons_of_mem _ hc)
  rw [closesNext_of_prose hafter] at hrest
  cases hrest

theorem sanitize_prose (h : Prose s) : sanitize s = cleared s :=
  dropTrailingCommas_eq (not_hasTrailingComma_of_prose (prose_cleared h))

theorem sanitize_prose_append {o c : Char} (hoc : Brackets o c) (h : Prose s)
    (rest : List Char) : sanitize (s ++ o :: rest) = cleared s ++ sanitize (o :: rest) := by
  rw [sanitize_eq, cleared_append (ne_feed_of_starts hoc.starts),
    cleared_cons (visible_of_starts hoc.starts), dropTrailingCommas_append, sanitize_eq,
    cleared_cons (visible_of_starts hoc.starts)]
  intro hdangles
  exact not_hasTrailingComma_of_prose (prose_cleared h)
    (hasTrailingComma_of_dangles hoc.starts hdangles)

/-! ### Payloads -/

/-- Prose does not start a code fence, and neither does a container. -/
theorem not_fence_isPrefixOf {o c : Char} (hoc : Brackets o c) (h : Prose s) (rest : List Char) :
    fence.isPrefixOf (s ++ o :: rest) = false := by
  cases s with
  | nil => cases hoc <;> rfl
  | cons d s =>
    have hd : d ≠ '\x60' := by
      rintro rfl
      exact h.not_mem rfl List.mem_cons_self
    simp [fence, List.isPrefixOf, Ne.symm hd]

theorem unfence_enclosed {o c : Char} (hoc : Brackets o c) (hb : Prose before)
    (m after : List Char) :
    Text.trim (before ++ o :: (m ++ c :: after)) =
        Text.trimLeft before ++ o :: (m ++ c :: Text.trimRight after) ∧
      unfence (before ++ o :: (m ++ c :: after)) =
        Text.trimLeft before ++ o :: (m ++ c :: Text.trimRight after) := by
  have htrim : Text.trim (before ++ o :: (m ++ c :: after)) =
      Text.trimLeft before ++ o :: (m ++ c :: Text.trimRight after) := by
    have hsides := Text.trim_append ⟨o, m ++ [c], rfl, hoc.not_isBlank.1⟩
      ⟨o :: m, c, rfl, hoc.not_isBlank.2⟩ before after
    simpa using hsides
  refine ⟨htrim, ?_⟩
  rw [unfence, htrim, not_fence_isPrefixOf hoc hb.trimLeft]
  rfl

/-- The document is the whole of what is read, or the span that stands out of it. -/
theorem load_enclosed {o c : Char} {m text : List Char} (hoc : Brackets o c)
    (h : Spells stored stored.maxDepth (.value v) (o :: (m ++ [c]))) (hb : Prose before)
    (ha : Prose after) (hempty : (Text.trim text).isEmpty = false)
    (hclean : sanitize (unfence text) = before ++ o :: (m ++ c :: after)) : load text = .ok v := by
  rw [load, hempty, if_neg Bool.false_ne_true]
  simp only [hclean]
  cases hread : read? stored (before ++ o :: (m ++ c :: after)) with
  | some u => rw [eq_of_read?_enclosed hoc h hb ha hread]
  | none => simp only [outermost?_eq hoc hb ha, Option.bind_some, read?_of_spells h]

/-- A document, and its text with commas too many. -/
def Loosens (p p' : List Char) : Prop := ∃ v, Loosened stored stored.maxDepth (.padded v) p p'

/-- A list or an object is read out of the prose around it, with commas too many in it or not, if no
text in it has a comma before a closing bracket. -/
theorem load_payload {p p' : List Char} (hread : read? stored p = some v)
    (hv : isContainer v = true) (htame : Tame p) (hloosens : Loosens p p') (hb : Prose before)
    (ha : Prose after) : load (before ++ p' ++ after) = .ok v := by
  obtain ⟨w, hloosened⟩ := hloosens
  obtain rfl : w = v :=
    Option.some.inj ((read?_iff.2 (spells_of_loosened hloosened)).symm.trans hread)
  cases hloosened with
  | @padded _ _ s t b a hblank h hblank' =>
    have hvalue := tame_padded hblank (closed_of_spells (spells_of_loosened h)) htame
    obtain ⟨u, hu, hclean⟩ := cleanable_of_loosened h hvalue
    obtain ⟨o, c, m, hoc, rfl⟩ := brackets_of_spellsValue hu hv
    obtain ⟨o', c', m', hoc', rfl⟩ := brackets_of_loosened h hv
    have hb' : Prose (before ++ b) := hb.append (prose_of_blank hblank)
    have ha' : Prose (a ++ after) := (prose_of_blank hblank').append ha
    have htext : before ++ (b ++ o' :: (m' ++ [c']) ++ a) ++ after =
        before ++ b ++ o' :: (m' ++ c' :: (a ++ after)) := by simp
    obtain ⟨htrim, hunfence⟩ := unfence_enclosed hoc' hb' m' (a ++ after)
    rw [htext]
    refine load_enclosed hoc hu (prose_cleared hb'.trimLeft)
      (prose_cleared ha'.trimRight) (by rw [htrim]; simp) ?_
    have hpayload := hclean (Text.trimRight (a ++ after))
    rw [List.cons_append, List.append_assoc, List.singleton_append,
      sanitize_prose ha'.trimRight] at hpayload
    rw [hunfence, sanitize_prose_append hoc' hb'.trimLeft, hpayload]
    simp

/-- Both commas are taken out, the one of the list and the one of the object. -/
theorem load_payload_nested :
    load (['S', 'o', ':', ' '] ++
      ['\x7b', '\x22', 'a', '\x22', ':', '[', 't', 'r', 'u', 'e', ',', ' ', ']', '\n', ',',
        '\x7d'] ++ ['.']) = .ok (.mapping [("a", .list [.bool true])]) := by
  have hkey : SpellsText "a" ['\x22', 'a', '\x22'] :=
    .intro (.cons (.plain (by decide) (by decide) (by decide)) .nil)
  have hitems : Loosened stored 1022 (.items [.bool true]) ['t', 'r', 'u', 'e']
      ['t', 'r', 'u', 'e'] :=
    .item (.padded blank_nil (.value .true) blank_nil)
  have hspace : Blank [' '] := by simp [Blank, isBlank]
  have hfeed : Blank ['\n'] := by simp [Blank, isBlank]
  have hlist : Loosened stored 1023 (.padded (.list [.bool true]))
      ['[', 't', 'r', 'u', 'e', ']'] ['[', 't', 'r', 'u', 'e', ',', ' ', ']'] :=
    .padded blank_nil (.list hitems (.comma blank_nil hspace blank_nil)) blank_nil
  have hmembers : Loosened stored 1023 (.members [("a", .list [.bool true])])
      ['\x22', 'a', '\x22', ':', '[', 't', 'r', 'u', 'e', ']']
      ['\x22', 'a', '\x22', ':', '[', 't', 'r', 'u', 'e', ',', ' ', ']'] :=
    .single (.member blank_nil hkey blank_nil hlist)
  have hmapping := Loosened.mapping hmembers (.comma hfeed blank_nil blank_nil)
  exact load_payload (by rfl) rfl (by decide) ⟨_, .padded blank_nil hmapping blank_nil⟩
    (by simp [Prose, isMark]) (by simp [Prose, isMark])

end StoryWorld.Json
