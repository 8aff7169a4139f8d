import StoryWorld.Proofs.Accessors
import StoryWorld.Proofs.Frame
import StoryWorld.Proofs.Ordered
import StoryWorld.Proofs.Roles

/-!
Keys in quotes.

Where a path leads to a mapping, an accessor with a key in quotes behind it leads to the place of
that key, whatever the key is, so long as it does not hold the quote and no point is in it. A path
is cut at its points before its accessors are looked at, so a point inside the quotes ends the
segment, and what is left of it is malformed.
-/

namespace StoryWorld

/-! ### Cutting a path at its end -/

/-- Where the last character is no blank, nothing is trimmed behind a point. -/
theorem Text.trim_behind (s : List Char) {t : List Char}
    (hlast : ∃ u c, t = u ++ [c] ∧ isBlank c = false) :
    trim (s ++ '.' :: t) = trimLeft s ++ '.' :: t := by
  obtain ⟨u, c, rfl, hc⟩ := hlast
  have hpoint : isBlank '.' = false := by decide
  rw [trim, trimLeft_append hpoint, trimRight_append hpoint, trimRight_append hc]
  rfl

namespace Segment

variable {s : List Char} {path : String}

theorem split_behind (s : List Char) {t : List Char}
    (hlast : ∃ u c, t = u ++ [c] ∧ Text.isBlank c = false) :
    split (s ++ '.' :: t) = Text.splitAt '.' (Text.trimLeft s) ++ Text.splitAt '.' t := by
  rw [split, Text.trim_behind s hlast, Text.splitAt_separator]

/-- The parts of a path are read one after the other. -/
theorem parseAll_append (path : String) (before after : List (List Char)) :
    parseAll path (before ++ after) = do
      let segments ← parseAll path before
      let more ← parseAll path after
      return segments ++ more := by
  induction before with
  | nil =>
    show parseAll path after = parseAll path after >>= pure
    rw [bind_pure]
  | cons raw before ih =>
    rw [List.cons_append, parseAll, parseAll, ih]
    simp only [bind_assoc, pure_bind, List.cons_append]

namespace IsIdentifier

theorem not_point (h : IsIdentifier s) : '.' ∉ s := by
  intro hmem
  exact absurd (h.continues hmem) (by decide)

theorem plain (h : IsIdentifier s) : ∀ c ∈ s, isBracket c = false := by
  intro c hc
  rw [Bool.eq_false_iff]
  intro hbracket
  have hcontinues := h.continues hc
  rcases (by simpa [isBracket] using hbracket : c = '[' ∨ c = ']') with rfl | rfl <;>
    exact absurd hcontinues (by decide)

theorem ne_nil (h : IsIdentifier s) : s ≠ [] := by
  obtain ⟨c, rest, rfl, -⟩ := h
  exact List.cons_ne_nil c rest

theorem exists_last (h : IsIdentifier s) : ∃ u c, s = u ++ [c] ∧ Text.isBlank c = false := by
  have hlast := h.continues (List.getLast_mem h.ne_nil)
  exact ⟨_, _, (List.dropLast_append_getLast h.ne_nil).symm, not_isBlank_of_continues hlast⟩

end IsIdentifier

/-- A key in quotes, as it is written behind the name of a mapping. -/
def quotedKey (quote : Char) (k : String) : String :=
  String.ofList ('[' :: quote :: (k.toList ++ [quote, ']']))

variable {quote : Char} {k : List Char}

theorem parse_quoted (h : IsIdentifier s) (hquote : quote = '\x22' ∨ quote = '\x27')
    (hfree : quote ∉ k) (path : String) : parse (s ++ '[' :: quote :: (k ++ [quote, ']'])) path =
      .ok ⟨String.ofList s, some (.key (String.ofList k))⟩ := by
  have haccessed : Accessed s (.quoted k) (s ++ '[' :: (quote :: (k ++ [quote]) ++ [']'])) :=
    .intro h (.quoted hquote hfree)
  rw [List.cons_append, List.append_assoc] at haccessed
  exact parse_of_denotes (.key haccessed) path

/-- A key that is cut off is malformed. -/
theorem parse_unquoted (h : IsIdentifier s) (hquote : quote = '\x22' ∨ quote = '\x27')
    (hfree : quote ∉ k) (path : String) :
    ∃ message, parse (s ++ '[' :: quote :: k) path = refuse .malformedPath message := by
  have hany : (s ++ '[' :: quote :: k).any isBracket = true := by simp [isBracket]
  have hnone : index? (quote :: k) = none := by
    cases hindex : index? (quote :: k) with
    | none => rfl
    | some index =>
      obtain ⟨t, tail, -, -, rfl, -⟩ := (index?_quote hquote k).1 hindex
      exact absurd (by simp) hfree
  exact ⟨_, by rw [parse_of_isBracket hany, indexed?_bracket h, hnone]; rfl⟩

end Segment

/-! ### The place of a key -/

namespace Locate

variable {path : String} {v : Value} {segments : List Segment} {steps : List Step} {name k : String}
  {es : List (String × Value)}

/-- A key of the mapping that segments lead to is one step further. -/
theorem locate_key (hlocate : locate path v (segments ++ [⟨name, none⟩]) = .ok steps)
    (hfollow : v.follow steps = .ok (.mapping es)) (hk : k ∈ Table.keys es) :
    locate path v (segments ++ [⟨name, some (.key k)⟩]) = .ok (steps ++ [.key k]) := by
  have hleads := (locate_ok.1 hlocate).2
  simp only [List.flatMap_append, List.flatMap_singleton, lookups] at hleads
  have hfind : find path (.mapping es) (.inside name (.key k)) = .ok (.key k) := by
    simp [find, access, child, Table.has_iff_mem.2 hk]
  refine locate_ok.2 ⟨by simp, ?_⟩
  simp only [List.flatMap_append, List.flatMap_singleton, lookups]
  rw [show [Lookup.name name, .inside name (.key k)] = [.name name] ++ [.inside name (.key k)] from
    rfl, ← List.append_assoc]
  exact (leads_append (by simp) (by simp)).2 ⟨_, _, _, hleads, hfollow, .last hfind, rfl⟩

theorem locate_congr (q : String) (h : locate path v segments = .ok steps) :
    locate q v segments = .ok steps :=
  ((locate_agree path q v segments).result steps).1 h

end Locate

/-- The keys of a mapping. -/
def Value.keys? : Value → Option (List String)
  | mapping es => some (Table.keys es)
  | _ => none

theorem Value.keys?_eq_some {v : Value} {ks : List String} :
    v.keys? = some ks ↔ ∃ es, v = mapping es ∧ Table.keys es = ks := by
  cases v <;> simp [keys?]

namespace Place

/-- The place of a key in the mapping at a place. -/
def ofKey (place : Place) (k : String) : Place := ⟨place.root, place.steps, .key k⟩

variable {story : Story} {place : Place} {start name k path : String} {quote : Char}
  {es : List (String × Value)}

/-- What it takes for a path to resolve that ends in an identifier. -/
theorem resolve_identifier (hname : Segment.IsIdentifier name.toList)
    (h : resolve story (start ++ "." ++ name) = .ok place) : ∃ parts segments,
      Text.splitAt '.' (Text.trimLeft start.toList) = place.root.name.toList :: parts ∧
      (∀ path, Segment.parseAll path parts = .ok segments) ∧
      ∀ path, Locate.locate path (story.root place.root) (segments ++ [⟨name, none⟩]) =
        .ok place.steps := by
  obtain ⟨raws, all, hsplit, hparse, hlocate⟩ := resolve_ok.1 h
  have htext : (start ++ "." ++ name).toList = start.toList ++ '.' :: name.toList := by
    simp [String.toList_append]
  rw [htext, Segment.split_behind _ hname.exists_last,
    Text.splitAt_of_not_mem hname.not_point] at hsplit
  obtain ⟨first, parts, hparts⟩ := List.exists_cons_of_ne_nil
    (Text.splitAt_ne_nil '.' (Text.trimLeft start.toList))
  rw [hparts, List.cons_append] at hsplit
  obtain ⟨rfl, rfl⟩ := List.cons.inj hsplit
  rw [Segment.parseAll_append] at hparse
  obtain ⟨segments, hsegments, hparse⟩ := Outcome.bind_ok.1 hparse
  obtain ⟨more, hmore, hparse⟩ := Outcome.bind_ok.1 hparse
  obtain rfl := Outcome.pure_ok.1 hparse
  obtain rfl : [⟨name, none⟩] = more := by
    rw [Segment.parseAll, Segment.parse_plain hname.ne_nil hname.plain] at hmore
    simpa [Segment.parseAll, Outcome.ok_bind, String.ofList_toList] using hmore
  exact ⟨parts, segments, hparts, fun path => Segment.parseAll_congr path hsegments,
    fun path => Locate.locate_congr path hlocate⟩

/-- A path with a part that is not read comes to nothing. -/
theorem resolve_error {root : Root} {parts : List (List Char)} {fault : Fault}
    (hsplit : Segment.split path.toList = root.name.toList :: parts)
    (hparse : Segment.parseAll path parts = .error fault) : resolve story path = .error fault := by
  cases parts with
  | nil => cases hparse
  | cons second rest =>
    simp only [resolve, hsplit, String.ofList_toList, Root.ofName?_name, hparse]
    rfl

theorem split_quotedKey (start name : String) (quote : Char) (k : String) :
    Segment.split (start ++ "." ++ name ++ Segment.quotedKey quote k).toList =
      Text.splitAt '.' (Text.trimLeft start.toList) ++
        Text.splitAt '.' (name.toList ++ '[' :: quote :: (k.toList ++ [quote, ']'])) := by
  have htext : (start ++ "." ++ name ++ Segment.quotedKey quote k).toList =
      start.toList ++ '.' :: (name.toList ++ '[' :: quote :: (k.toList ++ [quote, ']'])) := by
    simp [String.toList_append, Segment.quotedKey]
  have hlast : ∃ u c, name.toList ++ '[' :: quote :: (k.toList ++ [quote, ']']) = u ++ [c] ∧
      Text.isBlank c = false :=
    ⟨name.toList ++ '[' :: quote :: (k.toList ++ [quote]), ']', by simp, by decide⟩
  rw [htext, Segment.split_behind _ hlast]

section

variable (hname : Segment.IsIdentifier name.toList)
  (hplace : resolve story (start ++ "." ++ name) = .ok place)
  (hquote : quote = '\x22' ∨ quote = '\x27') (hfree : quote ∉ k.toList)
include hname hplace hquote hfree

theorem resolve_quotedKey (hread : place.read story = .ok (.mapping es)) (hk : k ∈ Table.keys es)
    (hpoint : '.' ∉ k.toList) :
    resolve story (start ++ "." ++ name ++ Segment.quotedKey quote k) = .ok (place.ofKey k) := by
  obtain ⟨parts, segments, hstart, hparse, hlocate⟩ := resolve_identifier hname hplace
  have hsplit := split_quotedKey start name quote k
  generalize start ++ "." ++ name ++ Segment.quotedKey quote k = path at hsplit ⊢
  -- the name and its accessor are one part
  have hwhole : '.' ∉ name.toList ++ '[' :: quote :: (k.toList ++ [quote, ']']) := by
    have hne : '.' ≠ quote := by rcases hquote with rfl | rfl <;> decide
    simp [hname.not_point, hpoint, hne]
  rw [hstart, Text.splitAt_of_not_mem hwhole, List.cons_append] at hsplit
  refine resolve_ok.2 ⟨_, segments ++ [⟨name, some (.key k)⟩], hsplit, ?_, ?_⟩
  · rw [Segment.parseAll_append, hparse, Segment.parseAll,
      Segment.parse_quoted hname hquote hfree]
    simp [Segment.parseAll, Outcome.ok_bind, String.ofList_toList]
  · rw [read_eq] at hread
    exact Locate.locate_key (hlocate path) hread hk

theorem resolve_pointed (hpoint : '.' ∈ k.toList) : ∃ message,
    resolve story (start ++ "." ++ name ++ Segment.quotedKey quote k) =
      refuse .malformedPath message := by
  obtain ⟨parts, segments, hstart, hparse, -⟩ := resolve_identifier hname hplace
  have hsplit := split_quotedKey start name quote k
  generalize start ++ "." ++ name ++ Segment.quotedKey quote k = path at hsplit ⊢
  -- the first point of the key ends the part with the name, before its quote is closed
  obtain ⟨before, after, hk, hbefore⟩ := List.eq_append_cons_of_mem hpoint
  have hhalf : '.' ∉ name.toList ++ '[' :: quote :: before := by
    have hne : '.' ≠ quote := by rcases hquote with rfl | rfl <;> decide
    simp [hname.not_point, hbefore, hne]
  have htext : name.toList ++ '[' :: quote :: (k.toList ++ [quote, ']']) =
      name.toList ++ '[' :: quote :: before ++ '.' :: (after ++ [quote, ']']) := by
    simp [hk]
  rw [hstart, htext, Text.splitAt_append hhalf, List.cons_append] at hsplit
  obtain ⟨message, hmalformed⟩ := Segment.parse_unquoted hname hquote
    (fun hmem => hfree (by rw [hk]; exact List.mem_append_left _ hmem)) path
  refine ⟨message, resolve_error hsplit ?_⟩
  rw [Segment.parseAll_append, hparse, Segment.parseAll, hmalformed]
  rfl

end

/-- A path to a mapping with a key in quotes behind it leads to the place of that key if no point is
in the key, and is malformed if there is one. -/
theorem resolve_quotedKey_iff (hname : Segment.IsIdentifier name.toList)
    (hplace : resolve story (start ++ "." ++ name) = .ok place)
    (hread : place.read story = .ok (.mapping es)) (hk : k ∈ Table.keys es)
    (hquote : quote = '\x22' ∨ quote = '\x27') (hfree : quote ∉ k.toList) :
    (resolve story (start ++ "." ++ name ++ Segment.quotedKey quote k) = .ok (place.ofKey k) ↔
      '.' ∉ k.toList) ∧
    (place.ofKey k).container story = .ok (.mapping es) ∧
    ((∃ message, resolve story (start ++ "." ++ name ++ Segment.quotedKey quote k) =
      refuse .malformedPath message) ↔ '.' ∈ k.toList) := by
  have hcontainer : (place.ofKey k).container story = .ok (.mapping es) := by
    rw [← hread, read_eq]
    rfl
  by_cases hpoint : '.' ∈ k.toList
  · obtain ⟨message, hmalformed⟩ := resolve_pointed hname hplace hquote hfree hpoint
    refine ⟨iff_of_false ?_ (not_not.2 hpoint), hcontainer,
      iff_of_true ⟨message, hmalformed⟩ hpoint⟩
    rw [hmalformed]
    exact Outcome.refuse_ne_ok
  · have hok := resolve_quotedKey hname hplace hquote hfree hread hk hpoint
    refine ⟨iff_of_true hok hpoint, hcontainer, iff_of_false ?_ hpoint⟩
    rintro ⟨message, hmalformed⟩
    rw [hok] at hmalformed
    exact Outcome.refuse_ne_ok hmalformed.symm

/-- The document of a story with a mapping of two keys, of which one has a point in it. -/
def pointedDocument : Value :=
  .mapping [("world", .mapping [("global", .mapping [("a ][ b", .int 1), ("a.b", .int 2)])])]

/-- The path to that mapping, and what it leads to. -/
theorem exists_pointed : ∃ story es, Story.read pointedDocument = .ok story ∧
    resolve story "world.global" = .ok ⟨.world, [], .slot (.field "global_")⟩ ∧
    story.readPath "world.global" = .ok (.mapping es) ∧ Table.keys es = ["a ][ b", "a.b"] := by
  obtain ⟨story, hread, hplace, hvalue⟩ := Story.exists_read pointedDocument (fun story =>
    resolve story "world.global" = .ok ⟨.world, [], .slot (.field "global_")⟩ ∧
      (story.readPath "world.global").toOption.map
        (fun v => decide (v.keys? = some ["a ][ b", "a.b"])) = some true) (by decide +kernel)
  obtain ⟨v, hv, hkeys⟩ := Outcome.exists_decided _ _ hvalue
  obtain ⟨es, rfl, hes⟩ := Value.keys?_eq_some.1 hkeys
  exact ⟨story, es, hread, hplace, hv, hes⟩

/-- A key with blanks and brackets is reached in quotes. -/
theorem resolve_quotedKey_iff_brackets : ∃ story es, Story.read pointedDocument = .ok story ∧
    resolve story "world.global[\x22a ][ b\x22]" =
      .ok ⟨.world, [.slot (.field "global_")], .key "a ][ b"⟩ ∧
    (⟨.world, [.slot (.field "global_")], .key "a ][ b"⟩ : Place).container story =
      .ok (.mapping es) := by
  obtain ⟨story, es, hread, hplace, hvalue, hkeys⟩ := exists_pointed
  rw [Story.readPath, hplace] at hvalue
  have hname : Segment.IsIdentifier "global".toList :=
    ⟨'g', ['l', 'o', 'b', 'a', 'l'], by decide, by decide, List.all_eq_true.1 (by decide)⟩
  have hkey : "a ][ b" ∈ Table.keys es := by simp [hkeys]
  obtain ⟨hresolve, hcontainer, -⟩ := @resolve_quotedKey_iff story _ "world" "global" "a ][ b"
    '\x22' es hname hplace hvalue hkey (.inl rfl) (by decide)
  exact ⟨story, es, hread, hresolve.2 (by decide), hcontainer⟩

/-- A key with a point is not, though it is in the mapping and holds no quote. -/
theorem resolve_key_pointed : ∃ story es, Story.read pointedDocument = .ok story ∧
    story.readPath "world.global" = .ok (.mapping es) ∧ "a.b" ∈ Table.keys es ∧
    resolve story "world.global[\x22a.b\x22]" = refuse .malformedPath
      "Malformed index accessor 'global[\x22a' in path: world.global[\x22a.b\x22]" := by
  obtain ⟨story, es, hread, hplace, hvalue, hkeys⟩ := exists_pointed
  obtain ⟨story', hread', hrefused⟩ := Story.exists_read pointedDocument (fun story =>
    resolve story "world.global[\x22a.b\x22]" = refuse .malformedPath
      "Malformed index accessor 'global[\x22a' in path: world.global[\x22a.b\x22]")
    (by decide +kernel)
  obtain rfl := Except.ok.inj (hread.symm.trans hread')
  exact ⟨story, es, hread, hvalue, by simp [hkeys], hrefused⟩

end Place

end StoryWorld
