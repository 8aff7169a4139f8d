import StoryWorld.Config.Merge
import StoryWorld.Proofs.Ordered

/-!
One document laid over another, way by way.

A way is a sequence of keys, each of which leads into a mapping. Where both documents have a mapping
at a way, the result has one with the keys of both; else it has what the upper one has there. Where
the upper one has nothing, the result has what the lower one has, unless the upper one ends before
the way does. No other document does all of that. So a document that is laid over another once more
changes nothing, and neither does an empty one.
-/

namespace StoryWorld

namespace Value

variable {v w : Value} {es : List (String × Value)} {key : String} {way front rest : List String}

/-- Whether a value is a mapping. -/
def isMapping : Value → Bool
  | mapping _ => true
  | _ => false

theorem isMapping_iff {v : Value} : v.isMapping = true ↔ ∃ es, v = mapping es := by
  cases v <;> simp [isMapping]

/-- What a document has at a way. It has something there only if it has mappings at all shorter
beginnings of the way. -/
def atWay? : Value → List String → Option Value
  | v, [] => some v
  | mapping es, key :: way => (Table.get? key es).bind fun w => w.atWay? way
  | _, _ :: _ => none

@[simp] theorem atWay?_nil (v : Value) : v.atWay? [] = some v := by
  cases v <;> rfl

@[simp] theorem atWay?_mapping (es : List (String × Value)) (key : String) (way : List String) :
    (mapping es).atWay? (key :: way) = (Table.get? key es).bind fun w => w.atWay? way := rfl

theorem atWay?_append : ∀ {front : List String} {v : Value},
    v.atWay? (front ++ rest) = (v.atWay? front).bind fun w => w.atWay? rest
  | [], v => by simp
  | key :: front, v => by
    cases v with
    | mapping es =>
      cases hget : Table.get? key es with
      | none => simp [hget]
      | some w => simp [hget, atWay?_append]
    | _ => rfl

/-- What has something further on has a mapping there. -/
theorem exists_mapping_of_atWay? (h : v.atWay? (front ++ key :: rest) = some w) :
    ∃ es, v.atWay? front = some (mapping es) := by
  rw [atWay?_append] at h
  obtain ⟨x, hx, hw⟩ := Option.bind_eq_some_iff.1 h
  cases x with
  | mapping es => exact ⟨es, hx⟩
  | _ => cases hw

/-- Whether a document ends before a way does: at a beginning of the way, not the whole of it, it has
something that is no mapping. -/
def EndsBefore (v : Value) (way : List String) : Prop :=
  ∃ front, front <+: way ∧ front ≠ way ∧ ∃ w, v.atWay? front = some w ∧ w.isMapping = false

/-- A document that ends before a way has nothing there. -/
theorem EndsBefore.atWay?_eq_none (h : v.EndsBefore way) : v.atWay? way = none := by
  obtain ⟨front, ⟨rest, rfl⟩, hne, w, hw, hmapping⟩ := h
  cases rest with
  | nil => simp at hne
  | cons key rest =>
    refine Option.eq_none_iff_forall_ne_some.2 fun x hx => ?_
    obtain ⟨es, hes⟩ := exists_mapping_of_atWay? hx
    rw [hw, Option.some.injEq] at hes
    subst hes
    cases hmapping

theorem not_endsBefore_nil : ¬v.EndsBefore [] := by
  rintro ⟨front, hprefix, hne, -⟩
  exact hne (List.prefix_nil.1 hprefix)

theorem endsBefore_of_not_mapping (h : v.isMapping = false) : v.EndsBefore (key :: way) :=
  ⟨[], List.nil_prefix, by simp, v, atWay?_nil v, h⟩

/-- A mapping ends where what it has under the first key does. -/
theorem endsBefore_mapping : (mapping es).EndsBefore (key :: way) ↔
    ∃ w, Table.get? key es = some w ∧ w.EndsBefore way := by
  constructor
  · rintro ⟨front, hfront, hne, x, hx, hmapping⟩
    cases front with
    | nil =>
      simp only [atWay?_nil, Option.some.injEq] at hx
      subst hx
      cases hmapping
    | cons k front =>
      obtain ⟨rfl, hprefix⟩ := List.cons_prefix_cons.1 hfront
      obtain ⟨w, hw, hx⟩ := Option.bind_eq_some_iff.1 hx
      exact ⟨w, hw, front, hprefix, by simpa using hne, x, hx, hmapping⟩
  · rintro ⟨w, hw, front, hfront, hne, x, hx, hmapping⟩
    exact ⟨key :: front, List.cons_prefix_cons.2 ⟨rfl, hfront⟩, by simpa using hne, x,
      by simpa [hw] using hx, hmapping⟩

/-- What a document has at a way is a document. -/
theorem isDocument_atWay? : ∀ {way : List String} {v : Value}, v.isDocument = true →
    v.atWay? way = some w → w.isDocument = true
  | [], v, hv, h => by
    simp only [atWay?_nil, Option.some.injEq] at h
    exact h ▸ hv
  | key :: way, v, hv, h => by
    cases v with
    | mapping es =>
      obtain ⟨x, hx, hw⟩ := Option.bind_eq_some_iff.1 h
      exact isDocument_atWay? ((isDocument_mapping.1 hv).2 _ (Table.mem_of_get? hx)) hw
    | _ => cases h

end Value

namespace Config

open Value

variable {base es fs upper : List (String × Value)} {below : Option Value} {v w lower laid : Value}
  {key : String} {way : List String}

/-! ### One mapping over another -/

/-- The entries of a document. One that is missing has none. -/
def entriesOf : Option Value → List (String × Value)
  | some (.mapping es) => es
  | _ => []

/-- Under each key of the upper mapping its value is laid over what stood there; the other keys of
the lower one stay as they are. -/
theorem get?_layAll (key : String) : ∀ {es : List (String × Value)} (base : List (String × Value)),
    (Table.keys es).Nodup → Table.get? key (layAll base es) =
      match Table.get? key es with
      | some v => some (layOver (Table.get? key base) v)
      | none => Table.get? key base
  | [], base, _ => by simp [layAll]
  | (k, v) :: rest, base, h => by
    obtain ⟨hk, hrest⟩ := List.nodup_cons.1 h
    rw [layAll, get?_layAll key _ hrest, Table.get?_cons]
    by_cases hkey : k = key
    · subst hkey
      rw [Table.get?_eq_none_iff.2 hk, Table.get?_put_self, if_pos rfl]
    · rw [Table.get?_put_of_ne (Ne.symm hkey), if_neg hkey]

/-- The keys of the lower mapping keep their places, and the new ones come after them in the order
of the upper one. -/
theorem keys_layAll : ∀ {es : List (String × Value)} (base : List (String × Value)),
    (Table.keys es).Nodup → Table.keys (layAll base es) =
      Table.keys base ++ (Table.keys es).filter (· ∉ Table.keys base)
  | [], base, _ => by simp [layAll, Table.keys]
  | (k, v) :: rest, base, h => by
    obtain ⟨hk, hrest⟩ := List.nodup_cons.1 h
    have hkeys : Table.keys ((k, v) :: rest) = k :: Table.keys rest := rfl
    rw [layAll, keys_layAll _ hrest, hkeys]
    by_cases hbase : k ∈ Table.keys base
    · rw [Table.keys_put (Table.has_iff_mem.2 hbase)]
      simp [hbase]
    · -- the key comes only once in the upper mapping, so it can be counted among the lower ones
      have hfresh : (Table.keys rest).filter (· ∉ Table.keys base ++ [k]) =
          (Table.keys rest).filter (· ∉ Table.keys base) := by
        refine List.filter_congr fun other hother => ?_
        have hne : other ≠ k := fun heq => hk (heq ▸ hother)
        simp [hne]
      rw [Table.keys_put_of_not_mem hbase, hfresh]
      simp [hbase]

/-! ### One value over another -/

/-- A value takes the place of what it is laid over, unless both are mappings. -/
theorem layOver_eq_self (h : ∀ ls us, below = some (.mapping ls) → v ≠ .mapping us) :
    layOver below v = v := by
  cases v with
  | mapping us =>
    unfold layOver
    split
    · next ls => exact absurd rfl (h ls us rfl)
    · rfl
  | _ => rw [layOver]; simp

theorem layOver_of_not_mapping (h : v.isMapping = false) : layOver below v = v := by
  refine layOver_eq_self fun ls us _ heq => ?_
  subst heq
  cases h

/-- What is laid over another value is a mapping just if it was one before. -/
theorem isMapping_layOver (below : Option Value) (v : Value) :
    (layOver below v).isMapping = v.isMapping := by
  cases v with
  | mapping us =>
    unfold layOver
    split <;> rfl
  | _ => rw [layOver_of_not_mapping rfl]

/-- Laid over nothing, a mapping is as it was. -/
theorem layAll_nil_left (h : (Table.keys es).Nodup) : layAll [] es = es := by
  refine Table.eq_of_get? h ((keys_layAll [] h).trans (by simp [Table.keys])) fun key hkey => ?_
  obtain ⟨v, hv⟩ := Table.mem_keys_iff.1 hkey
  rw [get?_layAll key [] h, hv]
  exact congrArg some (layOver_eq_self (by simp))

/-- A mapping is laid over the entries of what is there. -/
theorem layOver_mapping (h : (Table.keys es).Nodup) (below : Option Value) :
    layOver below (.mapping es) = .mapping (layAll (entriesOf below) es) := by
  cases below with
  | none => exact congrArg Value.mapping (layAll_nil_left h).symm
  | some w =>
    cases w with
    | mapping base => rfl
    | _ => exact congrArg Value.mapping (layAll_nil_left h).symm

/-! ### Ways into what is laid over -/

/-- What stands at a way that begins with a key stands at the rest of it under the key. -/
theorem bind_atWay?_cons (below : Option Value) (key : String) (way : List String) :
    (below.bind fun w => w.atWay? (key :: way)) =
      (Table.get? key (entriesOf below)).bind fun w => w.atWay? way := by
  cases below with
  | none => rfl
  | some w => cases w <;> rfl

/-- Where the upper document has something, that is laid over what the lower one has there. -/
theorem atWay?_layOver : ∀ {way : List String} {v : Value} (below : Option Value),
    v.isDocument = true → v.atWay? way = some w →
      (layOver below v).atWay? way = some (layOver (below.bind fun u => u.atWay? way) w)
  | [], v, below, _, h => by
    simp only [atWay?_nil, Option.some.injEq] at h
    simp [h]
  | key :: way, v, below, hv, h => by
    cases v with
    | mapping es =>
      obtain ⟨hkeys, hvalues⟩ := isDocument_mapping.1 hv
      obtain ⟨x, hx, hw⟩ := Option.bind_eq_some_iff.1 h
      rw [layOver_mapping hkeys, atWay?_mapping, get?_layAll key _ hkeys, hx,
        bind_atWay?_cons]
      exact atWay?_layOver _ (hvalues _ (Table.mem_of_get? hx)) hw
    | _ => cases h

/-- Where the upper document has nothing though it does not end before, the lower one decides. -/
theorem atWay?_layOver_of_none : ∀ {way : List String} {v : Value} (below : Option Value),
    v.isDocument = true → v.atWay? way = none → ¬v.EndsBefore way →
      (layOver below v).atWay? way = below.bind fun u => u.atWay? way
  | [], v, _, _, h, _ => by simp at h
  | key :: way, v, below, hv, h, hends => by
    cases v with
    | mapping es =>
      obtain ⟨hkeys, hvalues⟩ := isDocument_mapping.1 hv
      rw [layOver_mapping hkeys, atWay?_mapping, get?_layAll key _ hkeys, bind_atWay?_cons]
      cases hget : Table.get? key es with
      | none => rfl
      | some x =>
        rw [atWay?_mapping, hget] at h
        exact atWay?_layOver_of_none _ (hvalues _ (Table.mem_of_get? hget)) h fun hx =>
          hends (endsBefore_mapping.2 ⟨x, hget, hx⟩)
    | _ => exact absurd (endsBefore_of_not_mapping rfl) hends

/-- A document that ends before a way still does when it is laid over another. -/
theorem endsBefore_layOver (below : Option Value) (hv : v.isDocument = true)
    (h : v.EndsBefore way) : (layOver below v).EndsBefore way := by
  obtain ⟨front, hprefix, hne, w, hw, hmapping⟩ := h
  refine ⟨front, hprefix, hne, w, ?_, hmapping⟩
  rw [atWay?_layOver below hv hw, layOver_of_not_mapping hmapping]

/-! ### What is told at each way -/

/-- What a document has at a way if it is one document laid over another. -/
structure LaidAt (lower upper laid : Value) (way : List String) : Prop where
  /-- Where both have a mapping there is one, with the keys of the lower one and then the new ones
  of the upper. What it has under each of them is told by the way that goes on with the key. -/
  both : ∀ ls us, lower.atWay? way = some (.mapping ls) → upper.atWay? way = some (.mapping us) →
    ∃ es, laid.atWay? way = some (.mapping es) ∧
      Table.keys es = Table.keys ls ++ (Table.keys us).filter (· ∉ Table.keys ls)
  /-- Else the upper one decides, where it has anything. -/
  above : ∀ v, upper.atWay? way = some v →
    (∀ ls us, lower.atWay? way = some (.mapping ls) → v ≠ .mapping us) → laid.atWay? way = some v
  /-- Else the lower one decides, where the upper one has nothing in its way. -/
  below : ∀ v, upper.atWay? way = none → ¬upper.EndsBefore way → lower.atWay? way = some v →
    laid.atWay? way = some v
  /-- Else there is nothing. -/
  neither : upper.atWay? way = none → (lower.atWay? way = none ∨ upper.EndsBefore way) →
    laid.atWay? way = none

/-- A document laid over another has at each way what is told. -/
theorem laidAt_layOver (lower : Value) (hv : v.isDocument = true) (way : List String) :
    LaidAt lower v (layOver (some lower) v) way where
  both ls us hl hu := by
    have hkeys := (isDocument_mapping.1 (isDocument_atWay? hv hu)).1
    have hlaid := atWay?_layOver (some lower) hv hu
    rw [Option.bind_some, hl, layOver_mapping hkeys] at hlaid
    exact ⟨_, hlaid, keys_layAll ls hkeys⟩
  above w hw hboth := by
    rw [atWay?_layOver (some lower) hv hw, Option.bind_some, layOver_eq_self hboth]
  below w hu hends hl := by
    rw [atWay?_layOver_of_none (some lower) hv hu hends, Option.bind_some, hl]
  neither hu h := by
    by_cases hends : v.EndsBefore way
    · exact (endsBefore_layOver (some lower) hv hends).atWay?_eq_none
    · rw [atWay?_layOver_of_none (some lower) hv hu hends, Option.bind_some]
      exact h.resolve_right hends

section Under

variable {ls us es : List (String × Value)} {l u e : Value}

/-- What is told at a way that begins with a key is told of what the documents have under it. -/
theorem LaidAt.under (h : LaidAt (.mapping ls) (.mapping us) (.mapping es) (key :: way))
    (hl : Table.get? key ls = some l) (hu : Table.get? key us = some u)
    (he : Table.get? key es = some e) : LaidAt l u e way := by
  obtain ⟨both, above, below, neither⟩ := h
  simp only [atWay?_mapping, endsBefore_mapping, hl, hu, he, Option.bind_some, Option.some.injEq,
    exists_eq_left'] at both above below neither
  exact ⟨both, above, below, neither⟩

/-- Under a key that the lower mapping does not have, the upper one decides. -/
theorem LaidAt.get?_of_upper (h : LaidAt (.mapping ls) (.mapping us) (.mapping es) [key])
    (hl : Table.get? key ls = none) (hu : Table.get? key us = some u) :
    Table.get? key es = some u := by
  have habove := h.above u (by simpa using hu) (by simp [hl])
  simpa using habove

/-- Under a key that the upper mapping does not have, the lower one decides. -/
theorem LaidAt.get?_of_lower (h : LaidAt (.mapping ls) (.mapping us) (.mapping es) [key])
    (hu : Table.get? key us = none) : Table.get? key es = Table.get? key ls := by
  have hends : ¬(mapping us).EndsBefore [key] := by simp [endsBefore_mapping, hu]
  cases hl : Table.get? key ls with
  | none => simpa using h.neither (by simp [hu]) (.inl (by simp [hl]))
  | some l => simpa using h.below l (by simp [hu]) hends (by simp [hl])

end Under

/-- Where not both are mappings, the whole is the upper one. -/
theorem LaidAt.eq_upper {upper : Value} (h : LaidAt lower upper laid [])
    (hboth : ∀ ls us, lower = .mapping ls → upper ≠ .mapping us) : laid = upper := by
  simpa using h.above upper (atWay?_nil upper) (by simpa using hboth)

/-- Only one document has at each way what is told. -/
theorem LaidAt.unique {upper lower laid laid' : Value} (hupper : upper.isDocument = true)
    (hlower : lower.isDocument = true) (h : ∀ way, LaidAt lower upper laid way)
    (h' : ∀ way, LaidAt lower upper laid' way) : laid = laid' := by
  induction upper using Value.induct generalizing lower laid laid' with
  | mapping us ih =>
    obtain ⟨hus, huvalues⟩ := isDocument_mapping.1 hupper
    cases lower with
    | mapping ls =>
      obtain ⟨hls, hlvalues⟩ := isDocument_mapping.1 hlower
      obtain ⟨es, hes, hkeys⟩ := (h []).both ls us rfl rfl
      obtain ⟨es', hes', hkeys'⟩ := (h' []).both ls us rfl rfl
      obtain rfl : laid = mapping es := by simpa using hes
      obtain rfl : laid' = mapping es' := by simpa using hes'
      have hnodup : (Table.keys es').Nodup := by
        rw [hkeys']
        refine hls.append (hus.filter _) fun key hl hu => ?_
        simp [hl] at hu
      refine congrArg Value.mapping (Table.eq_of_get? hnodup (hkeys.trans hkeys'.symm) ?_)
      intro key hkey
      cases hu : Table.get? key us with
      | none => rw [(h [key]).get?_of_lower hu, (h' [key]).get?_of_lower hu]
      | some u =>
        cases hl : Table.get? key ls with
        | none => rw [(h [key]).get?_of_upper hl hu, (h' [key]).get?_of_upper hl hu]
        | some l =>
          obtain ⟨e', he'⟩ := Table.mem_keys_iff.1 hkey
          obtain ⟨e, he⟩ := Table.mem_keys_iff.1 (hkeys ▸ hkeys' ▸ hkey)
          rw [he, he', ih _ (Table.mem_of_get? hu) (huvalues _ (Table.mem_of_get? hu))
            (hlvalues _ (Table.mem_of_get? hl)) (fun way => (h (key :: way)).under hl hu he)
            (fun way => (h' (key :: way)).under hl hu he')]
    | _ => rw [(h []).eq_upper (by simp), (h' []).eq_upper (by simp)]
  | _ => rw [(h []).eq_upper (by simp), (h' []).eq_upper (by simp)]

/-! ### Once more -/

/-- What is there already is not changed by what it absorbs. -/
theorem layAll_of_absorbed : ∀ {es : List (String × Value)},
    (∀ e ∈ es, ∃ w, Table.get? e.1 base = some w ∧ layOver (some w) e.2 = w) →
      layAll base es = base
  | [], _ => by rw [layAll]
  | (k, v) :: rest, h => by
    obtain ⟨⟨w, hw, hsame⟩, hrest⟩ := List.forall_mem_cons.1 h
    rw [layAll, hw, hsame, Table.put_of_get? hw]
    exact layAll_of_absorbed hrest

/-- What was laid over another value changes nothing when it is laid over it once more. -/
theorem layOver_again (hv : v.isDocument = true) (below : Option Value) :
    layOver (some (layOver below v)) v = layOver below v := by
  induction v, hv using Value.document_induct generalizing below with
  | mapping es hkeys _ ih =>
    rw [layOver_mapping hkeys below, layOver_mapping hkeys]
    refine congrArg Value.mapping (layAll_of_absorbed fun e he => ?_)
    refine ⟨layOver (Table.get? e.1 (entriesOf below)) e.2, ?_, ih e he _⟩
    have hget := get?_layAll e.1 (entriesOf below) hkeys
    rw [(Table.get?_eq_some_iff hkeys).2 he] at hget
    exact hget
  | _ => rw [layOver_of_not_mapping rfl, layOver_of_not_mapping rfl]

/-! ### The laws -/

/-- What a document laid over another has, way by way, and that nothing else has just that. Laid over
once more it changes nothing, nor does an empty document, above or below. -/
theorem layAll_way_by_way (hbase : (Value.mapping base).isDocument = true)
    (hupper : (Value.mapping upper).isDocument = true) :
    (∀ way, LaidAt (.mapping base) (.mapping upper) (.mapping (layAll base upper)) way) ∧
      (∀ laid, (∀ way, LaidAt (.mapping base) (.mapping upper) laid way) →
        laid = .mapping (layAll base upper)) ∧
      layAll (layAll base upper) upper = layAll base upper ∧
      layAll base [] = base ∧ layAll [] upper = upper := by
  have hkeys := (isDocument_mapping.1 hupper).1
  have hlaid : layOver (some (.mapping base)) (.mapping upper) = .mapping (layAll base upper) :=
    layOver_mapping hkeys _
  have htold : ∀ way, LaidAt (.mapping base) (.mapping upper) (.mapping (layAll base upper)) way :=
    fun way => hlaid ▸ laidAt_layOver (.mapping base) hupper way
  refine ⟨htold, fun laid h => LaidAt.unique hupper hbase h htold, ?_, by rw [layAll],
    layAll_nil_left hkeys⟩
  have hagain := layOver_again hupper (some (.mapping base))
  rw [hlaid, layOver_mapping hkeys, Value.mapping.injEq] at hagain
  exact hagain

/-- A lower document with mappings and other values at several depths. -/
def rusticDocument : List (String × Value) :=
  [("app", .mapping [("log_level", .text "debug"),
      ("paths", .mapping [("data", .text "var"), ("logs", .text "log")])]),
    ("retriever", .int 3),
    ("world", .mapping [("seed", .int 1)])]

/-- An upper document that has a mapping where the lower one has none, and the other way round. -/
def urbanDocument : List (String × Value) :=
  [("world", .null),
    ("retriever", .mapping [("max_hops", .int 4)]),
    ("app", .mapping [("paths", .mapping [("cache", .list []), ("data", .mapping [])])])]

theorem layAll_way_by_way_urban : (Value.mapping rusticDocument).isDocument = true ∧
    (Value.mapping urbanDocument).isDocument = true ∧
    (∀ way, LaidAt (.mapping rusticDocument) (.mapping urbanDocument)
      (.mapping (layAll rusticDocument urbanDocument)) way) ∧
    (∀ laid, (∀ way, LaidAt (.mapping rusticDocument) (.mapping urbanDocument) laid way) →
      laid = .mapping (layAll rusticDocument urbanDocument)) ∧
    layAll (layAll rusticDocument urbanDocument) urbanDocument =
      layAll rusticDocument urbanDocument ∧
    layAll rusticDocument [] = rusticDocument ∧ layAll [] urbanDocument = urbanDocument :=
  have hbase : (Value.mapping rusticDocument).isDocument = true := by decide
  have hupper : (Value.mapping urbanDocument).isDocument = true := by decide
  ⟨hbase, hupper, layAll_way_by_way hbase hupper⟩

example : layAll rusticDocument urbanDocument =
    [("app", .mapping [("log_level", .text "debug"),
        ("paths", .mapping [("data", .mapping []), ("logs", .text "log"), ("cache", .list [])])]),
      ("retriever", .mapping [("max_hops", .int 4)]),
      ("world", .null)] := by
  rfl

end Config

end StoryWorld
