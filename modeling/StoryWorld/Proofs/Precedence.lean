import StoryWorld.Config.Load
import StoryWorld.Proofs.Layering
import StoryWorld.Proofs.Reading

/-!
Which source of the configuration decides a setting.

A setting is a field of one of the sections. What the laid-over documents say of it is what the
highest of them says that says anything, unless both sides are mappings, which are laid over each
other; as no setting takes a mapping, that case ends in a refusal. Two settings have a variable
above all documents. What is said of a setting is then read by its shape and its rule, and where
nothing is said its fallback stands.
-/

namespace StoryWorld

namespace Schema

/-- What a field holds once it was read: what was said of it, read by its shape and its rule, or
else its fallback. -/
def Holds (f : Field) (shape : Shape) (said : Option Value) (v : Value) : Prop :=
  match said with
  | some u => (validate shape (f.rule.prepare u)).andThen f.rule.check = .accepted v
  | none => f.fallback = some v

/-- The slot of a declared field holds what the document says of it. -/
theorem holds_validateFields : ∀ {fields : Fields} {es : List (String × Value)}
    {slots : List (Slot × Value)}, validateFields fields es = .accepted slots →
      (fields.map fun f => f.1.name).Nodup → ∀ f ∈ fields,
        ∃ v, Table.get? (.field f.1.name) slots = some v ∧
          Holds f.1 f.2 ((given? f.1.accepted es).map Prod.snd) v
  | [], _, _, _, _ => by simp
  | g :: rest, es, slots, h, hnames => by
    unfold validateFields at h
    obtain ⟨v, vs, hv, hvs, rfl⟩ := Verdict.both_accepted.1 h
    obtain ⟨hfresh, hrest⟩ := List.nodup_cons.1 hnames
    rw [List.forall_mem_cons]
    constructor
    · refine ⟨v, by simp [Table.get?_cons], ?_⟩
      split at hv
      · next given =>
        rw [given]
        exact Verdict.under_accepted.1 hv
      · next given =>
        rw [given]
        split at hv
        · next hfallback =>
          cases hv
          exact hfallback
        · cases hv
    · intro f hf
      have hne : g.1.name ≠ f.1.name := by
        intro heq
        exact hfresh (List.mem_map.2 ⟨f, hf, heq.symm⟩)
      obtain ⟨w, hw, hholds⟩ := holds_validateFields hvs hrest f hf
      exact ⟨w, by simpa [Table.get?_cons, hne] using hw, hholds⟩

/-- A field of the entity that an empty document gives holds its fallback. -/
theorem field?_blank (kind : Kind) : ∀ {fields : Fields},
    (fields.map fun f => f.1.name).Nodup → ∀ {f : Field × Shape}, f ∈ fields →
      (Shape.blank kind fields).field? f.1.name = some (f.1.fallback.getD .null)
  | [], _, _, hf => by simp at hf
  | g :: rest, hnames, f, hf => by
    obtain ⟨hfresh, hrest⟩ := List.nodup_cons.1 hnames
    rcases List.mem_cons.1 hf with rfl | hf
    · simp [Shape.blank, Value.field?, Table.get?_cons]
    · have hne : g.1.name ≠ f.1.name := by
        intro heq
        exact hfresh (List.mem_map.2 ⟨f, hf, heq.symm⟩)
      simpa [Shape.blank, Value.field?, Table.get?_cons, hne] using
        field?_blank kind hrest hf

/-- Under its only name a field is given what stands there. -/
theorem map_given?_singleton (name : String) (es : List (String × Value)) :
    (given? [name] es).map Prod.snd = Table.get? name es := by
  cases hget : Table.get? name es <;> simp [given?, hget]

/-- Whether a shape is one that a mapping can have. -/
def takesMapping : Shape → Bool
  | .any | .mapping _ | .record _ _ => true
  | .optional inner => takesMapping inner
  | _ => false

theorem not_accepted_of_not_takesMapping (es : List (String × Value)) (v : Value) :
    ∀ {shape : Shape}, takesMapping shape = false → validate shape (.mapping es) ≠ .accepted v
  | .text, _ | .whole, _ | .real, _ | .truth, _ | .number, _ | .choice _, _ | .list _, _ => by
    simp [validate, Numeral.toWhole, Numeral.toReal, Numeral.toTruth, Numeral.toNumber,
      Verdict.reject, Verdict.map, Verdict.both, Verdict.marked]
  | .optional inner, h => by
    rw [validate]
    · exact not_accepted_of_not_takesMapping es v (show takesMapping inner = false from h)
    · simp

end Schema

namespace Config

open Schema

/-! ### Variables -/

/-- The value that a line assigns to a variable. -/
def assigned? (name : String) (line : List Char) : Option String :=
  (assignment? line).bind fun pair =>
    if String.ofList pair.1 = name then some (String.ofList pair.2) else none

/-- A variable that is set stays as it is; one that is not takes the value given. -/
theorem get?_setDefault {env env' : Environment} {name value : List Char}
    (h : setDefault env name value = .ok env') (key : String) :
    Table.get? key env' = (Table.get? key env).or
      (if String.ofList name = key then some (String.ofList value) else none) := by
  unfold setDefault at h
  simp only at h
  split at h
  · next hhas =>
    cases h
    split
    · next heq =>
      obtain ⟨v, hv⟩ := Option.isSome_iff_exists.1 (show (Table.get? key env).isSome = true from
        heq ▸ hhas)
      simp [hv]
    · simp
  · next hhas =>
    split at h
    · cases h
    split at h
    · cases h
    cases h
    split
    · next heq =>
      rw [← heq, Table.get?_put_self, Option.not_isSome_iff_eq_none.1 hhas, Option.none_or]
    · next hne => rw [Table.get?_put_of_ne (Ne.symm hne), Option.or_none]

/-- A file sets what was not set before, each variable by the first line that assigns it. -/
theorem get?_addLines (key : String) : ∀ {lines : List (List Char)} {env env' : Environment},
    addLines env lines = .ok env' →
      Table.get? key env' = (Table.get? key env).or (lines.findSome? (assigned? key))
  | [], env, env', h => by
    cases h
    simp
  | line :: rest, env, env', h => by
    rw [addLines] at h
    split at h
    · next name value hline =>
      obtain ⟨mid, hmid, hrest⟩ := Outcome.bind_ok.1 h
      rw [get?_addLines key hrest, get?_setDefault hmid, Option.or_assoc, List.findSome?_cons,
        assigned?, hline]
      split <;> simp_all
    · next hline =>
      rw [get?_addLines key h, List.findSome?_cons, assigned?, hline]
      rfl

/-- The value of a variable: the one that it is set to, even if that is empty, or else the one that
the first line of the file gives which assigns it. -/
def Sources.valueOf? (s : Sources) (name : String) : Option String :=
  (Table.get? name s.environment).or
    (s.file.bind fun text => (Text.lines text.toList).findSome? (assigned? name))

/-- The value of a variable that is not empty. -/
def Sources.setting? (s : Sources) (name : String) : Option String :=
  (s.valueOf? name).filter fun value => !value.isEmpty

/-! ### Laying documents over each other -/

/-- What stands under a key of a part. -/
def leaf? (part key : String) (es : List (String × Value)) : Option Value :=
  match Table.get? part es with
  | some (.mapping fs) => Table.get? key fs
  | _ => none

/-- What is found is what was said, unless both are mappings. -/
def Agrees (said found : Option Value) : Prop :=
  found = said ∨ ∃ es fs, said = some (.mapping es) ∧ found = some (.mapping fs)

theorem Agrees.refl (said : Option Value) : Agrees said said := .inl rfl

/-- A value that is laid over another counts, unless it is a mapping. -/
theorem agrees_layOver (below : Option Value) (v : Value) :
    Agrees (some v) (some (layOver below v)) := by
  cases v with
  | mapping es =>
    obtain ⟨fs, hfs⟩ := Value.isMapping_iff.1 (isMapping_layOver below (.mapping es))
    exact .inr ⟨es, fs, rfl, congrArg some hfs⟩
  | _ => exact .inl (congrArg some (layOver_of_not_mapping rfl))

/-- The sections of a configuration, with the kind of each. -/
def sections : List (String × Kind) :=
  [("app", .appConfig), ("retriever", .retrieverConfig), ("world", .worldConfig)]

theorem fields_appConfigRoot : Kind.appConfigRoot.fields =
    sections.map fun s => Shape.part s.1 s.2 s.2.fields := rfl

/-- Each section that is there is a mapping. -/
def Sectioned (es : List (String × Value)) : Prop :=
  ∀ s ∈ sections, ∀ v ∈ Table.get? s.1 es, v.isMapping = true

instance (es : List (String × Value)) : Decidable (Sectioned es) := by
  unfold Sectioned
  infer_instance

theorem eq_entriesOf_of_layer {document : Option Value} {es : List (String × Value)}
    (h : layer document = .ok es) : es = entriesOf document := by
  unfold layer at h
  split at h
  · exact (Except.ok.inj h).symm
  · exact (Except.ok.inj h).symm
  · next v hne =>
    split at h
    · cases h
    · cases h
      cases v with
      | mapping es => exact absurd rfl (hne es)
      | _ => rfl

variable {base es : List (String × Value)} {part key : String}

theorem Sectioned.leaf?_eq (h : Sectioned es) (hpart : part ∈ sections.map Prod.fst)
    (key : String) :
    (Table.get? part es = none ∧ leaf? part key es = none) ∨
      ∃ fs, Table.get? part es = some (.mapping fs) ∧ leaf? part key es = Table.get? key fs := by
  obtain ⟨s, hs, rfl⟩ := List.mem_map.1 hpart
  cases hget : Table.get? s.1 es with
  | none => exact .inl ⟨rfl, by rw [leaf?, hget]⟩
  | some v =>
    obtain ⟨fs, rfl⟩ := Value.isMapping_iff.1 (h s hs v hget)
    exact .inr ⟨fs, rfl, by rw [leaf?, hget]⟩

/-- Sections stay mappings when a document is laid over them. -/
theorem Sectioned.layAll (hbase : Sectioned base) (h : Sectioned es)
    (hkeys : (Table.keys es).Nodup) : Sectioned (layAll base es) := by
  intro s hs v hv
  rw [get?_layAll s.1 base hkeys, Option.mem_def] at hv
  split at hv
  · next w hw =>
    rw [← Option.some.inj hv, isMapping_layOver]
    exact h s hs w hw
  · exact hbase s hs v hv

/-- A setting stands at the way of two keys to it. -/
theorem leaf?_eq_atWay? (part key : String) (es : List (String × Value)) :
    leaf? part key es = (Value.mapping es).atWay? [part, key] := by
  rw [leaf?, Value.atWay?_mapping]
  cases Table.get? part es with
  | none => rfl
  | some v =>
    cases v with
    | mapping fs => simp
    | _ => rfl

/-- The way to a setting leads on: its section is no other value than a mapping. -/
theorem Sectioned.not_endsBefore (h : Sectioned es) (hpart : part ∈ sections.map Prod.fst) :
    ¬(Value.mapping es).EndsBefore [part, key] := by
  obtain ⟨s, hs, rfl⟩ := List.mem_map.1 hpart
  intro hends
  obtain ⟨v, hv, hends⟩ := Value.endsBefore_mapping.1 hends
  obtain ⟨fs, rfl⟩ := Value.isMapping_iff.1 (h s hs v hv)
  obtain ⟨w, -, hends⟩ := Value.endsBefore_mapping.1 hends
  exact Value.not_endsBefore_nil hends

/-- Of a setting the upper document counts if it says anything of it, and else the lower one. -/
theorem agrees_layAll (hpart : part ∈ sections.map Prod.fst) (h : Sectioned es)
    (hes : (Value.mapping es).isDocument = true) :
    Agrees ((leaf? part key es).or (leaf? part key base)) (leaf? part key (layAll base es)) := by
  have hlaid : layOver (some (.mapping base)) (.mapping es) = .mapping (layAll base es) :=
    layOver_mapping (Value.isDocument_mapping.1 hes).1 _
  rw [leaf?_eq_atWay?, leaf?_eq_atWay?, leaf?_eq_atWay?, ← hlaid]
  cases hsaid : (Value.mapping es).atWay? [part, key] with
  | some v =>
    rw [atWay?_layOver _ hes hsaid, Option.some_or]
    exact agrees_layOver _ v
  | none =>
    rw [atWay?_layOver_of_none _ hes hsaid (h.not_endsBefore hpart), Option.none_or]
    exact .refl _

theorem Agrees.or_right {above said found : Option Value} (h : Agrees said found) :
    Agrees (above.or said) (above.or found) := by
  cases above with
  | none => simpa using h
  | some v => exact .refl _

theorem Agrees.trans {said mid found : Option Value} (h : Agrees said mid) (h' : Agrees mid found) :
    Agrees said found := by
  rcases h with rfl | ⟨es, fs, rfl, rfl⟩
  · exact h'
  rcases h' with rfl | ⟨_, gs, -, rfl⟩
  · exact .inr ⟨es, fs, rfl, rfl⟩
  · exact .inr ⟨es, gs, rfl, rfl⟩

/-- What the highest of some documents says of a setting that says anything of it. -/
def highest? (part key : String) (documents : List (Option Value)) : Option Value :=
  documents.reverse.findSome? fun document => leaf? part key (entriesOf document)

theorem highest?_cons (document : Option Value) (above : List (Option Value)) :
    highest? part key (document :: above) =
      (highest? part key above).or (leaf? part key (entriesOf document)) := by
  rw [highest?, highest?, List.reverse_cons, List.findSome?_append, List.findSome?_singleton]

/-- A document that may be a layer: no key stands twice in it, and its sections are mappings. -/
def IsLayer (document : Option Value) : Prop :=
  (Value.mapping (entriesOf document)).isDocument = true ∧ Sectioned (entriesOf document)

instance (document : Option Value) : Decidable (IsLayer document) := by
  unfold IsLayer
  infer_instance

/-- Laid over each other from the lowest on, documents say of a setting what the highest says that
says anything of it. -/
theorem agrees_layers (hpart : part ∈ sections.map Prod.fst) (key : String) :
    ∀ {documents : List (Option Value)} {base config : List (String × Value)},
      layers base documents = .ok config → Sectioned base → (∀ d ∈ documents, IsLayer d) →
        Sectioned config ∧
          Agrees ((highest? part key documents).or (leaf? part key base)) (leaf? part key config)
  | [], base, config, h, hbase, _ => by
    cases h
    exact ⟨hbase, .refl _⟩
  | document :: above, base, config, h, hbase, hdocuments => by
    obtain ⟨⟨hes, hsectioned⟩, habove⟩ := List.forall_mem_cons.1 hdocuments
    obtain ⟨es, hlayer, hrest⟩ := Outcome.bind_ok.1 h
    obtain rfl := eq_entriesOf_of_layer hlayer
    have hkeys := (Value.isDocument_mapping.1 hes).1
    obtain ⟨hconfig, hagrees⟩ :=
      agrees_layers hpart key hrest (hbase.layAll hsectioned hkeys) habove
    refine ⟨hconfig, ?_⟩
    rw [highest?_cons, Option.or_assoc]
    exact (agrees_layAll hpart hsectioned hes).or_right.trans hagrees

/-! ### The two variables above the documents -/

variable {config config' : List (String × Value)} {value : Value}

/-- A value set in a section is found there, and every other setting is as it was. -/
theorem leaf?_setIn {part' key' : String} (h : setIn part key value config = .ok config') :
    leaf? part' key' config' =
      if part = part' ∧ key = key' then some value else leaf? part' key' config := by
  unfold setIn at h
  split at h
  · next fs hfs =>
    cases h
    by_cases hpart : part = part'
    · subst hpart
      have hlow : leaf? part key' config = Table.get? key' fs := by
        rw [leaf?]
        cases hget : Table.get? part config with
        | none =>
          rw [hget] at hfs
          cases hfs
          rfl
        | some v =>
          rw [hget] at hfs
          obtain rfl : v = .mapping fs := hfs
          rfl
      rw [leaf?, Table.get?_put_self, hlow]
      by_cases hkey : key = key'
      · subst hkey
        simp
      · simp [hkey, Table.get?_put_of_ne (Ne.symm hkey)]
    · rw [leaf?, Table.get?_put_of_ne (Ne.symm hpart), if_neg (fun h => hpart h.1), leaf?]
  · cases h

theorem Sectioned.setIn (hconfig : Sectioned config)
    (h : setIn part key value config = .ok config') : Sectioned config' := by
  unfold Config.setIn at h
  split at h
  · cases h
    intro s hs v hv
    by_cases hpart : s.1 = part
    · subst hpart
      rw [Table.get?_put_self, Option.mem_def] at hv
      rw [← Option.some.inj hv]
      rfl
    · rw [Table.get?_put_of_ne hpart] at hv
      exact hconfig s hs v hv
  · cases h

/-! ### Settings -/

/-- A setting: a field of a section. -/
structure Leaf where
  part : String
  field : Field
  shape : Shape

/-- All settings. -/
def leaves : List Leaf :=
  sections.flatMap fun s => s.2.fields.map fun f => ⟨s.1, f.1, f.2⟩

/-- What a variable says of the number of hops. What is no whole number is refused. -/
def hopsTold (setting : Option String) : Outcome (Option Value) :=
  match setting with
  | some text =>
    match whole? text.toList with
    | some n => .ok (some (.int n))
    | none => .error .badNumeral
  | none => .ok none

/-- The documents of a configuration, the lowest first. -/
def Sources.documents (s : Sources) : List (Option Value) :=
  [s.default, s.profile, s.explicit, s.overrides]

/-- What is said of a setting. The level of messages and the number of hops are told by their
variables, if these are not empty; everything else is told by the highest document that has it. -/
def Sources.told (s : Sources) (part key : String) : Outcome (Option Value) :=
  let documents := highest? part key s.documents
  if part = "app" ∧ key = "log_level" then
    .ok (((s.setting? levelVariable).map Value.text).or documents)
  else if part = "retriever" ∧ key = "max_hops" then
    (hopsTold (s.setting? hopsVariable)).map fun told => told.or documents
  else .ok documents

/-- The variables: those that are set, and those that the file adds. -/
def Sources.variables (s : Sources) : Outcome Environment :=
  match s.file with
  | some text => addFile s.environment text
  | none => .ok s.environment

/-- A configuration is put together in three steps: the documents, then one variable after the
other. -/
theorem assemble_ok {s : Sources} (h : assemble s = .ok config) :
    ∃ env laid levelled, s.variables = .ok env ∧ layers [] s.documents = .ok laid ∧
      setLevel env laid = .ok levelled ∧ setHops env levelled = .ok config := by
  have hbind : assemble s = s.variables >>= fun env => layers [] s.documents >>= fun laid =>
      setLevel env laid >>= fun levelled => setHops env levelled := by
    unfold assemble Sources.variables
    cases s.file <;> rfl
  rw [hbind] at h
  obtain ⟨env, henv, h⟩ := Outcome.bind_ok.1 h
  obtain ⟨laid, hlaid, h⟩ := Outcome.bind_ok.1 h
  obtain ⟨levelled, hlevel, hhops⟩ := Outcome.bind_ok.1 h
  exact ⟨env, laid, levelled, henv, hlaid, hlevel, hhops⟩

/-- The variables that count are those of the environment and of the file. -/
theorem setting?_eq {s : Sources} {env : Environment} (h : s.variables = .ok env) (name : String) :
    Config.setting? env name = s.setting? name := by
  have hget : Table.get? name env = s.valueOf? name := by
    unfold Sources.valueOf?
    unfold Sources.variables at h
    split at h
    · next text htext =>
      rw [htext]
      exact get?_addLines name h
    · next hnone =>
      cases h
      rw [hnone, Option.bind_none, Option.or_none]
  rw [Config.setting?, Sources.setting?, hget]
  cases s.valueOf? name with
  | none => rfl
  | some value =>
    rw [Option.bind_some, Option.filter_some]
    cases value.isEmpty <;> rfl

/-- The level of messages is told by its variable, if that is not empty. -/
theorem leaf?_setLevel {env : Environment} (h : setLevel env config = .ok config') :
    leaf? part key config' =
      if part = "app" ∧ key = "log_level" then
        ((Config.setting? env levelVariable).map Value.text).or (leaf? part key config)
      else leaf? part key config := by
  unfold setLevel at h
  split at h
  · next level hlevel =>
    rw [leaf?_setIn h, hlevel]
    simp only [eq_comm, Option.map_some, Option.some_or]
  · next hnone =>
    cases h
    simp [hnone]

theorem Sectioned.setLevel {env : Environment} (hconfig : Sectioned config)
    (h : setLevel env config = .ok config') : Sectioned config' := by
  unfold Config.setLevel at h
  split at h
  · exact hconfig.setIn h
  · cases h
    exact hconfig

/-- The number of hops is told by its variable, if that is not empty. -/
theorem leaf?_setHops {env : Environment} (h : setHops env config = .ok config')
    (part key : String) :
    ∃ told, hopsTold (Config.setting? env hopsVariable) = .ok told ∧
      leaf? part key config' =
        if part = "retriever" ∧ key = "max_hops" then told.or (leaf? part key config)
        else leaf? part key config := by
  cases hset : Config.setting? env hopsVariable with
  | some text =>
    cases hn : whole? text.toList with
    | some n =>
      have hin : setIn "retriever" "max_hops" (.int n) config = .ok config' := by
        simpa only [setHops, hset, hn] using h
      refine ⟨some (.int n), by simp only [hopsTold, hn], ?_⟩
      rw [leaf?_setIn hin]
      simp only [eq_comm, Option.some_or]
    | none => simp only [setHops, hset, hn, reduceCtorEq] at h
  | none =>
    simp only [setHops, hset, Except.ok.injEq] at h
    subst h
    exact ⟨none, rfl, by simp⟩

theorem Sectioned.setHops {env : Environment} (hconfig : Sectioned config)
    (h : setHops env config = .ok config') : Sectioned config' := by
  unfold Config.setHops at h
  split at h
  · split at h
    · exact hconfig.setIn h
    · cases h
  · cases h
    exact hconfig

/-- Before it is read, a configuration says of a setting what its sources tell of it. -/
theorem agrees_assemble {s : Sources} (hdocuments : ∀ d ∈ s.documents, IsLayer d)
    (h : assemble s = .ok config) (hpart : part ∈ sections.map Prod.fst) (key : String) :
    Sectioned config ∧ ∃ said, s.told part key = .ok said ∧ Agrees said (leaf? part key config) := by
  obtain ⟨env, laid, levelled, henv, hlaid, hlevel, hhops⟩ := assemble_ok h
  have hempty : Sectioned [] := by decide
  obtain ⟨hsectioned, hagrees⟩ := agrees_layers hpart key hlaid hempty hdocuments
  obtain ⟨told, htold, hentry⟩ := leaf?_setHops hhops part key
  refine ⟨(hsectioned.setLevel hlevel).setHops hhops, ?_⟩
  have hlow : leaf? part key ([] : List (String × Value)) = none := rfl
  rw [hlow, Option.or_none] at hagrees
  rw [setting?_eq henv] at htold
  rw [hentry, leaf?_setLevel hlevel, setting?_eq henv, Sources.told]
  by_cases hlevelKey : part = "app" ∧ key = "log_level"
  · have hother : ¬(part = "retriever" ∧ key = "max_hops") := by
      rintro ⟨rfl, -⟩
      exact absurd hlevelKey.1 (by decide)
    rw [if_pos hlevelKey, if_pos hlevelKey, if_neg hother]
    exact ⟨_, rfl, hagrees.or_right⟩
  · simp only [if_neg hlevelKey]
    by_cases hhopsKey : part = "retriever" ∧ key = "max_hops"
    · rw [if_pos hhopsKey, if_pos hhopsKey, htold]
      exact ⟨_, rfl, hagrees.or_right⟩
    · rw [if_neg hhopsKey, if_neg hhopsKey]
      exact ⟨_, rfl, hagrees⟩

/-! ### Reading the configuration -/

/-- What the settings have in common: one name, a fallback, and a shape that takes no mapping. -/
theorem forall_leaves : ∀ s ∈ sections, ∀ f ∈ s.2.fields, f.1.accepted = [f.1.name] ∧
    f.1.fallback.isSome = true ∧ takesMapping f.2 = false := by
  decide

theorem forall_sections : ∀ s ∈ sections, s.2 ≠ .worldState ∧
    (s.2.fields.map fun f => f.1.name).Nodup := by
  decide

/-- What was read of what is found was read of what was said: a setting takes no mapping. -/
theorem holds_of_agrees {f : Field} {shape : Shape} {said found : Option Value} {v : Value}
    (hshape : takesMapping shape = false) (h : Agrees said found)
    (hholds : Holds f shape found v) : Holds f shape said v := by
  rcases h with rfl | ⟨es, fs, rfl, rfl⟩
  · exact hholds
  · obtain ⟨w, hw, -⟩ := Verdict.andThen_accepted.1 hholds
    have hsame : f.rule.prepare (.mapping fs) = .mapping fs := by
      cases f.rule <;> rfl
    rw [hsame] at hw
    exact absurd hw (not_accepted_of_not_takesMapping fs w hshape)

variable {s : String × Kind}

/-- A section that was read holds in each of its fields what is found there. -/
theorem holds_section (hs : s ∈ sections) (hconfig : Sectioned config) {v : Value}
    (h : Holds (Shape.part s.1 s.2 s.2.fields).1 s.2.shape (Table.get? s.1 config) v)
    {f : Field × Shape} (hf : f ∈ s.2.fields) :
    ∃ x, v.field? f.1.name = some x ∧ Holds f.1 f.2 (leaf? s.1 f.1.name config) x := by
  obtain ⟨hworld, hnames⟩ := forall_sections s hs
  obtain ⟨haccepted, hfallback, -⟩ := forall_leaves s hs f hf
  rcases hconfig.leaf?_eq (List.mem_map_of_mem hs) f.1.name with
    ⟨hnone, hentry⟩ | ⟨es, hes, hentry⟩
  · obtain ⟨x, hx⟩ := Option.isSome_iff_exists.1 hfallback
    rw [hnone] at h
    obtain rfl : Shape.blank s.2 s.2.fields = v := Option.some.inj h
    rw [hentry]
    exact ⟨x, (field?_blank s.2 hnames hf).trans (by rw [hx]; rfl), hx⟩
  · rw [hes] at h
    obtain ⟨w, hw, hv⟩ := Verdict.andThen_accepted.1 h
    obtain rfl : w = v := by simpa [Shape.part, Shape.plain, Rule.check] using hv
    obtain ⟨fs, slots, extra, hfs, hslots, -, hwhole⟩ := record_accepted hw
    obtain rfl : es = fs := Value.mapping.inj hfs
    rw [prepare_of_ne hworld] at hslots
    obtain ⟨x, hx, hholds⟩ := holds_validateFields hslots hnames f hf
    rw [haccepted, map_given?_singleton] at hholds
    rw [eq_of_checkWhole hwhole, hentry]
    exact ⟨x, by rw [Value.field?, Table.get?_append, hx, Option.some_or], hholds⟩

/-- A configuration that was read holds in each section what is found there. -/
theorem holds_read (h : read .appConfigRoot (.mapping config) = .ok value) (hs : s ∈ sections) :
    ∃ v, value.field? s.1 = some v ∧
      Holds (Shape.part s.1 s.2 s.2.fields).1 s.2.shape (Table.get? s.1 config) v := by
  obtain ⟨es, slots, extra, hes, hslots, -, hwhole⟩ :=
    record_accepted (Verdict.outcome_ok.1 h)
  obtain rfl : config = es := Value.mapping.inj hes
  have hf : Shape.part s.1 s.2 s.2.fields ∈ Kind.appConfigRoot.fields :=
    fields_appConfigRoot ▸ List.mem_map_of_mem hs
  rw [prepare_of_ne (by decide)] at hslots
  obtain ⟨v, hv, hholds⟩ := holds_validateFields hslots (by decide) _ hf
  rw [show (Shape.part s.1 s.2 s.2.fields).1.accepted = [s.1] from rfl,
    map_given?_singleton] at hholds
  have hslot : Table.get? (.field s.1) slots = some v := hv
  rw [eq_of_checkWhole hwhole]
  exact ⟨v, by rw [Value.field?, Table.get?_append, hslot, Option.some_or], hholds⟩

/-- In a configuration that was loaded, each setting holds what its sources tell of it, read by its
shape and its rule, or else its fallback: the highest document that has it decides, and for two
settings a variable above all documents. -/
theorem load_precedence {s : Sources} (hdocuments : ∀ d ∈ s.documents, IsLayer d)
    (h : load s = .ok value) : ∀ leaf ∈ leaves, ∃ said v,
      s.told leaf.part leaf.field.name = .ok said ∧
        (value.field leaf.part).field? leaf.field.name = some v ∧
          Holds leaf.field leaf.shape said v := by
  intro leaf hleaf
  obtain ⟨t, ht, hleaf⟩ := List.mem_flatMap.1 hleaf
  obtain ⟨f, hf, rfl⟩ := List.mem_map.1 hleaf
  obtain ⟨config, hconfig, hread⟩ := Outcome.bind_ok.1 h
  obtain ⟨hsectioned, said, htold, hagrees⟩ :=
    agrees_assemble hdocuments hconfig (List.mem_map_of_mem ht) f.1.name
  obtain ⟨v, hv, hpart⟩ := holds_read hread ht
  obtain ⟨x, hx, hholds⟩ := holds_section ht hsectioned hpart hf
  obtain ⟨-, -, hshape⟩ := forall_leaves t ht f hf
  refine ⟨said, x, htold, ?_, holds_of_agrees hshape hagrees hholds⟩
  rw [Value.field, hv]
  exact hx

/-- Sources of all kinds. The level of messages is set to nothing in the environment, which the file
does not change; it assigns the number of hops twice. -/
def mixedSources : Sources where
  default := some (.mapping [
    ("app", .mapping [("log_level", .text "debug")]),
    ("retriever", .mapping [("max_hops", .int 4), ("max_secrets", .int 7)])])
  profile := some (.mapping [
    ("retriever", .mapping [("max_secrets", .int 9), ("max_beliefs", .int 1)])])
  explicit := none
  overrides := some (.mapping [("retriever", .mapping [("max_beliefs", .text "8")])])
  environment := [(levelVariable, "")]
  file := some ("WORLD_ENGINE_LOG_LEVEL=error\n# hops\nWORLD_ENGINE_MAX_HOPS = \"6\"\n" ++
    "WORLD_ENGINE_MAX_HOPS=1\n")

theorem load_precedence_mixed : ∃ value, (∀ d ∈ mixedSources.documents, IsLayer d) ∧
    load mixedSources = .ok value ∧ ∀ leaf ∈ leaves, ∃ said v,
      mixedSources.told leaf.part leaf.field.name = .ok said ∧
        (value.field leaf.part).field? leaf.field.name = some v ∧
          Holds leaf.field leaf.shape said v := by
  have hlayers : ∀ d ∈ mixedSources.documents, IsLayer d := by decide +kernel
  obtain ⟨value, hload, -⟩ :=
    Outcome.exists_decided (load mixedSources) (fun _ => True) (by decide +kernel)
  exact ⟨value, hlayers, hload, load_precedence hlayers hload⟩

end Config

end StoryWorld
