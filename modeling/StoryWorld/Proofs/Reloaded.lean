import StoryWorld.Proofs.Storable
import StoryWorld.Proofs.Written
import StoryWorld.Story.Snapshot

/-!
A story that is saved, loaded and saved again.

The text that a story is saved as is read as the stored document with its keys in order, and that is
read as the story again, up to the order of keys and to whole numbers that are floats now. Saving
puts the keys in order, so both are saved as the same text and have the same fingerprint. A story
that was read can be saved if its numbers can be and it does not nest too deep, and only then.
-/

namespace StoryWorld

namespace Schema

/-! ### Parts that come wrapped -/

theorem unwrap_eq {key : String} {v : Value} (h : ∀ k w, v ≠ .mapping [(k, w)]) :
    unwrap key v = v := by
  unfold unwrap
  split
  · exact absurd rfl (h _ _)
  · rfl

theorem unwrapParts_eq : ∀ {es : List (String × Value)},
    (∀ e ∈ es, e.1 ∈ Table.keys wrappers → ∀ k w, e.2 ≠ .mapping [(k, w)]) → unwrapParts es = es
  | [], _ => rfl
  | (name, v) :: rest, h => by
    rw [List.forall_mem_cons] at h
    rw [unwrapParts, unwrapParts_eq h.2]
    split
    · next key hkey =>
      rw [unwrap_eq (h.1 (Decidable.not_not.1 fun hname => ?_))]
      rw [Table.get?_eq_none_iff.2 hname] at hkey
      cases hkey
    · rfl

theorem list_not_single {item : Shape} {room : Nat} {v w : Value} (hv : Held (.list item) v)
    (hw : storedIn room (.list item) v = .ok w) (k : String) (x : Value) :
    w.sorted ≠ .mapping [(k, x)] := by
  obtain ⟨ys, rfl, -⟩ := held_list hv
  obtain ⟨-, rfl⟩ := storedIn_list_ok.1 hw
  rw [Value.sorted_list]
  nofun

theorem record_not_single {kind : Kind} {fields : Fields} {room : Nat} {v w : Value}
    (horder : InOrder fields) (hkeep : kind.unknown = .keep) (hlength : 2 ≤ fields.length)
    (hv : Held (.record kind fields) v) (hw : storedIn room (.record kind fields) v = .ok w)
    (k : String) (x : Value) : w.sorted ≠ .mapping [(k, x)] := by
  obtain ⟨value, extra, h, rfl, -⟩ := heldEntity_of_validate horder hkeep hv
  obtain ⟨-, -, rfl⟩ := (storedIn_record_ok horder h.documents).1 hw
  rw [sorted_declaredEntries]
  intro heq
  have hsize := congrArg List.length (Value.mapping.inj heq)
  rw [(Table.sorted_perm _).length_eq, declaredEntries, List.length_append, List.length_map,
    List.length_singleton] at hsize
  omega

/-! ### The whole of a story -/

theorem inOrder_assets : InOrder Fields.assets := @inOrder_kind .assets rfl

theorem inOrder_worldState : InOrder Fields.worldState := @inOrder_kind .worldState rfl

/-- No part of a document is unwrapped if the parts that may come wrapped are given as something
else than a mapping with one key. -/
theorem prepare_declaredEntries {u : Field × Shape → Value} {extra : List (String × Value)}
    (hfresh : ∀ f ∈ Fields.worldState, f.1.external ∉ Table.keys extra)
    (hu : ∀ f ∈ Fields.worldState, f.1.external ∈ Table.keys wrappers →
      ∀ k w, u f ≠ .mapping [(k, w)]) :
    prepare .worldState (Table.sorted (declaredEntries Fields.worldState u ++ extra)) =
      Table.sorted (declaredEntries Fields.worldState u ++ extra) := by
  refine unwrapParts_eq fun e he hname => ?_
  rcases List.mem_append.1 (Table.mem_sorted.1 he) with he | he
  · obtain ⟨f, hf, rfl⟩ := List.mem_map.1 he
    exact hu f hf hname
  · have hwrappers : ∀ name ∈ Table.keys wrappers,
        name ∈ Fields.worldState.map fun f => f.1.external := by decide
    obtain ⟨f, hf, hexternal⟩ := List.mem_map.1 (hwrappers _ hname)
    exact absurd (List.mem_map.2 ⟨e, he, hexternal.symm⟩) (hfresh f hf)

/-- No part of a stored story is unwrapped when it is read: the parts that may come wrapped are
lists, or have many keys. -/
theorem prepare_stored {room : Nat} {v saved : Value} {es : List (String × Value)}
    (hv : Held Kind.worldState.shape v) (hsaved : storedIn room Kind.worldState.shape v = .ok saved)
    (hes : saved.sorted = .mapping es) : prepare .worldState es = es := by
  obtain ⟨value, extra, h, rfl, -⟩ := heldEntity_of_validate inOrder_worldState rfl hv
  obtain ⟨hok, -, rfl⟩ := (storedIn_record_ok inOrder_worldState h.documents).1 hsaved
  rw [sorted_declaredEntries] at hes
  cases hes
  refine prepare_declaredEntries (fun f hf => ?_) fun f hf hname => ?_
  · rw [Table.keys_mapValues]
    exact h.fresh f hf
  · have hheld := (h.held f hf).1
    have hstored := eq_kept (hok f hf)
    simp only [Fields.worldState, List.mem_cons, List.not_mem_nil, or_false] at hf
    -- Only the assets may come wrapped and are stored as a mapping.
    rcases hf with rfl | rfl | rfl | rfl | rfl | rfl | rfl | rfl
    case inr.inr.inr.inr.inl =>
      exact record_not_single inOrder_assets rfl (by decide) hheld hstored
    case inl => exact absurd hname (show "world" ∉ Table.keys wrappers by decide)
    case inr.inr.inr.inr.inr.inr.inr =>
      exact absurd hname (show "constraints" ∉ Table.keys wrappers by decide)
    all_goals exact list_not_single hheld hstored

/-- A story is read again from what it is stored as. -/
theorem restores_worldState : Restores Kind.worldState.shape :=
  Restores.record inOrder_worldState rfl
    (restores_of_storableFields Fields.worldState (@storableFields_kind .worldState rfl))
    (fun _ _ _ _ => prepare_stored) (fun _ _ _ _ => rfl)

/-- The numbers of a stored form can be stored if those of the value can. -/
theorem Saved.isStorable {room : Nat} {shape : Shape} {v saved : Value}
    (h : Saved room shape v saved) (hn : ∀ n ∈ v.numbers, n.isStorable = true) :
    ∀ n ∈ saved.numbers, n.isStorable = true := by
  have hzero : (Number.float 0.0).isStorable = true := by decide +kernel
  intro n hmem
  rcases h.numbers n hmem with h | rfl
  · exact hn n h
  · exact hzero

end Schema

namespace Story

open Schema

/-- The story of an entity that was read is that entity. -/
theorem toEntity_ofEntity {v : Value} (h : Held Kind.worldState.shape v) :
    (ofEntity v).toEntity = v := by
  obtain ⟨value, extra, -, rfl, -⟩ := heldEntity_of_validate inOrder_worldState rfl h
  have hextra := extras_declaredSlots Fields.worldState value extra
  unfold ofEntity toEntity
  simp only [hextra]
  rfl

theorem held_of_read {document : Value} {story : Story} (hd : document.isDocument = true)
    (h : read document = .ok story) : Held Kind.worldState.shape story.toEntity := by
  obtain ⟨v, hv, rfl⟩ := Outcome.map_ok.1 h
  have hheld : Held Kind.worldState.shape v := .inl ⟨document, hd, Verdict.outcome_ok.1 hv⟩
  rwa [toEntity_ofEntity hheld]

/-- What a story is saved as: the canonical text of its stored form. -/
theorem save_ok {story : Story} {text : List Char} : story.save = .ok text ↔
    ∃ saved, stored Kind.worldState.shape story.toEntity = .ok saved ∧
      Json.canonical? saved = some text := by
  rw [save, Outcome.bind_ok]
  refine exists_congr fun saved => and_congr_right fun _ => ?_
  unfold canonicalText
  split <;> simp_all

section Saved

variable {story : Story} {saved : Value} {text : List Char}
  (hheld : Held Kind.worldState.shape story.toEntity)
  (hn : ∀ n ∈ story.toEntity.numbers, n.isStorable = true)
  (hsaved : stored Kind.worldState.shape story.toEntity = .ok saved)
include hheld hsaved

/-- What the stored form of a story says about it. -/
theorem saved_stored : Saved storedLevels Kind.worldState.shape story.toEntity saved :=
  restores_worldState.saved _ _ _ hheld hsaved

include hn in
theorem numbers_stored : ∀ n ∈ saved.numbers, n.isStorable = true :=
  (saved_stored hheld hsaved).isStorable hn

include hn in
/-- A stored form can be written just if the story does not nest too deep. -/
theorem canonical?_stored : (∃ text, Json.canonical? saved = some text) ↔
    story.toEntity.nesting ≤ Json.writeDepth := by
  have h := saved_stored hheld hsaved
  rw [← h.nesting, ← Json.writable_iff h.document (numbers_stored hheld hn hsaved), Json.writable,
    Option.isSome_iff_exists]
  rfl

/-- What the stored form is read as again. -/
theorem held_restored :
    Held Kind.worldState.shape (restored Kind.worldState.shape story.toEntity) := by
  have h := saved_stored hheld hsaved
  exact .inl ⟨saved.sorted, Value.isDocument_sorted h.document, h.reads⟩

include hn in
/-- The text of a story is read as what its stored form is read as. -/
theorem load_canonical (htext : Json.canonical? saved = some text) :
    load text = .ok (ofEntity (restored Kind.worldState.shape story.toEntity)) := by
  have h := saved_stored hheld hsaved
  have hread := Json.read?_canonical? h.document (numbers_stored hheld hn hsaved) htext
  have hstory : read saved.sorted =
      .ok (ofEntity (restored Kind.worldState.shape story.toEntity)) := by
    rw [read, Schema.read, h.reads]
    rfl
  rw [load, hread]
  exact hstory

/-- The story that is loaded is saved as the same text. -/
theorem save_restored (hroom : story.toEntity.nesting < storedLevels)
    (htext : Json.canonical? saved = some text) :
    (ofEntity (restored Kind.worldState.shape story.toEntity)).save = .ok text := by
  obtain ⟨again, hagain, -, hsorted⟩ := (saved_stored hheld hsaved).again hroom
  refine save_ok.2 ⟨again, ?_, ?_⟩
  · rw [toEntity_ofEntity (held_restored hheld hsaved)]
    exact hagain
  · rw [Json.canonical?, ← Json.write?_sorted] at htext ⊢
    rwa [hsorted]

end Saved

section Reload

variable {document : Value} {story : Story} (hd : document.isDocument = true)
  (h : Story.read document = .ok story)
  (hn : ∀ n ∈ story.toEntity.numbers, n.isStorable = true)
include hd h hn

/-- A story that was read can be saved only if it does not nest too deep. -/
theorem nesting_of_save {text : List Char} (hsave : story.save = .ok text) :
    story.toEntity.nesting ≤ Json.writeDepth := by
  have hheld := held_of_read hd h
  obtain ⟨saved, hsaved, htext⟩ := save_ok.1 hsave
  exact (canonical?_stored hheld hn hsaved).1 ⟨text, htext⟩

/-- A story that was read, with numbers that can be stored and nesting no deeper than what can be
written, is saved as a text that loads, and the story that is loaded is saved as that text again and
has the same fingerprint. -/
theorem save_reload (hdepth : story.toEntity.nesting ≤ Json.writeDepth) :
    ∃ text again, story.save = .ok text ∧ load text = .ok again ∧ again.save = .ok text ∧
      again.fingerprint = story.fingerprint := by
  have hroom : story.toEntity.nesting < storedLevels := Nat.lt_succ_of_le hdepth
  have hheld := held_of_read hd h
  obtain ⟨saved, hsaved⟩ := restores_worldState.stores storedLevels _ hheld hroom
  obtain ⟨text, htext⟩ := (canonical?_stored hheld hn hsaved).2 hdepth
  have hsave : story.save = .ok text := save_ok.2 ⟨saved, hsaved, htext⟩
  have hagain := save_restored hheld hsaved hroom htext
  refine ⟨text, _, hsave, load_canonical hheld hn hsaved htext, hagain, ?_⟩
  rw [fingerprint, fingerprint, hsave, hagain]

end Reload

/-- The document of a story with a tie, a secret whose stats are left to their fallbacks, a float
and a key that no field is known by. -/
def scandalDocument : Value :=
  .mapping [("secrets", .list [.mapping [("id", .text "s")]]), ("mood", .float 0.1),
    ("relationships", .list [.mapping [("to", .text "b"), ("from", .text "a"), ("id", .text "r"),
      ("weights", .mapping [("trust", .int 5), ("fear", .float 2.5)])]])]

/-- Such a story is saved, loaded and saved again. -/
theorem save_reload_scandal : ∃ story text again, read scandalDocument = .ok story ∧
    story.save = .ok text ∧ load text = .ok again ∧ again.save = .ok text ∧
      again.fingerprint = story.fingerprint := by
  obtain ⟨story, hread, hn, hdepth⟩ := exists_read scandalDocument (fun story =>
    (∀ n ∈ story.toEntity.numbers, n.isStorable = true) ∧
      story.toEntity.nesting ≤ Json.writeDepth) (by decide +kernel)
  obtain ⟨text, again, hsave⟩ := save_reload (by decide +kernel) hread hn hdepth
  exact ⟨story, text, again, hread, hsave⟩

/-- Lists in one another. -/
def nested : Nat → Value
  | 0 => .list []
  | depth + 1 => .list [nested depth]

/-- A story that nests one level too deep is read, but it cannot be saved. -/
theorem save_refused_deep : ∃ story, read (.mapping [("x", nested 253)]) = .ok story ∧
    (∀ n ∈ story.toEntity.numbers, n.isStorable = true) ∧
      ¬ ∃ text again, story.save = .ok text ∧ load text = .ok again ∧ again.save = .ok text := by
  obtain ⟨story, hread, hn, hdepth⟩ := exists_read (.mapping [("x", nested 253)]) (fun story =>
    (∀ n ∈ story.toEntity.numbers, n.isStorable = true) ∧
      Json.writeDepth < story.toEntity.nesting) (by decide +kernel)
  refine ⟨story, hread, hn, ?_⟩
  rintro ⟨text, -, hsave, -⟩
  have hnesting := nesting_of_save (by decide +kernel) hread hn hsave
  omega

end Story

end StoryWorld
