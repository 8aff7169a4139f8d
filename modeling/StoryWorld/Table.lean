/-!
Tables: lists of keys with their values, in the order in which the keys came.

A key stands at most once. `put` keeps the place of a key that is present and adds a new one at the
end, so that an update never reorders a table.
-/

namespace StoryWorld.Table

variable {κ α β : Type} [DecidableEq κ]

/-- The value of a key. -/
def get? (key : κ) : List (κ × α) → Option α
  | [] => none
  | (k, v) :: rest => if k = key then some v else get? key rest

/-- Whether a key is present. -/
def has (key : κ) (table : List (κ × α)) : Bool := (get? key table).isSome

/-- Gives a key a value, at its old place or else at the end. -/
def put (key : κ) (value : α) : List (κ × α) → List (κ × α)
  | [] => [(key, value)]
  | (k, v) :: rest => if k = key then (k, value) :: rest else (k, v) :: put key value rest

/-- The keys in their order. -/
def keys (table : List (κ × α)) : List κ := table.map Prod.fst

/-- A table from pairs: of several values for one key the last one counts, at the place of the
first. -/
def ofPairs (pairs : List (κ × α)) : List (κ × α) :=
  pairs.foldl (fun table pair => put pair.1 pair.2 table) []

@[simp] theorem get?_nil (key : κ) : get? key ([] : List (κ × α)) = none := rfl

theorem get?_cons (key k : κ) (v : α) (rest : List (κ × α)) :
    get? key ((k, v) :: rest) = if k = key then some v else get? key rest := rfl

@[simp] theorem put_nil (key : κ) (value : α) : put key value [] = [(key, value)] := rfl

theorem put_cons (key k : κ) (value v : α) (rest : List (κ × α)) :
    put key value ((k, v) :: rest) =
      if k = key then (k, value) :: rest else (k, v) :: put key value rest := rfl

/-- Reading after a write gives the value written. -/
@[simp] theorem get?_put_self (key : κ) (value : α) (table : List (κ × α)) :
    get? key (put key value table) = some value := by
  induction table with
  | nil => simp [get?_cons]
  | cons entry rest ih =>
    obtain ⟨k, v⟩ := entry
    by_cases h : k = key <;> simp [put_cons, get?_cons, h, ih]

/-- A write leaves every other key alone. -/
theorem get?_put_of_ne {key other : κ} (h : other ≠ key) (value : α) (table : List (κ × α)) :
    get? other (put key value table) = get? other table := by
  induction table with
  | nil => simp [h.symm, get?_cons]
  | cons entry rest ih =>
    obtain ⟨k, v⟩ := entry
    by_cases hk : k = key
    · subst hk; simp [put_cons, get?_cons, h.symm]
    · by_cases ho : k = other
      · subst ho; simp [put_cons, get?_cons, hk]
      · simp [put_cons, get?_cons, hk, ho, ih]

/-- Writing what is there already changes nothing. -/
theorem put_of_get? {key : κ} {value : α} {table : List (κ × α)}
    (h : get? key table = some value) : put key value table = table := by
  induction table with
  | nil => simp at h
  | cons entry rest ih =>
    obtain ⟨k, v⟩ := entry
    by_cases hk : k = key
    · simp only [get?_cons, hk, if_true, Option.some.injEq] at h
      simp [put_cons, hk, h]
    · simp only [get?_cons, hk, if_false] at h
      simp [put_cons, hk, ih h]

/-- The first of two tables decides where it has the key. -/
theorem get?_append (key : κ) (table more : List (κ × α)) :
    get? key (table ++ more) = (get? key table).or (get? key more) := by
  induction table with
  | nil => simp
  | cons entry rest ih =>
    obtain ⟨k, v⟩ := entry
    by_cases hk : k = key <;> simp [get?_cons, hk, ih]

/-- Leaving out other keys does not change what is read. -/
theorem get?_filter {key : κ} {keep : κ × α → Bool} (h : ∀ v, keep (key, v) = true)
    (table : List (κ × α)) : get? key (table.filter keep) = get? key table := by
  induction table with
  | nil => rfl
  | cons entry rest ih =>
    obtain ⟨k, v⟩ := entry
    by_cases hk : k = key
    · subst hk; simp [h, get?_cons]
    · by_cases hp : keep (k, v) = true <;> simp [hp, get?_cons, hk, ih]

/-- What is read stands in the table. -/
theorem mem_of_get? {key : κ} {value : α} {table : List (κ × α)}
    (h : get? key table = some value) : (key, value) ∈ table := by
  induction table with
  | nil => simp at h
  | cons entry rest ih =>
    obtain ⟨k, v⟩ := entry
    by_cases hk : k = key
    · simp only [get?_cons, hk, if_true, Option.some.injEq] at h
      simp [hk, h]
    · simp only [get?_cons, hk, if_false] at h
      exact List.mem_cons_of_mem _ (ih h)

/-- A write brings in nothing but what is written. -/
theorem mem_put {key : κ} {value : α} {e : κ × α} {table : List (κ × α)}
    (h : e ∈ put key value table) : e = (key, value) ∨ e ∈ table := by
  induction table with
  | nil => simpa using h
  | cons entry rest ih =>
    obtain ⟨k, v⟩ := entry
    by_cases hk : k = key
    · subst hk
      rcases List.mem_cons.1 (by simpa [put_cons] using h) with h | h
      · exact .inl h
      · exact .inr (List.mem_cons_of_mem _ h)
    · rcases List.mem_cons.1 (by simpa [put_cons, hk] using h) with h | h
      · exact .inr (h ▸ List.mem_cons_self)
      · exact (ih h).imp_right (List.mem_cons_of_mem _)

end StoryWorld.Table
