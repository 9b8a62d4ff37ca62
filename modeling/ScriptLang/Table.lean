/-
Tables: values under names.

A table keeps its names in ascending order, so that two tables with the same content list it in the
same way.
-/

namespace ScriptLang

/-- Values under names. -/
structure Table (α : Type) where
  /-- The names with their values, in ascending order of the names. -/
  entries : List (String × α) := []

namespace Table

variable {α : Type}

/-- The table that holds nothing. -/
def empty : Table α := {}

instance : Inhabited (Table α) := ⟨empty⟩

/-- The value under a name. -/
def get? (t : Table α) (name : String) : Option α := t.entries.lookup name

/-- Whether there is a value under a name. -/
def contains (t : Table α) (name : String) : Bool := (t.get? name).isSome

/-- Puts an entry at its place, instead of an entry with the same name. -/
def insertEntry (name : String) (value : α) : List (String × α) → List (String × α)
  | [] => [(name, value)]
  | e :: es =>
    if name = e.1 then (name, value) :: es
    else if name < e.1 then (name, value) :: e :: es
    else e :: insertEntry name value es

/-- Puts a value under a name, instead of the value that was there. -/
def insert (t : Table α) (name : String) (value : α) : Table α :=
  ⟨insertEntry name value t.entries⟩

/-- The names. -/
def names (t : Table α) : List String := t.entries.map (·.1)

/-- How many names there are. -/
def size (t : Table α) : Nat := t.entries.length

/-- The table that holds the given entries, of which later ones win. -/
def ofList (entries : List (String × α)) : Table α :=
  entries.foldl (fun t e => t.insert e.1 e.2) empty

@[simp]
theorem get?_empty (name : String) : (empty : Table α).get? name = none := rfl

theorem lookup_cons_eq (name : String) (e : String × α) (es : List (String × α)) :
    (e :: es).lookup name = if name = e.1 then some e.2 else es.lookup name := by
  rw [List.lookup_cons]
  by_cases h : name = e.1
  · simp [h]
  · rw [beq_false_of_ne h, if_neg h]

theorem lookup_insertEntry (name other : String) (value : α) (es : List (String × α)) :
    (insertEntry name value es).lookup other =
      if other = name then some value else es.lookup other := by
  induction es with
  | nil => simp [insertEntry, lookup_cons_eq]
  | cons e es ih =>
    unfold insertEntry
    by_cases h : name = e.1
    · by_cases ho : other = e.1 <;> simp [lookup_cons_eq, h, ho]
    · by_cases hlt : name < e.1
      · simp [h, hlt, lookup_cons_eq]
      · by_cases ho : other = e.1
        · simp [h, hlt, lookup_cons_eq, ho, Ne.symm h]
        · simp [h, hlt, lookup_cons_eq, ho, ih]

/-- A value is found under its own name, and the other names keep theirs. -/
theorem get?_insert (t : Table α) (name other : String) (value : α) :
    (t.insert name value).get? other = if other = name then some value else t.get? other :=
  lookup_insertEntry name other value t.entries

@[simp]
theorem get?_insert_self (t : Table α) (name : String) (value : α) :
    (t.insert name value).get? name = some value := by
  simp [get?_insert]

theorem get?_insert_of_ne (t : Table α) {name other : String} (value : α) (h : other ≠ name) :
    (t.insert name value).get? other = t.get? other := by
  simp [get?_insert, h]

/-! ## Tables from lists -/

theorem get?_foldl_insert_of_not_mem {name : String} (entries : List (String × α)) (t : Table α)
    (h : name ∉ entries.map (·.1)) :
    (entries.foldl (fun t e => t.insert e.1 e.2) t).get? name = t.get? name := by
  induction entries generalizing t with
  | nil => rfl
  | cons e entries ih =>
    rw [List.map_cons, List.mem_cons, not_or] at h
    rw [List.foldl_cons, ih _ h.2, get?_insert_of_ne t e.2 h.1]

theorem get?_foldl_insert_of_mem {name : String} {value : α} {entries : List (String × α)} (t : Table α)
    (h : (name, value) ∈ entries) (hnodup : (entries.map (·.1)).Nodup) :
    (entries.foldl (fun t e => t.insert e.1 e.2) t).get? name = some value := by
  induction entries generalizing t with
  | nil => cases h
  | cons e entries ih =>
    rw [List.map_cons, List.nodup_cons] at hnodup
    rw [List.foldl_cons]
    rcases List.mem_cons.mp h with rfl | h
    · rw [get?_foldl_insert_of_not_mem entries _ hnodup.1, get?_insert_self]
    · exact ih _ h hnodup.2

theorem of_get?_foldl_insert {name : String} {value : α} (entries : List (String × α)) (t : Table α)
    (h : (entries.foldl (fun t e => t.insert e.1 e.2) t).get? name = some value) :
    t.get? name = some value ∨ (name, value) ∈ entries := by
  induction entries generalizing t with
  | nil => exact .inl h
  | cons e entries ih =>
    rcases ih (t.insert e.1 e.2) h with hget | hmem
    · rw [get?_insert] at hget
      split at hget
      next heq =>
        cases hget
        exact .inr (by simp [heq])
      next => exact .inl hget
    · exact .inr (List.mem_cons_of_mem e hmem)

/-- An entry is found under its name if no other entry has this name. -/
theorem get?_ofList_of_mem {name : String} {value : α} {entries : List (String × α)}
    (h : (name, value) ∈ entries) (hnodup : (entries.map (·.1)).Nodup) :
    (ofList entries).get? name = some value :=
  get?_foldl_insert_of_mem empty h hnodup

/-- What is in a table was put there. -/
theorem mem_of_get?_ofList {name : String} {value : α} {entries : List (String × α)}
    (h : (ofList entries).get? name = some value) : (name, value) ∈ entries :=
  (of_get?_foldl_insert entries empty h).resolve_left nofun

end Table

end ScriptLang
