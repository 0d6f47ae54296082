/-!
Finite maps as lists of entries. An entry keeps its place when it is written over, and a new one
goes to the end, so the keys stand in the order of their first insertion.
-/

set_option autoImplicit false

namespace Blueprint

/-- A finite map. -/
structure Table (κ α : Type) where
  entries : List (κ × α) := []

namespace Table

variable {κ α : Type} [DecidableEq κ]

instance : Inhabited (Table κ α) := ⟨{}⟩

def empty : Table κ α := {}

/-- The first value of a key among entries. -/
def find (key : κ) : List (κ × α) → Option α
  | [] => none
  | (k, v) :: rest => if k = key then some v else find key rest

/-- Writes a key among entries. -/
def put (key : κ) (value : α) : List (κ × α) → List (κ × α)
  | [] => [(key, value)]
  | (k, v) :: rest => if k = key then (key, value) :: rest else (k, v) :: put key value rest

/-- Removes every entry of a key. -/
def drop (key : κ) (entries : List (κ × α)) : List (κ × α) :=
  entries.filter fun entry ↦ entry.1 ≠ key

def get? (t : Table κ α) (key : κ) : Option α := find key t.entries

def contains (t : Table κ α) (key : κ) : Bool := (t.get? key).isSome

def insert (t : Table κ α) (key : κ) (value : α) : Table κ α := ⟨put key value t.entries⟩

def erase (t : Table κ α) (key : κ) : Table κ α := ⟨drop key t.entries⟩

/-- Changes the value of a key that is present. -/
def modify (t : Table κ α) (key : κ) (change : α → α) : Table κ α :=
  match t.get? key with
  | some value => t.insert key (change value)
  | none => t

def keys (t : Table κ α) : List κ := t.entries.map (·.1)

def size (t : Table κ α) : Nat := t.entries.length

def isEmpty (t : Table κ α) : Bool := t.entries.isEmpty

/-- The table of some entries, later ones over earlier ones. -/
def ofList (entries : List (κ × α)) : Table κ α :=
  entries.foldl (fun t (k, v) ↦ t.insert k v) empty

@[simp] theorem get?_empty (key : κ) : (empty : Table κ α).get? key = none := rfl

@[simp] theorem get?_insert (t : Table κ α) (key other : κ) (value : α) :
    (t.insert key value).get? other = if key = other then some value else t.get? other := by
  unfold get? insert
  induction t.entries with
  | nil => simp [put, find]
  | cons entry rest ih =>
    obtain ⟨k, v⟩ := entry
    by_cases hk : k = key
    · subst hk
      by_cases ho : k = other <;> simp [put, find, ho]
    · by_cases ho : k = other
      · subst ho
        simp [put, find, hk, Ne.symm hk]
      · simp [put, find, hk, ho, ih]

@[simp] theorem get?_erase (t : Table κ α) (key other : κ) :
    (t.erase key).get? other = if key = other then none else t.get? other := by
  unfold get? erase drop
  induction t.entries with
  | nil => simp [find]
  | cons entry rest ih =>
    obtain ⟨k, v⟩ := entry
    by_cases hk : k = key
    · subst hk
      by_cases ho : k = other
      · simp_all
      · simp_all [find]
    · by_cases ho : k = other
      · subst ho
        simp [find, hk, Ne.symm hk]
      · simp_all [find]

end Table

end Blueprint
