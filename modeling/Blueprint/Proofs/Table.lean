import Blueprint.Table
import Mathlib.Data.List.Nodup

/-!
Look-ups, sizes and counts of finite maps. `Table.countValues` counts the entries whose value has a
property; a new key adds to it (`countValues_insert_new`), writing over a value of the same kind
leaves it (`countValues_insert_over`), and in a map of distinct keys removal takes away exactly the
removed value (`Distinct.countValues_erase`).
-/

set_option autoImplicit false

namespace Blueprint.Table

variable {κ α : Type} [DecidableEq κ]

@[simp] theorem get?_modify (t : Table κ α) (key other : κ) (change : α → α) :
    (t.modify key change).get? other =
      if key = other then (t.get? key).map change else t.get? other := by
  unfold modify
  cases hkey : t.get? key with
  | none =>
    by_cases h : key = other
    · subst h
      simp [hkey]
    · simp [h]
  | some value => by_cases h : key = other <;> simp [h]

theorem get?_insert_self (t : Table κ α) (key : κ) (value : α) :
    (t.insert key value).get? key = some value := by
  rw [get?_insert, if_pos rfl]

theorem get?_insert_of_ne (t : Table κ α) {key other : κ} (hne : key ≠ other) (value : α) :
    (t.insert key value).get? other = t.get? other := by
  rw [get?_insert, if_neg hne]

theorem get?_insert_eq_some {t : Table κ α} {key other : κ} {value found : α} :
    (t.insert key value).get? other = some found ↔
      key = other ∧ value = found ∨ key ≠ other ∧ t.get? other = some found := by
  rw [get?_insert]
  split_ifs with hkey <;> simp [hkey]

theorem mem_of_get? {t : Table κ α} {key : κ} {value : α} (h : t.get? key = some value) :
    (key, value) ∈ t.entries := by
  obtain ⟨entries⟩ := t
  change find key entries = some value at h
  induction entries with
  | nil => simp [find] at h
  | cons entry rest ih =>
    obtain ⟨k, v⟩ := entry
    by_cases hk : k = key
    · subst hk
      rw [find, if_pos rfl, Option.some.injEq] at h
      simp [h]
    · rw [find, if_neg hk] at h
      exact List.mem_cons_of_mem _ (ih h)

theorem find_append (key : κ) (first second : List (κ × α)) :
    find key (first ++ second) = (find key first).or (find key second) := by
  induction first with
  | nil => rfl
  | cons entry rest ih =>
    obtain ⟨k, v⟩ := entry
    by_cases hk : k = key
    · simp [find, hk]
    · simp [find, hk, ih]

theorem get?_eq_none_iff {t : Table κ α} {key : κ} : t.get? key = none ↔ key ∉ t.keys := by
  unfold get? keys
  induction t.entries with
  | nil => simp [find]
  | cons entry rest ih =>
    obtain ⟨k, v⟩ := entry
    by_cases hk : k = key
    · simp [find, hk]
    · simp [find, hk, ih, Ne.symm hk]

/-- No key has two entries. -/
def Distinct (t : Table κ α) : Prop := t.keys.Nodup

theorem Distinct.get?_of_mem {t : Table κ α} (h : t.Distinct) {key : κ} {value : α}
    (hmem : (key, value) ∈ t.entries) : t.get? key = some value := by
  obtain ⟨entries⟩ := t
  change (entries.map (·.1)).Nodup at h
  change find key entries = some value
  induction entries with
  | nil => simp at hmem
  | cons entry rest ih =>
    obtain ⟨k, v⟩ := entry
    rw [List.map_cons, List.nodup_cons] at h
    rcases List.mem_cons.mp hmem with heq | hrest
    · cases heq
      simp [find]
    · have hne : k ≠ key := fun hk ↦ h.1 (List.mem_map.mpr ⟨_, hrest, hk.symm⟩)
      rw [find, if_neg hne]
      exact ih hrest h.2

omit [DecidableEq κ] in
theorem distinct_empty : (empty : Table κ α).Distinct := List.nodup_nil

theorem mem_keys_put {key other : κ} {value : α} {entries : List (κ × α)}
    (h : other ∈ (put key value entries).map (·.1)) :
    other = key ∨ other ∈ entries.map (·.1) := by
  induction entries with
  | nil => simpa [put] using h
  | cons entry rest ih =>
    obtain ⟨k, v⟩ := entry
    by_cases hk : k = key
    · rw [put, if_pos hk, List.map_cons, List.mem_cons] at h
      exact h.imp_right (List.mem_cons_of_mem _)
    · rw [put, if_neg hk, List.map_cons, List.mem_cons] at h
      rcases h with rfl | h
      · simp
      · exact (ih h).imp_right (List.mem_cons_of_mem _)

theorem Distinct.insert {t : Table κ α} (h : t.Distinct) (key : κ) (value : α) :
    (t.insert key value).Distinct := by
  obtain ⟨entries⟩ := t
  change (entries.map (·.1)).Nodup at h
  change ((put key value entries).map (·.1)).Nodup
  induction entries with
  | nil => simp [put]
  | cons entry rest ih =>
    obtain ⟨k, v⟩ := entry
    rw [List.map_cons, List.nodup_cons] at h
    by_cases hk : k = key
    · subst hk
      simpa [put] using h
    · simp only [put, hk, ↓reduceIte, List.map_cons, List.nodup_cons]
      refine ⟨fun hmem ↦ ?_, ih h.2⟩
      rcases mem_keys_put hmem with heq | hrest
      · exact hk heq
      · exact h.1 hrest

theorem Distinct.erase {t : Table κ α} (h : t.Distinct) (key : κ) : (t.erase key).Distinct :=
  h.sublist (List.filter_sublist.map _)

theorem Distinct.modify {t : Table κ α} (h : t.Distinct) (key : κ) (change : α → α) :
    (t.modify key change).Distinct := by
  unfold Table.modify
  split
  · exact h.insert _ _
  · exact h

theorem insert_insert (t : Table κ α) (key : κ) (value other : α) :
    (t.insert key value).insert key other = t.insert key other := by
  obtain ⟨entries⟩ := t
  refine congrArg Table.mk ?_
  change put key other (put key value entries) = put key other entries
  induction entries with
  | nil => simp [put]
  | cons entry rest ih =>
    obtain ⟨k, v⟩ := entry
    by_cases hk : k = key
    · simp [put, hk]
    · simp [put, hk, ih]

theorem insert_self {t : Table κ α} {key : κ} {value : α} (h : t.get? key = some value) :
    t.insert key value = t := by
  obtain ⟨entries⟩ := t
  refine congrArg Table.mk ?_
  change find key entries = some value at h
  change put key value entries = entries
  induction entries with
  | nil => simp [find] at h
  | cons entry rest ih =>
    obtain ⟨k, v⟩ := entry
    by_cases hk : k = key
    · rw [find, if_pos hk, Option.some.injEq] at h
      simp [put, hk, h]
    · rw [find, if_neg hk] at h
      simp [put, hk, ih h]

theorem erase_insert (t : Table κ α) (key : κ) (value : α) :
    (t.insert key value).erase key = t.erase key := by
  obtain ⟨entries⟩ := t
  refine congrArg Table.mk ?_
  change drop key (put key value entries) = drop key entries
  induction entries with
  | nil => simp [put, drop]
  | cons entry rest ih =>
    obtain ⟨k, v⟩ := entry
    by_cases hk : k = key
    · simp [put, drop, hk]
    · simpa [put, drop, hk] using ih

theorem erase_of_none {t : Table κ α} {key : κ} (h : t.get? key = none) : t.erase key = t := by
  refine congrArg Table.mk (List.filter_eq_self.mpr fun entry hentry ↦ decide_eq_true ?_)
  rintro rfl
  exact get?_eq_none_iff.mp h (List.mem_map_of_mem hentry)

/-- A new key goes to the end. -/
theorem entries_insert_new {t : Table κ α} {key : κ} (h : t.get? key = none) (value : α) :
    (t.insert key value).entries = t.entries ++ [(key, value)] := by
  obtain ⟨entries⟩ := t
  change find key entries = none at h
  change put key value entries = entries ++ [(key, value)]
  induction entries with
  | nil => rfl
  | cons entry rest ih =>
    obtain ⟨k, v⟩ := entry
    have hk : k ≠ key := fun hk ↦ by simp [find, hk] at h
    rw [find, if_neg hk] at h
    rw [put, if_neg hk, ih h, List.cons_append]

theorem modify_of_none {t : Table κ α} {key : κ} (h : t.get? key = none) (change : α → α) :
    t.modify key change = t := by
  rw [modify, h]

theorem modify_of_some {t : Table κ α} {key : κ} {value : α} (h : t.get? key = some value)
    (change : α → α) : t.modify key change = t.insert key (change value) := by
  rw [modify, h]

/-- Assumes: a change that changes nothing. -/
theorem modify_same (t : Table κ α) (key : κ) {change : α → α}
    (hsame : ∀ value, t.get? key = some value → change value = value) : t.modify key change = t := by
  cases hkey : t.get? key with
  | none => exact modify_of_none hkey change
  | some value => rw [modify_of_some hkey, hsame value hkey, insert_self hkey]

theorem modify_modify (t : Table κ α) (key : κ) (first second : α → α) :
    (t.modify key first).modify key second = t.modify key fun value ↦ second (first value) := by
  cases hkey : t.get? key with
  | none => rw [modify_of_none hkey, modify_of_none hkey, modify_of_none hkey]
  | some value =>
    rw [modify_of_some hkey, modify_of_some hkey, modify_of_some (get?_insert_self _ _ _),
      insert_insert]

theorem size_insert_over {t : Table κ α} {key : κ} {value : α} (h : t.get? key = some value)
    (other : α) : (t.insert key other).size = t.size := by
  obtain ⟨entries⟩ := t
  change find key entries = some value at h
  change (put key other entries).length = entries.length
  induction entries with
  | nil => simp [find] at h
  | cons entry rest ih =>
    obtain ⟨k, v⟩ := entry
    by_cases hk : k = key
    · simp [put, hk]
    · rw [find, if_neg hk] at h
      simpa [put, hk] using ih h

theorem size_modify (t : Table κ α) (key : κ) (change : α → α) :
    (t.modify key change).size = t.size := by
  unfold Table.modify
  split
  · rename_i value h
    exact size_insert_over h _
  · rfl

theorem size_erase_lt {t : Table κ α} {key : κ} {value : α} (h : t.get? key = some value) :
    (t.erase key).size < t.size :=
  List.length_filter_lt_length_iff_exists.mpr ⟨(key, value), mem_of_get? h, by simp⟩

/-- How many entries have a value with a property. -/
def countValues (t : Table κ α) (holds : α → Bool) : Nat := t.entries.countP fun e ↦ holds e.2

theorem countValues_insert_new {t : Table κ α} {key : κ} (h : t.get? key = none) (value : α)
    (holds : α → Bool) :
    (t.insert key value).countValues holds =
      t.countValues holds + if holds value then 1 else 0 := by
  obtain ⟨entries⟩ := t
  change find key entries = none at h
  change (put key value entries).countP (fun e ↦ holds e.2) = entries.countP _ + _
  induction entries with
  | nil => simp [put, List.countP_cons]
  | cons entry rest ih =>
    obtain ⟨k, v⟩ := entry
    have hk : k ≠ key := fun hk ↦ by simp [find, hk] at h
    rw [find, if_neg hk] at h
    simp only [put, hk, ↓reduceIte, List.countP_cons, ih h]
    omega

theorem countValues_insert_over {t : Table κ α} {key : κ} {old : α} (h : t.get? key = some old)
    {value : α} {holds : α → Bool} (hsame : holds value = holds old) :
    (t.insert key value).countValues holds = t.countValues holds := by
  obtain ⟨entries⟩ := t
  change find key entries = some old at h
  change (put key value entries).countP (fun e ↦ holds e.2) = entries.countP _
  induction entries with
  | nil => simp [find] at h
  | cons entry rest ih =>
    obtain ⟨k, v⟩ := entry
    by_cases hk : k = key
    · rw [find, if_pos hk, Option.some.injEq] at h
      simp [put, hk, List.countP_cons, hsame, h]
    · rw [find, if_neg hk] at h
      simp [put, hk, List.countP_cons, ih h]

theorem countValues_modify (t : Table κ α) (key : κ) {change : α → α} {holds : α → Bool}
    (hsame : ∀ value, holds (change value) = holds value) :
    (t.modify key change).countValues holds = t.countValues holds := by
  unfold Table.modify
  split
  · rename_i value h
    exact countValues_insert_over h (hsame value)
  · rfl

theorem Distinct.countValues_erase {t : Table κ α} (hdistinct : t.Distinct) {key : κ} {value : α}
    (h : t.get? key = some value) (holds : α → Bool) :
    t.countValues holds = (t.erase key).countValues holds + if holds value then 1 else 0 := by
  obtain ⟨entries⟩ := t
  change (entries.map (·.1)).Nodup at hdistinct
  change find key entries = some value at h
  change entries.countP (fun e ↦ holds e.2) = (drop key entries).countP (fun e ↦ holds e.2) + _
  unfold drop
  induction entries with
  | nil => simp [find] at h
  | cons entry rest ih =>
    obtain ⟨k, v⟩ := entry
    rw [List.map_cons, List.nodup_cons] at hdistinct
    by_cases hk : k = key
    · subst hk
      rw [find, if_pos rfl, Option.some.injEq] at h
      have hrest : rest.filter (fun e ↦ decide (e.1 ≠ k)) = rest :=
        List.filter_eq_self.mpr fun e he ↦ decide_eq_true fun heq ↦
          hdistinct.1 (List.mem_map.mpr ⟨e, he, heq⟩)
      rw [List.filter_cons_of_neg (by simp), hrest, List.countP_cons, h]
    · rw [find, if_neg hk] at h
      rw [List.countP_cons, ih hdistinct.2 h, List.filter_cons_of_pos (by simpa using hk),
        List.countP_cons]
      omega

/-! ### One value changed -/

/-- The table with the value of a key changed, wherever it stands. -/
def mapAt (t : Table κ α) (key : κ) (change : α → α) : Table κ α :=
  ⟨t.entries.map fun entry ↦ (entry.1, if entry.1 = key then change entry.2 else entry.2)⟩

@[simp] theorem get?_mapAt (t : Table κ α) (key other : κ) (change : α → α) :
    (t.mapAt key change).get? other =
      (t.get? other).map fun value ↦ if other = key then change value else value := by
  obtain ⟨entries⟩ := t
  change find other (entries.map _) = (find other entries).map _
  induction entries with
  | nil => rfl
  | cons entry rest ih =>
    obtain ⟨k, v⟩ := entry
    rw [List.map_cons, find, find]
    split
    · rename_i hk
      rw [hk]
      rfl
    · exact ih

theorem insert_mapAt (t : Table κ α) (key other : κ) (change : α → α) (value : α) :
    (t.mapAt key change).insert other (if other = key then change value else value) =
      (t.insert other value).mapAt key change := by
  obtain ⟨entries⟩ := t
  refine congrArg Table.mk ?_
  change put other _ (entries.map _) = (put other value entries).map _
  induction entries with
  | nil => rfl
  | cons entry rest ih =>
    obtain ⟨k, v⟩ := entry
    by_cases hk : k = other
    · rw [List.map_cons, put, put, if_pos hk, if_pos hk, List.map_cons]
    · rw [List.map_cons, put, put, if_neg hk, if_neg hk, List.map_cons, ih]

theorem insert_mapAt_of_ne (t : Table κ α) {key other : κ} (hne : other ≠ key)
    (change : α → α) (value : α) :
    (t.mapAt key change).insert other value = (t.insert other value).mapAt key change := by
  have hinsert := t.insert_mapAt key other change value
  rwa [if_neg hne] at hinsert

theorem erase_mapAt (t : Table κ α) (key other : κ) (change : α → α) :
    (t.mapAt key change).erase other = (t.erase other).mapAt key change := by
  refine congrArg Table.mk ?_
  change drop other (t.entries.map _) = (drop other t.entries).map _
  rw [drop, drop, List.filter_map]
  rfl

/-- Assumes: two changes of the same value that can be made in either order. -/
theorem modify_mapAt (t : Table κ α) {key other : κ} {first second : α → α}
    (hcomm : other = key → ∀ value, second (first value) = first (second value)) :
    (t.mapAt key first).modify other second = (t.modify other second).mapAt key first := by
  cases hget : t.get? other with
  | none => rw [modify_of_none hget, modify_of_none (by simp [hget])]
  | some value =>
    rw [modify_of_some hget, ← insert_mapAt, modify_of_some (by rw [get?_mapAt, hget]; rfl)]
    congr 1
    split
    · rename_i hsame
      exact hcomm hsame value
    · rfl

/-- Assumes: a change that undoes the other. -/
theorem mapAt_modify (t : Table κ α) (key : κ) {first second : α → α}
    (hundo : ∀ value, second (first value) = second value) :
    (t.modify key first).mapAt key second = t.mapAt key second := by
  cases hget : t.get? key with
  | none => rw [modify_of_none hget]
  | some value =>
    rw [modify_of_some hget, ← insert_mapAt, if_pos rfl, hundo]
    exact insert_self (by rw [get?_mapAt, hget, Option.map_some, if_pos rfl])

/-! ### A property of all values -/

omit [DecidableEq κ] in
/-- All values have a property. -/
def All (P : α → Prop) (t : Table κ α) : Prop := ∀ entry ∈ t.entries, P entry.2

theorem mem_put {key : κ} {value : α} {entries : List (κ × α)} {entry : κ × α}
    (h : entry ∈ put key value entries) : entry = (key, value) ∨ entry ∈ entries := by
  induction entries with
  | nil => exact Or.inl (List.mem_singleton.mp h)
  | cons first rest ih =>
    obtain ⟨k, v⟩ := first
    rw [put] at h
    split at h
    · exact (List.mem_cons.mp h).imp_right (List.mem_cons_of_mem _)
    · rcases List.mem_cons.mp h with rfl | hrest
      · exact Or.inr List.mem_cons_self
      · exact (ih hrest).imp_right (List.mem_cons_of_mem _)

omit [DecidableEq κ] in
theorem All.mono {P Q : α → Prop} {t : Table κ α} (h : t.All P) (hmore : ∀ value, P value → Q value) :
    t.All Q := fun entry hentry ↦ hmore entry.2 (h entry hentry)

theorem All.get? {P : α → Prop} {t : Table κ α} (h : t.All P) {key : κ} {value : α}
    (hget : t.get? key = some value) : P value := h _ (mem_of_get? hget)

theorem All.insert {P : α → Prop} {t : Table κ α} (h : t.All P) (key : κ) {value : α}
    (hvalue : P value) : (t.insert key value).All P := fun entry hentry ↦ by
  rcases mem_put hentry with rfl | hold
  · exact hvalue
  · exact h entry hold

theorem All.modify {P : α → Prop} {t : Table κ α} (h : t.All P) (key : κ) {change : α → α}
    (hchange : ∀ value, P value → P (change value)) : (t.modify key change).All P := by
  unfold Table.modify
  split
  · rename_i value hget
    exact h.insert key (hchange value (h.get? hget))
  · exact h

theorem All.erase {P : α → Prop} {t : Table κ α} (h : t.All P) (key : κ) : (t.erase key).All P :=
  fun entry hentry ↦ h entry (List.mem_filter.mp hentry).1

omit [DecidableEq κ] in
theorem all_empty {P : α → Prop} : ({} : Table κ α).All P := List.forall_mem_nil _

theorem all_of_empty {P : α → Prop} {t : Table κ α} (h : ∀ key, t.get? key = none) : t.All P :=
  fun entry hentry ↦ absurd (List.mem_map_of_mem hentry) (get?_eq_none_iff.mp (h entry.1))

theorem all_ofList {P : α → Prop} {entries : List (κ × α)} (h : ∀ entry ∈ entries, P entry.2) :
    (ofList entries).All P :=
  List.foldlRecOn entries _ all_empty fun _ ht entry hentry ↦
    ht.insert entry.1 (h entry hentry)

end Blueprint.Table
