import Blueprint.Json.Reading
import Blueprint.Proofs.Table
import Mathlib.Data.List.Basic
import Mathlib.Data.List.Nodup

/-!
What a reader finds in a record. A record is written as an object or as an array of its fields.
`Source.fieldAt` says of the tree of a text what stands there in a field, by name or by place. A
part of a record that one field alone decides is what the reader of that field makes of it, or what
it was at the start where the field is missing (`Source.Decides.of_record`). A second member by one
name is refused, and so no later one can count.

Arrays are read item by item (`Source.readList_eq_ok_iff`). In a table of members the last one by a
name counts, and no name is left twice (`Source.readTable_eq_ok`).
-/

set_option autoImplicit false

namespace Blueprint

namespace Reading

theorem bind_eq_ok_iff {α β : Type} {reading : Reading α} {next : α → Reading β} {result : β} :
    reading >>= next = .ok result ↔ ∃ value, reading = .ok value ∧ next value = .ok result := by
  cases reading with
  | error fault => simp [bind, Except.bind]
  | ok value => simp [bind, Except.bind]

end Reading

/-- What is read of a whole text is read of its tree. -/
theorem SourceText.read_of_decode {α : Type} {text : SourceText} {read : Nat → Source → Reading α}
    {value : α} (h : text.decode read = .ok value) :
    read Source.depthLimit text.root = .ok value := by
  unfold SourceText.decode at h
  obtain ⟨found, hread, hends⟩ := Reading.bind_eq_ok_iff.mp h
  split at hends
  · rw [hread, hends]
  · cases hends

namespace Source

theorem deeper_eq_ok {depth inner : Nat} (h : deeper depth = .ok inner) : inner = depth - 1 := by
  unfold deeper at h
  split at h
  · cases h
  · exact (Except.ok.inj h).symm

/-! ### Fields -/

/-- What a record holds in a field: the member by its name, or the item at its place. -/
def fieldAt (name : String) (place : Nat) : Source → Option Source
  | .object members _ => Table.find (some name) members
  | .array items _ => items[place]?
  | _ => none

/-- What is done with a member of a record's object: it is skipped, or it is stored in a field that
was not met before. -/
theorem readMembersOf_cons_cases {σ : Type} {fields : List (Field σ)} {depth : Nat} {key : String}
    {value : Source} {rest : List (Option String × Source)} {seen later : List String}
    {before record : σ}
    (h : readMembersOf fields depth ((some key, value) :: rest) seen before = .ok (later, record)) :
    (fields.find? (·.name == key) = none ∧
        readMembersOf fields depth rest seen before = .ok (later, record)) ∨
      ∃ field middle, fields.find? (·.name == key) = some field ∧ key ∉ seen ∧
        field.store depth value before = .ok middle ∧
        readMembersOf fields depth rest (key :: seen) middle = .ok (later, record) := by
  rw [readMembersOf] at h
  split at h
  · rename_i hfind
    obtain ⟨-, -, hrest⟩ := Reading.bind_eq_ok_iff.mp h
    exact Or.inl ⟨hfind, hrest⟩
  · rename_i field hfind
    split at h
    · cases h
    · rename_i hseen
      obtain ⟨middle, hstore, hrest⟩ := Reading.bind_eq_ok_iff.mp h
      exact Or.inr ⟨field, middle, hfind, by simpa using hseen, hstore, hrest⟩

/-- What is done with the fields of a record's array: the first is stored from the first item, or
left out where there are no more items. -/
theorem readItemsOf_cons_cases {σ : Type} {name : String} {count depth position : Nat}
    {closed : Bool} {field : Field σ} {fields : List (Field σ)} {items : List Source}
    {before record : σ}
    (h : readItemsOf name count depth position closed (field :: fields) items before = .ok record) :
    (items = [] ∧
        readItemsOf name count depth (position + 1) closed fields [] before = .ok record) ∨
      ∃ item rest middle, items = item :: rest ∧ field.store depth item before = .ok middle ∧
        readItemsOf name count depth (position + 1) closed fields rest middle = .ok record := by
  cases items with
  | nil =>
    rw [readItemsOf] at h
    split at h
    · cases h
    · split at h
      · cases h
      · exact Or.inl ⟨rfl, h⟩
  | cons item rest =>
    rw [readItemsOf] at h
    obtain ⟨middle, hstore, hrest⟩ := Reading.bind_eq_ok_iff.mp h
    exact Or.inr ⟨item, rest, middle, rfl, hstore, hrest⟩

/-- A record is read from the members of an object or from the items of an array. -/
theorem readRecord_cases {σ : Type} {name : String} {fields : List (Field σ)} {start record : σ}
    {depth : Nat} {source : Source} (h : source.readRecord name fields start depth = .ok record) :
    (∃ members closed seen, source = .object members closed ∧
        readMembersOf fields (depth - 1) members [] start = .ok (seen, record)) ∨
      ∃ items closed, source = .array items closed ∧
        readItemsOf name fields.length (depth - 1) 0 closed fields items start = .ok record := by
  unfold readRecord at h
  split at h
  · rename_i members closed
    obtain ⟨inner, hinner, h⟩ := Reading.bind_eq_ok_iff.mp h
    obtain rfl := deeper_eq_ok hinner
    obtain ⟨⟨seen, final⟩, hmembers, h⟩ := Reading.bind_eq_ok_iff.mp h
    dsimp only at h
    split at h
    · cases h
    · split at h
      · cases h
      · obtain rfl := Except.ok.inj h
        exact Or.inl ⟨members, closed, seen, rfl, hmembers⟩
  · rename_i items closed
    obtain ⟨inner, hinner, h⟩ := Reading.bind_eq_ok_iff.mp h
    obtain rfl := deeper_eq_ok hinner
    exact Or.inr ⟨items, closed, rfl, h⟩
  · cases h

/-- A part of a record that the field of one name, at one place, decides alone. -/
structure Decides {σ α : Type} (fields : List (Field σ)) (name : String) (place : Nat)
    (part : σ → α) (read : Nat → Source → Reading α) : Prop where
  at_place : (fields.map (·.name))[place]? = some name
  once : (fields.map (·.name)).count name = 1
  store_eq : ∀ field ∈ fields, field.name = name → ∀ depth source before record,
    field.store depth source before = .ok record → read depth source = .ok (part record)
  keeps : ∀ field ∈ fields, field.name ≠ name → ∀ depth source before record,
    field.store depth source before = .ok record → part record = part before

namespace Decides

variable {σ α : Type} {fields : List (Field σ)} {name : String} {place : Nat} {part : σ → α}
  {read : Nat → Source → Reading α}

/-- Members of an object. With none by the name the part stays; otherwise it is read from the first
one, and none was met before. -/
theorem of_members (h : Decides fields name place part read) {depth : Nat}
    {members : List (Option String × Source)} {seen later : List String} {before record : σ}
    (hread : readMembersOf fields depth members seen before = .ok (later, record)) :
    (Table.find (some name) members = none ∧ part record = part before) ∨
      ∃ value, Table.find (some name) members = some value ∧
        read depth value = .ok (part record) ∧ name ∉ seen := by
  induction members generalizing seen before with
  | nil =>
    cases hread
    exact Or.inl ⟨rfl, rfl⟩
  | cons member rest ih =>
    obtain ⟨_ | key, value⟩ := member
    · cases hread
    obtain ⟨hfind, hrest⟩ | ⟨field, middle, hfind, hseen, hstore, hrest⟩ :=
      readMembersOf_cons_cases hread
    · have hkey : key ≠ name := by
        rintro rfl
        obtain ⟨field, hmem, hname⟩ := List.mem_map.mp (List.mem_of_getElem? h.at_place)
        simpa [hname] using List.find?_eq_none.mp hfind field hmem
      rw [Table.find, if_neg (fun heq ↦ hkey (Option.some.inj heq))]
      exact ih hrest
    · have hname : field.name = key := by simpa using List.find?_some hfind
      have hmem := List.mem_of_find?_eq_some hfind
      by_cases hkey : key = name
      · subst hkey
        refine Or.inr ⟨value, by rw [Table.find, if_pos rfl], ?_, hseen⟩
        -- The name has been met, so no later member bears it.
        obtain ⟨-, hsame⟩ | ⟨_, -, -, hnew⟩ := ih hrest
        · rw [hsame]
          exact h.store_eq field hmem hname depth value before middle hstore
        · exact absurd List.mem_cons_self hnew
      · have hkept := h.keeps field hmem (hname ▸ hkey) depth value before middle hstore
        rw [Table.find, if_neg (fun heq ↦ hkey (Option.some.inj heq)), ← hkept]
        refine (ih hrest).imp_right ?_
        rintro ⟨found, hfound, hpart, hnew⟩
        exact ⟨found, hfound, hpart, fun hold ↦ hnew (List.mem_cons_of_mem _ hold)⟩

/-- Items of an array, as far as no field among those left touches the part. -/
theorem part_of_items
    (hkeeps : ∀ field ∈ fields, ∀ depth source before record,
      field.store depth source before = .ok record → part record = part before)
    {title : String} {count depth position : Nat} {closed : Bool} {items : List Source}
    {before record : σ}
    (hread : readItemsOf title count depth position closed fields items before = .ok record) :
    part record = part before := by
  induction fields generalizing items before position with
  | nil =>
    cases items with
    | nil =>
      rw [readItemsOf] at hread
      split at hread
      · rw [Except.ok.inj hread]
      · cases hread
    | cons item items => cases hread
  | cons field fields ih =>
    obtain ⟨hfield, hfields⟩ := List.forall_mem_cons.mp hkeeps
    obtain ⟨rfl, hrest⟩ | ⟨item, rest, middle, rfl, hstore, hrest⟩ := readItemsOf_cons_cases hread
    · exact ih hfields hrest
    · exact (ih hfields hrest).trans (hfield depth item before middle hstore)

/-- Items of an array. With none at the place the part stays; otherwise it is read from that one. -/
theorem of_items (h : Decides fields name place part read) {title : String}
    {count depth position : Nat} {closed : Bool} {items : List Source} {before record : σ}
    (hread : readItemsOf title count depth position closed fields items before = .ok record) :
    (items[place]? = none ∧ part record = part before) ∨
      ∃ value, items[place]? = some value ∧ read depth value = .ok (part record) := by
  induction fields generalizing items before position place with
  | nil => exact absurd h.at_place (by simp)
  | cons field fields ih =>
    have honce := h.once
    rw [List.map_cons, List.count_cons] at honce
    obtain ⟨hstores, hstoresRest⟩ := List.forall_mem_cons.mp h.store_eq
    obtain ⟨hkeeps, hkeepsRest⟩ := List.forall_mem_cons.mp h.keeps
    cases place with
    | zero =>
      have hname : field.name = name := by simpa using h.at_place
      -- No field behind this one has the name, so none of them touches the part.
      have hothers : ∀ other ∈ fields, ∀ depth source before record,
          other.store depth source before = .ok record → part record = part before :=
        fun other hother ↦ hkeepsRest other hother fun heq ↦ by
          have hmem : name ∈ fields.map (·.name) := heq ▸ List.mem_map_of_mem hother
          have := List.count_pos_iff.mpr hmem
          simp [hname] at honce
          omega
      obtain ⟨rfl, hrest⟩ | ⟨item, rest, middle, rfl, hstore, hrest⟩ := readItemsOf_cons_cases hread
      · exact Or.inl ⟨rfl, part_of_items hothers hrest⟩
      · refine Or.inr ⟨item, rfl, ?_⟩
        rw [part_of_items hothers hrest]
        exact hstores hname depth item before middle hstore
    | succ place =>
      have hat : (fields.map (·.name))[place]? = some name := by simpa using h.at_place
      have hname : field.name ≠ name := fun heq ↦ by
        have := List.count_pos_iff.mpr (List.mem_of_getElem? hat)
        simp [heq] at honce
        omega
      have hlater : Decides fields name place part read :=
        ⟨hat, by simpa [hname] using honce, hstoresRest, hkeepsRest⟩
      obtain ⟨rfl, hrest⟩ | ⟨item, rest, middle, rfl, hstore, hrest⟩ := readItemsOf_cons_cases hread
      · simpa using ih hlater hrest
      · rw [← hkeeps hname depth item before middle hstore, List.getElem?_cons_succ]
        exact ih hlater hrest

theorem of_record (h : Decides fields name place part read) {title : String} {start record : σ}
    {depth : Nat} {source : Source}
    (hread : source.readRecord title fields start depth = .ok record) :
    (source.fieldAt name place = none ∧ part record = part start) ∨
      ∃ value, source.fieldAt name place = some value ∧
        read (depth - 1) value = .ok (part record) := by
  obtain ⟨members, closed, seen, rfl, hmembers⟩ | ⟨items, closed, rfl, hitems⟩ :=
    readRecord_cases hread
  · refine (h.of_members hmembers).imp_right ?_
    rintro ⟨value, hvalue, hpart, -⟩
    exact ⟨value, hvalue, hpart⟩
  · exact h.of_items hitems

end Decides

/-! ### Lists and tables -/

theorem mapM_eq_ok_iff {α : Type} {read : Source → Reading α} {items : List Source}
    {values : List α} : items.mapM read = .ok values ↔
      List.Forall₂ (fun item value ↦ read item = .ok value) items values := by
  induction items generalizing values with
  | nil =>
    rw [List.mapM_nil, List.forall₂_nil_left_iff]
    exact ⟨fun h ↦ (Except.ok.inj h).symm, fun h ↦ h ▸ rfl⟩
  | cons item rest ih =>
    rw [List.mapM_cons, Reading.bind_eq_ok_iff, List.forall₂_cons_left_iff]
    constructor
    · rintro ⟨value, hvalue, h⟩
      obtain ⟨more, hmore, h⟩ := Reading.bind_eq_ok_iff.mp h
      exact ⟨value, more, hvalue, ih.mp hmore, (Except.ok.inj h).symm⟩
    · rintro ⟨value, more, hvalue, hmore, rfl⟩
      exact ⟨value, hvalue, Reading.bind_eq_ok_iff.mpr ⟨more, ih.mpr hmore, rfl⟩⟩

/-- What is read from an array is read from its items, one from each. -/
theorem readList_eq_ok_iff {α : Type} {read : Nat → Source → Reading α} {depth : Nat}
    {source : Source} {values : List α} : readList read depth source = .ok values ↔
      ∃ items inner, source = .array items true ∧ deeper depth = .ok inner ∧
        List.Forall₂ (fun item value ↦ read inner item = .ok value) items values := by
  constructor
  · intro h
    unfold readList at h
    split at h
    · rename_i items closed
      obtain ⟨inner, hinner, h⟩ := Reading.bind_eq_ok_iff.mp h
      obtain ⟨found, hfound, h⟩ := Reading.bind_eq_ok_iff.mp h
      split at h
      · rename_i hclosed
        exact ⟨items, inner, by rw [hclosed], hinner, mapM_eq_ok_iff.mp (Except.ok.inj h ▸ hfound)⟩
      · cases h
    · cases h
  · rintro ⟨items, inner, rfl, hinner, hvalues⟩
    exact Reading.bind_eq_ok_iff.mpr ⟨inner, hinner,
      Reading.bind_eq_ok_iff.mpr ⟨values, mapM_eq_ok_iff.mpr hvalues, rfl⟩⟩

/-- The item of an array at a place. -/
def itemAt (place : Nat) : Source → Option Source
  | .array items _ => items[place]?
  | _ => none

theorem itemAt_of_readList {α : Type} {read : Nat → Source → Reading α} {depth : Nat}
    {source : Source} {values : List α} (h : readList read depth source = .ok values) {place : Nat}
    {value : α} (hvalue : values[place]? = some value) :
    ∃ item, source.itemAt place = some item ∧ read (depth - 1) item = .ok value := by
  obtain ⟨items, inner, rfl, hinner, hitems⟩ := readList_eq_ok_iff.mp h
  obtain rfl := deeper_eq_ok hinner
  obtain ⟨hplace, rfl⟩ := List.getElem?_eq_some_iff.mp hvalue
  have hitem : place < items.length := by rwa [hitems.length_eq]
  exact ⟨items[place], List.getElem?_eq_getElem hitem, hitems.get hitem hplace⟩

/-- The member of an object by a name, the later one of two. -/
def memberAt (name : String) : Source → Option Source
  | .object members _ => Table.find (some name) members.reverse
  | _ => none

section Members

variable {α : Type} {read : Source → Reading α}

/-- Adds a member to those read before, in place of an earlier one by its name. -/
def addMember (read : Source → Reading α) (done : List (String × α))
    (member : Option String × Source) : Reading (List (String × α)) := do
  let (some key, source) := member | .error .syntaxFault
  let value ← read source
  .ok (done.filter (fun entry ↦ entry.1 != key) ++ [(key, value)])

theorem addMember_eq_ok {done later : List (String × α)} {member : Option String × Source}
    (h : addMember read done member = .ok later) : ∃ key source value,
      member = (some key, source) ∧ read source = .ok value ∧
        later = Table.drop key done ++ [(key, value)] := by
  obtain ⟨_ | key, source⟩ := member
  · cases h
  · obtain ⟨value, hvalue, h⟩ := Reading.bind_eq_ok_iff.mp h
    refine ⟨key, source, value, rfl, hvalue, ?_⟩
    rw [← Except.ok.inj h, Table.drop]
    congr 1
    exact List.filter_congr fun entry _ ↦ by by_cases hkey : entry.1 = key <;> simp [hkey]

/-- Each name is left with what was read of the last member by it, or with what it had before. -/
theorem find_of_addMembers {members : List (Option String × Source)}
    {done result : List (String × α)}
    (h : members.foldlM (addMember read) done = .ok result) (name : String) :
    (∃ source value, Table.find (some name) members.reverse = some source ∧
        read source = .ok value ∧ Table.find name result = some value) ∨
      (Table.find (some name) members.reverse = none ∧
        Table.find name result = Table.find name done) := by
  induction members generalizing done with
  | nil =>
    obtain rfl := Except.ok.inj h
    exact Or.inr ⟨rfl, rfl⟩
  | cons member rest ih =>
    rw [List.foldlM_cons] at h
    obtain ⟨middle, hmiddle, hrest⟩ := Reading.bind_eq_ok_iff.mp h
    obtain ⟨key, source, value, rfl, hvalue, rfl⟩ := addMember_eq_ok hmiddle
    have hfind : Table.find name (Table.drop key done ++ [(key, value)]) =
        if key = name then some value else Table.find name done := by
      have hdrop := Table.get?_erase ⟨done⟩ key name
      rw [Table.find_append, show Table.find name (Table.drop key done) = _ from hdrop]
      by_cases hkey : key = name <;> simp [hkey, Table.find, Table.get?]
    rw [List.reverse_cons, Table.find_append]
    rcases ih hrest with ⟨last, found, hlast, hread, hresult⟩ | ⟨hnone, hsame⟩
    · exact Or.inl ⟨last, found, by rw [hlast, Option.some_or], hread, hresult⟩
    · rw [hnone, Option.none_or, hsame, hfind]
      by_cases hkey : key = name
      · exact Or.inl ⟨source, value, by simp [hkey, Table.find], hvalue, if_pos hkey⟩
      · exact Or.inr ⟨by simp [hkey, Table.find], if_neg hkey⟩

theorem nodup_of_addMembers {members : List (Option String × Source)}
    {done result : List (String × α)}
    (h : members.foldlM (addMember read) done = .ok result) (hdone : (done.map (·.1)).Nodup) :
    (result.map (·.1)).Nodup := by
  induction members generalizing done with
  | nil => exact Except.ok.inj h ▸ hdone
  | cons member rest ih =>
    rw [List.foldlM_cons] at h
    obtain ⟨middle, hmiddle, hrest⟩ := Reading.bind_eq_ok_iff.mp h
    obtain ⟨key, source, value, -, -, rfl⟩ := addMember_eq_ok hmiddle
    refine ih hrest ?_
    rw [List.map_append, List.map_singleton, List.nodup_append]
    refine ⟨hdone.sublist (List.filter_sublist.map _), List.nodup_singleton _, ?_⟩
    rintro other hother _ hkey rfl
    obtain ⟨entry, hentry, rfl⟩ := List.mem_map.mp hother
    simpa [List.mem_singleton.mp hkey] using (List.mem_filter.mp hentry).2

end Members

/-- What is read of an object as a table: under each name what is read of its last member, and no
name twice. -/
theorem readTable_eq_ok {α : Type} {read : Nat → Source → Reading α} {depth : Nat} {source : Source}
    {entries : List (String × α)} (h : readTable read depth source = .ok entries) :
    (entries.map (·.1)).Nodup ∧ ∀ name,
      (∃ member value, source.memberAt name = some member ∧ read (depth - 1) member = .ok value ∧
          Table.find name entries = some value) ∨
        (source.memberAt name = none ∧ Table.find name entries = none) := by
  unfold readTable at h
  split at h
  · rename_i members closed
    obtain ⟨inner, hinner, h⟩ := Reading.bind_eq_ok_iff.mp h
    obtain rfl := deeper_eq_ok hinner
    obtain ⟨found, hfound, h⟩ := Reading.bind_eq_ok_iff.mp h
    have hmembers : members.foldlM (addMember (read (depth - 1))) [] = .ok found := by
      rw [← hfound]
      refine congrArg (List.foldlM · [] members) ?_
      funext done member
      obtain ⟨_ | key, value⟩ := member <;> rfl
    split at h
    · obtain rfl := Except.ok.inj h
      exact ⟨nodup_of_addMembers hmembers List.nodup_nil, find_of_addMembers hmembers⟩
    · cases h
  · cases h

end Source

end Blueprint
