import Blueprint.Proofs.Json.Rereading
import Mathlib.Data.String.Basic

/-!
What was read as JSON can be read again from its own tree (`toJson_ofJson`): the members of its
objects stand in order, and it nests no deeper than what it was read from. Its whole numbers fit
into a word (`legible_of_whole`).
-/

set_option autoImplicit false

namespace Blueprint

namespace Json

variable {key : String} {value : Json} {members : List (String × Json)}

/-- Members in the order of their keys, each key once. -/
def Ordered (members : List (String × Json)) : Prop := members.Pairwise fun a b ↦ a.1 < b.1

theorem mem_insertMember {member : String × Json} (h : member ∈ insertMember key value members) :
    member = (key, value) ∨ member ∈ members := by
  induction members with
  | nil => exact Or.inl (List.mem_singleton.mp h)
  | cons first rest ih =>
    unfold insertMember at h
    split at h
    · rcases List.mem_cons.mp h with rfl | hrest
      · exact Or.inl rfl
      · exact Or.inr (List.mem_cons_of_mem _ hrest)
    · split at h
      · exact List.mem_cons.mp h
      · rcases List.mem_cons.mp h with rfl | hrest
        · exact Or.inr List.mem_cons_self
        · exact (ih hrest).imp_right (List.mem_cons_of_mem _)

theorem Ordered.insertMember (h : Ordered members) : Ordered (insertMember key value members) := by
  induction members with
  | nil => exact List.pairwise_singleton _ _
  | cons first rest ih =>
    obtain ⟨hfirst, hrest⟩ := List.pairwise_cons.mp h
    unfold Json.insertMember
    split
    · rename_i heq
      obtain rfl : key = first.1 := eq_of_beq heq
      exact List.pairwise_cons.mpr ⟨hfirst, hrest⟩
    · rename_i hne
      split
      · rename_i hlt
        refine List.pairwise_cons.mpr ⟨fun member hmember ↦ ?_, h⟩
        rcases List.mem_cons.mp hmember with rfl | hmember
        · exact hlt
        · exact lt_trans hlt (hfirst member hmember)
      · rename_i hnot
        refine List.pairwise_cons.mpr ⟨fun member hmember ↦ ?_, ih hrest⟩
        rcases mem_insertMember hmember with rfl | hmember
        · exact lt_of_le_of_ne (not_lt.mp hnot) fun heq ↦ hne (beq_iff_eq.mpr heq.symm)
        · exact hfirst member hmember

/-- A key above all others goes to the end. -/
theorem insertMember_last (h : ∀ member ∈ members, member.1 < key) :
    insertMember key value members = members ++ [(key, value)] := by
  induction members with
  | nil => rfl
  | cons first rest ih =>
    obtain ⟨hfirst, hrest⟩ := List.forall_mem_cons.mp h
    have hne : ¬ (key == first.1) = true := fun heq ↦ ne_of_gt hfirst (eq_of_beq heq)
    unfold insertMember
    rw [if_neg hne, if_neg (not_lt.mpr hfirst.le), ih hrest, List.cons_append]

/-- The members of an object that was made from some members. -/
def sorted (members : List (String × Json)) : List (String × Json) :=
  members.foldl (fun done (k, v) ↦ insertMember k v done) []

theorem ordered_sorted (members : List (String × Json)) : Ordered (sorted members) := by
  have hfold (members done : List (String × Json)) (h : Ordered done) :
      Ordered (members.foldl (fun done (k, v) ↦ insertMember k v done) done) := by
    induction members generalizing done with
    | nil => exact h
    | cons first rest ih => exact ih _ h.insertMember
  exact hfold members [] .nil

theorem mem_sorted {member : String × Json} (h : member ∈ sorted members) : member ∈ members := by
  have hfold (members done : List (String × Json))
      (h : member ∈ members.foldl (fun done (k, v) ↦ insertMember k v done) done) :
      member ∈ done ∨ member ∈ members := by
    induction members generalizing done with
    | nil => exact Or.inl h
    | cons first rest ih =>
      rcases ih _ h with hdone | hrest
      · rcases mem_insertMember hdone with rfl | hdone
        · exact Or.inr List.mem_cons_self
        · exact Or.inl hdone
      · exact Or.inr (List.mem_cons_of_mem _ hrest)
  exact (hfold members [] h).resolve_left List.not_mem_nil

/-- Sorting what is in order changes nothing. -/
theorem sorted_of_ordered (h : Ordered members) : sorted members = members := by
  have hfold (members done : List (String × Json)) (h : Ordered (done ++ members)) :
      members.foldl (fun done (k, v) ↦ insertMember k v done) done = done ++ members := by
    induction members generalizing done with
    | nil => exact (List.append_nil done).symm
    | cons first rest ih =>
      obtain ⟨k, v⟩ := first
      have hlast : (match (k, v) with | (k, v) => insertMember k v done) = done ++ [(k, v)] :=
        insertMember_last fun member hmember ↦
          (List.pairwise_append.mp h).2.2 member hmember (k, v) List.mem_cons_self
      rw [List.foldl_cons, hlast, ih (done ++ [(k, v)]) (by simpa using h), List.append_assoc,
        List.singleton_append]
  exact hfold members [] h

end Json

namespace Source

theorem itemsToJson_eq_ok {depth : Nat} {item : Source} {rest : List Source} {values : List Json} :
    itemsToJson depth (item :: rest) = .ok values ↔ ∃ value more, item.toJson depth = .ok value ∧
      itemsToJson depth rest = .ok more ∧ values = value :: more := by
  rw [itemsToJson, Reading.bind_eq_ok_iff]
  constructor
  · rintro ⟨value, hvalue, h⟩
    obtain ⟨more, hmore, h⟩ := Reading.bind_eq_ok_iff.mp h
    exact ⟨value, more, hvalue, hmore, (Except.ok.inj h).symm⟩
  · rintro ⟨value, more, hvalue, hmore, rfl⟩
    exact ⟨value, hvalue, Reading.bind_eq_ok_iff.mpr ⟨more, hmore, rfl⟩⟩

theorem membersToJson_eq_ok {depth : Nat} {key : Option String} {value : Source}
    {rest : List (Option String × Source)} {members : List (String × Json)} :
    membersToJson depth ((key, value) :: rest) = .ok members ↔ ∃ name json more, key = some name ∧
      value.toJson depth = .ok json ∧ membersToJson depth rest = .ok more ∧
        members = (name, json) :: more := by
  cases key with
  | none => exact ⟨nofun, nofun⟩
  | some name =>
    rw [membersToJson, Reading.bind_eq_ok_iff]
    constructor
    · rintro ⟨json, hjson, h⟩
      obtain ⟨more, hmore, h⟩ := Reading.bind_eq_ok_iff.mp h
      exact ⟨name, json, more, rfl, hjson, hmore, (Except.ok.inj h).symm⟩
    · rintro ⟨other, json, more, hname, hjson, hmore, rfl⟩
      obtain rfl : name = other := Option.some.inj hname
      exact ⟨json, hjson, Reading.bind_eq_ok_iff.mpr ⟨more, hmore, rfl⟩⟩

theorem toJson_array_eq_ok {depth : Nat} {items : List Source} {closed : Bool} {json : Json} :
    (array items closed).toJson depth = .ok json ↔ ∃ inner values, deeper depth = .ok inner ∧
      itemsToJson inner items = .ok values ∧ closed = true ∧ json = .array values := by
  rw [toJson, Reading.bind_eq_ok_iff]
  constructor
  · rintro ⟨inner, hinner, h⟩
    obtain ⟨values, hvalues, h⟩ := Reading.bind_eq_ok_iff.mp h
    split at h
    · rename_i hclosed
      exact ⟨inner, values, hinner, hvalues, hclosed, (Except.ok.inj h).symm⟩
    · cases h
  · rintro ⟨inner, values, hinner, hvalues, rfl, rfl⟩
    exact ⟨inner, hinner, Reading.bind_eq_ok_iff.mpr ⟨values, hvalues, rfl⟩⟩

theorem toJson_object_eq_ok {depth : Nat} {members : List (Option String × Source)} {closed : Bool}
    {json : Json} :
    (object members closed).toJson depth = .ok json ↔ ∃ inner values, deeper depth = .ok inner ∧
      membersToJson inner members = .ok values ∧ closed = true ∧
        json = .object (Json.sorted values) := by
  rw [toJson, Reading.bind_eq_ok_iff]
  constructor
  · rintro ⟨inner, hinner, h⟩
    obtain ⟨values, hvalues, h⟩ := Reading.bind_eq_ok_iff.mp h
    split at h
    · rename_i hclosed
      exact ⟨inner, values, hinner, hvalues, hclosed, (Except.ok.inj h).symm⟩
    · cases h
  · rintro ⟨inner, values, hinner, hvalues, rfl, rfl⟩
    exact ⟨inner, hinner, Reading.bind_eq_ok_iff.mpr ⟨values, hvalues, rfl⟩⟩

theorem membersToJson_ofMembers {depth : Nat} {members : List (String × Json)}
    (h : ∀ member ∈ members, (ofJson member.2).toJson depth = .ok member.2) :
    membersToJson depth (ofMembers members) = .ok members := by
  induction members with
  | nil => rfl
  | cons member rest ih =>
    obtain ⟨hmember, hrest⟩ := List.forall_mem_cons.mp h
    exact membersToJson_eq_ok.mpr ⟨member.1, member.2, rest, rfl, hmember, ih hrest, rfl⟩

mutual

/-- What was read is read again from its own tree. -/
theorem toJson_ofJson {depth : Nat} {source : Source} {json : Json}
    (h : source.toJson depth = .ok json) : (ofJson json).toJson depth = .ok json := by
  cases source with
  | null => rw [← Except.ok.inj h]; rfl
  | bool b => rw [← Except.ok.inj h]; rfl
  | number value =>
    cases value with
    | none => cases h
    | some n => rw [← Except.ok.inj h]; rfl
  | string value =>
    cases value with
    | none => cases h
    | some s => rw [← Except.ok.inj h]; rfl
  | broken => cases h
  | array items closed =>
    obtain ⟨inner, values, hinner, hvalues, -, rfl⟩ := toJson_array_eq_ok.mp h
    exact toJson_array_eq_ok.mpr ⟨inner, values, hinner, itemsToJson_ofItems hvalues, rfl, rfl⟩
  | object members closed =>
    obtain ⟨inner, values, hinner, hvalues, -, rfl⟩ := toJson_object_eq_ok.mp h
    refine toJson_object_eq_ok.mpr ⟨inner, Json.sorted values, hinner, ?_, rfl, ?_⟩
    · exact membersToJson_ofMembers fun member hmember ↦
        settled_members hvalues member (Json.mem_sorted hmember)
    · rw [Json.sorted_of_ordered (Json.ordered_sorted values)]

theorem itemsToJson_ofItems {depth : Nat} {items : List Source} {values : List Json}
    (h : itemsToJson depth items = .ok values) :
    itemsToJson depth (ofItems values) = .ok values := by
  cases items with
  | nil => rw [← Except.ok.inj h]; rfl
  | cons item rest =>
    obtain ⟨value, more, hvalue, hmore, rfl⟩ := itemsToJson_eq_ok.mp h
    exact itemsToJson_eq_ok.mpr
      ⟨value, more, toJson_ofJson hvalue, itemsToJson_ofItems hmore, rfl⟩

theorem settled_members {depth : Nat} {members : List (Option String × Source)}
    {values : List (String × Json)} (h : membersToJson depth members = .ok values) :
    ∀ member ∈ values, (ofJson member.2).toJson depth = .ok member.2 := by
  cases members with
  | nil => rw [← Except.ok.inj h]; exact nofun
  | cons member rest =>
    obtain ⟨key, value⟩ := member
    obtain ⟨name, json, more, -, hjson, hmore, rfl⟩ := membersToJson_eq_ok.mp h
    exact List.forall_mem_cons.mpr ⟨toJson_ofJson hjson, settled_members hmore⟩

end

/-! ### The numbers of what was read -/

mutual

/-- The numbers of a tree. -/
def numbers : Source → List JsonNumber
  | .number (some n) => [n]
  | .array items _ => numbersOfItems items
  | .object members _ => numbersOfMembers members
  | .number none | .null | .bool _ | .string _ | .broken => []

def numbersOfItems : List Source → List JsonNumber
  | [] => []
  | item :: rest => numbers item ++ numbersOfItems rest

def numbersOfMembers : List (Option String × Source) → List JsonNumber
  | [] => []
  | (_, value) :: rest => numbers value ++ numbersOfMembers rest

end

theorem mem_numbersOfMembers {members : List (String × Json)} {n : JsonNumber} :
    n ∈ Json.numbersOfMembers members ↔ ∃ member ∈ members, n ∈ member.2.numbers := by
  induction members with
  | nil => simp [Json.numbersOfMembers]
  | cons member rest ih => simp [Json.numbersOfMembers, ih]

mutual

theorem numbers_toJson {depth : Nat} {source : Source} {json : Json}
    (h : source.toJson depth = .ok json) : ∀ n ∈ json.numbers, n ∈ source.numbers := by
  cases source with
  | null => rw [← Except.ok.inj h]; exact nofun
  | bool b => rw [← Except.ok.inj h]; exact nofun
  | number value =>
    cases value with
    | none => cases h
    | some n => rw [← Except.ok.inj h]; exact fun n hn ↦ hn
  | string value =>
    cases value with
    | none => cases h
    | some s => rw [← Except.ok.inj h]; exact nofun
  | broken => cases h
  | array items closed =>
    obtain ⟨inner, values, -, hvalues, -, rfl⟩ := toJson_array_eq_ok.mp h
    exact numbers_itemsToJson hvalues
  | object members closed =>
    obtain ⟨inner, values, -, hvalues, -, rfl⟩ := toJson_object_eq_ok.mp h
    intro n hn
    obtain ⟨member, hmember, hn⟩ := mem_numbersOfMembers.mp hn
    exact numbers_membersToJson hvalues n
      (mem_numbersOfMembers.mpr ⟨member, Json.mem_sorted hmember, hn⟩)

theorem numbers_itemsToJson {depth : Nat} {items : List Source} {values : List Json}
    (h : itemsToJson depth items = .ok values) :
    ∀ n ∈ Json.numbersOfItems values, n ∈ numbersOfItems items := by
  cases items with
  | nil => rw [← Except.ok.inj h]; exact nofun
  | cons item rest =>
    obtain ⟨value, more, hvalue, hmore, rfl⟩ := itemsToJson_eq_ok.mp h
    exact fun n hn ↦ List.mem_append.mpr ((List.mem_append.mp hn).imp (numbers_toJson hvalue n)
      (numbers_itemsToJson hmore n))

theorem numbers_membersToJson {depth : Nat} {members : List (Option String × Source)}
    {values : List (String × Json)} (h : membersToJson depth members = .ok values) :
    ∀ n ∈ Json.numbersOfMembers values, n ∈ numbersOfMembers members := by
  cases members with
  | nil => rw [← Except.ok.inj h]; exact nofun
  | cons member rest =>
    obtain ⟨key, value⟩ := member
    obtain ⟨name, json, more, -, hjson, hmore, rfl⟩ := membersToJson_eq_ok.mp h
    exact fun n hn ↦ List.mem_append.mpr ((List.mem_append.mp hn).imp (numbers_toJson hjson n)
      (numbers_membersToJson hmore n))

end

/-- A number that fits into a word if it is whole. -/
def Sized : JsonNumber → Prop
  | .whole n => OneWord n
  | .real _ => True

theorem takeWord_lt {n : Nat} (h : n < UInt64.size) (digits : List Nat) :
    (takeWord n digits).1 < UInt64.size := by
  induction digits generalizing n with
  | nil => exact h
  | cons d rest ih =>
    unfold takeWord
    split
    · rename_i hnext
      exact ih hnext
    · exact h

theorem sized_value {l : Literal} {n : JsonNumber} (h : l.value = some n) : Sized n := by
  -- A floating-point number is of any size.
  have hreal {n : JsonNumber} (h : (do
      let x ← l.toFloat?
      if h : x.isFinite = true then some (JsonNumber.real ⟨x, h⟩) else none) = some n) :
      Sized n := by
    obtain ⟨x, -, h⟩ := Option.bind_eq_some_iff.mp h
    split at h
    · rw [← Option.some.inj h]
      trivial
    · cases h
  have hword : (takeWord 0 l.whole).1 < 2 ^ 64 := takeWord_lt (by decide) l.whole
  unfold Literal.value at h
  dsimp only at h
  split at h
  · split at h
    · exact hreal h
    · split at h
      · rw [← Option.some.inj h]
        exact ⟨by omega, by omega⟩
      · split at h
        · exact hreal h
        · rename_i hsmall
          rw [← Option.some.inj h]
          simp only [Bool.or_eq_true, decide_eq_true_eq, not_or, Nat.not_lt] at hsmall
          have hlow : (takeWord 0 l.whole).1 ≤ 2 ^ 63 := hsmall.2
          exact ⟨by omega, by omega⟩
  · exact hreal h

theorem sized_none : ∀ n ∈ ([] : List JsonNumber), Sized n := fun _ hn ↦
  absurd hn List.not_mem_nil

theorem sized_readNumber (text : List UInt8) : ∀ n ∈ (readNumber text).1.numbers, Sized n := by
  unfold readNumber
  split
  · rename_i l rest hliteral
    cases hvalue : l.value with
    | none => exact sized_none
    | some n =>
      intro m hm
      obtain rfl : m = n := List.mem_singleton.mp hm
      exact sized_value hvalue
  · exact sized_none

theorem sized_readWord {word : String} {value : Source} (hvalue : value.numbers = [])
    (text : List UInt8) : ∀ n ∈ (readWord word value text).1.numbers, Sized n := by
  rcases readWord_fst word value text with h | h <;> rw [h]
  · rw [hvalue]
    exact sized_none
  · exact sized_none

section

variable {fuel : Nat}

theorem sized_readValue_succ (hitems : ∀ text, ∀ n ∈ numbersOfItems (readItems fuel text).1, Sized n)
    (hmembers : ∀ text, ∀ n ∈ numbersOfMembers (readMembers fuel text).1, Sized n)
    (text : List UInt8) : ∀ n ∈ (readValue (fuel + 1) text).1.numbers, Sized n := by
  unfold readValue
  split
  · exact sized_none
  · split
    · exact sized_readWord rfl _
    · split
      · exact sized_readWord rfl _
      · split
        · exact sized_readWord rfl _
        · split
          · split <;> exact sized_none
          · split
            · split
              · exact sized_none
              · exact hitems _
            · split
              · split
                · exact sized_none
                · exact hmembers _
              · exact sized_readNumber _

theorem sized_readItems_succ (hvalue : ∀ text, ∀ n ∈ (readValue fuel text).1.numbers, Sized n)
    (hitems : ∀ text, ∀ n ∈ numbersOfItems (readItems fuel text).1, Sized n) (text : List UInt8) :
    ∀ n ∈ numbersOfItems (readItems (fuel + 1) text).1, Sized n := by
  unfold readItems
  have hitem := hvalue text
  generalize readValue fuel text = first at hitem
  have hmore {items : List Source} (hitems : ∀ n ∈ numbersOfItems items, Sized n) :
      ∀ n ∈ numbersOfItems (first.1 :: items), Sized n := fun n hn ↦
    (List.mem_append.mp hn).elim (hitem n) (hitems n)
  dsimp only
  split
  · exact hmore sized_none
  · split
    · exact hmore sized_none
    · exact hmore (hitems _)
  · exact hmore sized_none

theorem sized_readMembers_succ (hvalue : ∀ text, ∀ n ∈ (readValue fuel text).1.numbers, Sized n)
    (hmembers : ∀ text, ∀ n ∈ numbersOfMembers (readMembers fuel text).1, Sized n)
    (text : List UInt8) : ∀ n ∈ numbersOfMembers (readMembers (fuel + 1) text).1, Sized n := by
  unfold readMembers
  have hmore (key : Option String) {value : Source} (hvalue : ∀ n ∈ value.numbers, Sized n)
      {members : List (Option String × Source)}
      (hmembers : ∀ n ∈ numbersOfMembers members, Sized n) :
      ∀ n ∈ numbersOfMembers ((key, value) :: members), Sized n := fun n hn ↦
    (List.mem_append.mp hn).elim (hvalue n) (hmembers n)
  split
  · split
    · exact sized_none
    · split
      · dsimp only
        split
        · exact hmore _ (hvalue _) sized_none
        · exact hmore _ (hvalue _) (hmembers _)
        · exact hmore _ (hvalue _) sized_none
      · exact sized_none
  · exact sized_none

end

/-- Whatever is read from a text, its whole numbers fit into a word. -/
theorem sized_reads (fuel : Nat) :
    (∀ text, ∀ n ∈ (readValue fuel text).1.numbers, Sized n) ∧
      (∀ text, ∀ n ∈ numbersOfItems (readItems fuel text).1, Sized n) ∧
      ∀ text, ∀ n ∈ numbersOfMembers (readMembers fuel text).1, Sized n := by
  induction fuel with
  | zero => exact ⟨fun _ ↦ sized_none, fun _ ↦ sized_none, fun _ ↦ sized_none⟩
  | succ fuel ih =>
    obtain ⟨hvalue, hitems, hmembers⟩ := ih
    exact ⟨sized_readValue_succ hitems hmembers, sized_readItems_succ hvalue hitems,
      sized_readMembers_succ hvalue hmembers⟩

theorem sized_ofString (text : String) :
    ∀ n ∈ (SourceText.ofString text).root.numbers, Sized n := by
  obtain ⟨root, left, hread⟩ : ∃ root left, readValue (2 * (bytesOf text).length + 2)
      (bytesOf text) = (root, left) := ⟨_, _, rfl⟩
  have hroot := (sized_reads (2 * (bytesOf text).length + 2)).1 (bytesOf text)
  rw [hread] at hroot
  rw [ofString_eq hread]
  exact hroot

end Source

end Blueprint
