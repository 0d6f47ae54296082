import Blueprint.CommandLine.Basic
import Blueprint.Foreign.Session
import Blueprint.Proofs.Json.Rereading
import Blueprint.Proofs.Json.Values
import Blueprint.Proofs.Table
import Blueprint.Proofs.Value.Words

/-!
What becomes of a JSON value on its way through a run. It comes in as a literal of a graph, as an
input on the command line, from a resource or from a library (`Value.Enters`), and goes out among
the outputs of a run, among the inputs that a library is given, or into the memory of a library
(`Value.Leaves`).

It goes out as it came in (`Value.leaves_of_enters`), with one exception. Values hold whole numbers
in signed words, so a whole number from `2 ^ 63` on that stands alone becomes the nearest
floating-point number. Inside an array or an object it stays what it is.
-/

set_option autoImplicit false

namespace Blueprint

/-! ### Members of objects -/

namespace Json

variable {key name : String} {value : Json}

theorem lookup_cons (k : String) (v : Json) (rest : List (String × Json)) (name : String) :
    ((k, v) :: rest).lookup name = if name = k then some v else rest.lookup name := by
  rw [List.lookup_cons]
  by_cases hname : name = k
  · rw [if_pos hname, beq_iff_eq.mpr hname]
  · rw [if_neg hname, beq_eq_false_iff_ne.mpr hname]

theorem lookup_insertMember (key : String) (value : Json) (members : List (String × Json))
    (name : String) : (insertMember key value members).lookup name =
      if name = key then some value else members.lookup name := by
  induction members with
  | nil => exact lookup_cons key value [] name
  | cons first rest ih =>
    obtain ⟨k, v⟩ := first
    unfold insertMember
    by_cases hkey : key = k
    · subst hkey
      rw [if_pos (beq_self_eq_true key), lookup_cons, lookup_cons]
      split_ifs <;> rfl
    · rw [if_neg (by simpa using hkey)]
      split
      · rw [lookup_cons]
      · rw [lookup_cons, lookup_cons, ih]
        by_cases hname : name = k
        · have hne : name ≠ key := fun heq ↦ hkey (heq.symm.trans hname)
          rw [if_pos hname, if_neg hne, if_pos hname]
        · rw [if_neg hname, if_neg hname]

theorem lookup_foldl_of_ne (members done : List (String × Json))
    (h : ∀ member ∈ members, member.1 ≠ name) :
    (members.foldl (fun done (k, v) ↦ insertMember k v done) done).lookup name =
      done.lookup name := by
  induction members generalizing done with
  | nil => rfl
  | cons first rest ih =>
    obtain ⟨hfirst, hrest⟩ := List.forall_mem_cons.mp h
    rw [List.foldl_cons, ih _ hrest, lookup_insertMember, if_neg hfirst.symm]

/-- An object made of members with distinct keys has each of them. -/
theorem get?_ofMembers {members : List (String × Json)} (hnodup : (members.map (·.1)).Nodup)
    (hmem : (name, value) ∈ members) : (ofMembers members).get? name = some value := by
  have hlookup (done : List (String × Json)) :
      (members.foldl (fun done (k, v) ↦ insertMember k v done) done).lookup name =
        some value := by
    induction members generalizing done with
    | nil => cases hmem
    | cons first rest ih =>
      rw [List.map_cons, List.nodup_cons] at hnodup
      rw [List.foldl_cons]
      rcases List.mem_cons.mp hmem with rfl | hrest
      · have hne : ∀ member ∈ rest, member.1 ≠ name := fun member hmember heq ↦
          hnodup.1 (List.mem_map.mpr ⟨member, hmember, heq⟩)
        rw [lookup_foldl_of_ne rest _ hne, lookup_insertMember, if_pos rfl]
      · exact ih hnodup.2 hrest _
  exact hlookup []

end Json

theorem Value.get?_allToJson {table : Inputs} (hdistinct : table.Distinct) {name : String}
    {v : Value} {json : Json} (hget : table.get? name = some v) (hjson : v.toJson? = some json) :
    (Value.allToJson table).get? name = some json := by
  have hmembers : allToJson table = .ofMembers (table.entries.filterMap fun entry ↦
      entry.2.toJson?.map fun json ↦ (entry.1, json)) := rfl
  rw [hmembers]
  refine Json.get?_ofMembers ?_ ?_
  · have hkeys : (table.entries.filterMap fun entry ↦
        entry.2.toJson?.map fun json ↦ (entry.1, json)).map (·.1) =
          (table.entries.filter fun entry ↦ entry.2.toJson?.isSome).map (·.1) := by
      induction table.entries with
      | nil => rfl
      | cons entry rest ih =>
        obtain ⟨key, value⟩ := entry
        cases hvalue : value.toJson? <;> simp [hvalue, ih]
    rw [hkeys]
    exact hdistinct.sublist (List.filter_sublist.map _)
  · refine List.mem_filterMap.mpr ⟨(name, v), Table.mem_of_get? hget, ?_⟩
    rw [hjson]
    rfl

/-! ### In and out -/

namespace Command

/-- What stands before the first equality sign of a word on the command line, and what behind. -/
def nameOf (word : String) : String := String.ofList (word.toList.takeWhile (· ≠ '='))

def textOf (word : String) : String :=
  String.ofList (word.toList.drop ((word.toList.takeWhile (· ≠ '=')).length + 1))

theorem drop_takeWhile (word : List Char) (p : Char → Bool) :
    word.drop (word.takeWhile p).length = word.dropWhile p :=
  calc word.drop (word.takeWhile p).length
      = (word.takeWhile p ++ word.dropWhile p).drop (word.takeWhile p).length := by
        rw [List.takeWhile_append_dropWhile]
    _ = word.dropWhile p := List.drop_left

/-- A word with an equality sign before a text that is JSON defines an input. -/
theorem inputOf_of_json {word : String} {json : Json}
    (h : Json.ofString? (textOf word) = some json) (hsign : '=' ∈ word.toList) :
    inputOf word = .ok (nameOf word, .ofJson json) := by
  unfold inputOf
  dsimp only
  split
  · rename_i hdrop
    rw [drop_takeWhile, List.dropWhile_eq_nil_iff] at hdrop
    exact absurd (hdrop '=' hsign) (by decide)
  · rename_i first text hdrop
    have htext : textOf word = String.ofList text := by
      unfold textOf
      rw [← List.drop_drop, hdrop]
      rfl
    rw [← htext, h]
    rfl

theorem mem_of_inputOf {word name : String} {v : Value} (h : inputOf word = .ok (name, v)) :
    '=' ∈ word.toList := by
  by_contra hsign
  have hdrop : word.toList.drop (word.toList.takeWhile (· ≠ '=')).length = [] := by
    rw [drop_takeWhile, List.dropWhile_eq_nil_iff]
    intro c hc
    simpa using fun heq : c = '=' ↦ hsign (heq ▸ hc)
  unfold inputOf at h
  dsimp only at h
  rw [hdrop] at h
  cases h

end Command

namespace Value

/-- The ways in which a JSON value becomes one of a pin. -/
inductive Enters (json : Json) : Value → Prop
  | made : Enters json (.ofJson json)
  /-- As a literal of a graph. -/
  | literal {inputs : Inputs} {view : Bindings} {v : Value}
      (h : Interpreter.inputValue inputs view (.literal json) = some v) : Enters json v
  /-- As an input on the command line. -/
  | defined {word name : String} {v : Value} (htext : Json.ofString? (Command.textOf word) = some json)
      (h : Command.inputOf word = .ok (name, v)) : Enters json v
  /-- As the content of a resource. -/
  | loaded {d : Descriptor} {bytes : Bytes} {world : World} {v : Value}
      (hbytes : Decoder.anyJson d bytes = .ok json)
      (h : (Provider.assetDecoder .json d bytes world).1 = .ok v) : Enters json v
  /-- As what a library binds. -/
  | bound {node pin text : ForeignText} {n p : String} {v : Value}
      (htext : text.json? = some json)
      (h : (HostRequest.bind node pin text).callback? = some (.bind n p v)) : Enters json v

/-- A value shows as some JSON wherever it goes out: among the outputs of a run, among the inputs
that a library is given, and in the memory that a library has a pin read into. -/
structure Leaves (v : Value) (json : Json) : Prop where
  shows : v.toJson? = some json
  outputs : ∀ (result : RunResult) (name : String), result.outputs.Distinct →
    result.outputs.get? name = some v → result.outputsJson.get? name = some json
  inputs : ∀ (s : ForeignSession) (graph : Nat) (run : RunId) (inputs : Inputs) (name : String),
    inputs.Distinct → inputs.get? name = some v →
    ∃ (given : Json) (rest : List LibraryNote), (s.step (.execute graph run inputs)).2.1 =
        .called (.execute graph run given.compact) :: rest ∧ given.get? name = some json
  memory : ∀ (read : String → String → HostReading) (node pin : ForeignText) (n p : String)
    (memory : Option Bytes) (capacity : Nat), node.text? = some n → pin.text? = some p →
    read n p = .holds (some v) →
    readOutput read node pin memory capacity =
      let text := json.compact.toUTF8.toList
      ((text.length : Int), memory.map fun memory ↦
        if text.length < capacity then text ++ 0 :: memory.drop (text.length + 1) else memory)

variable {v : Value} {json : Json}

/-- Whichever way it comes in, it is made into the same value. -/
theorem Enters.eq_ofJson (h : Enters json v) : v = .ofJson json := by
  cases h with
  | made => rfl
  | literal h => exact (Option.some.inj h).symm
  | defined htext h =>
    have hvalue := Command.inputOf_of_json htext (Command.mem_of_inputOf h)
    exact (Prod.mk.inj (Except.ok.inj (h.symm.trans hvalue))).2
  | loaded hbytes h =>
    have hvalue : (Provider.assetDecoder .json _ _ _).1 = _ := h
    simp only [Provider.assetDecoder, Provider.assetDecoder.valued, Decoder.pure, hbytes] at hvalue
    exact (Except.ok.inj hvalue).symm
  | @bound node pin text n p v htext h =>
    cases hnode : node.text? with
    | none => simp [HostRequest.callback?, hnode] at h
    | some n =>
      cases hpin : pin.text? with
      | none => simp [HostRequest.callback?, hnode, hpin] at h
      | some p =>
        simp [HostRequest.callback?, hnode, hpin, htext] at h
        exact h.2.2.symm

/-- A value with a JSON form shows as that. -/
theorem leaves_of_toJson? (h : v.toJson? = some json) : v.Leaves json where
  shows := h
  outputs _ _ hdistinct hget := get?_allToJson hdistinct hget h
  inputs s graph run inputs name hdistinct hget :=
    ⟨allToJson inputs, _, rfl, get?_allToJson hdistinct hget h⟩
  memory read node pin n p memory capacity hnode hpin hread := by
    have hbytes : outputBytes? read node pin = some json.compact.toUTF8.toList := by
      simp [outputBytes?, hnode, hpin, hread, h]
    unfold readOutput
    rw [hbytes]

end Value

/-! ### Survival -/

/-- A whole number that stands alone and is beyond the signed words. -/
def Json.Oversized (json : Json) : Prop := ∃ n : Int, json = .ofInt n ∧ (2 : Int) ^ 63 ≤ n

/-- What is read from a text has no whole numbers beyond the words. -/
theorem Json.sized_of_ofString? {text : String} {json : Json}
    (h : Json.ofString? text = some json) : ∀ n ∈ json.numbers, Source.Sized n := by
  unfold Json.ofString? at h
  split at h
  · rename_i read hread
    obtain rfl := Option.some.inj h
    exact fun n hn ↦ Source.sized_ofString text n
      (Source.numbers_toJson (SourceText.read_of_decode hread) n hn)
  · cases h

namespace Value

variable {v : Value} {json : Json}

/-- A whole number of a signed word stays what it is. -/
theorem toJson?_ofJson_of_int {n : Int} (hlow : -(2 : Int) ^ 63 ≤ n) (hhigh : n < (2 : Int) ^ 63) :
    (ofJson (.ofInt n)).toJson? = some (.ofInt n) := by
  have hrange : Int64.minValue.toInt ≤ n ∧ n ≤ Int64.maxValue.toInt :=
    ⟨hlow, Int.le_of_lt_add_one hhigh⟩
  have hword : ofJson (.ofInt n) = .int (Int64.ofInt n) := if_pos hrange
  rw [hword, toJson?, Int64.toInt_ofInt_of_le hlow hhigh]

/-- All that is not oversized stays what it is. -/
theorem toJson?_ofJson (hsized : ∀ n ∈ json.numbers, Source.Sized n) (h : ¬ json.Oversized) :
    (ofJson json).toJson? = some json := by
  cases json with
  | null | bool b | string s | array items | object members => rfl
  | number value =>
    cases value with
    | real x => exact dif_pos x.finite
    | whole n =>
      obtain ⟨hlow, -⟩ : Source.OneWord n := hsized (.whole n) (List.mem_singleton_self _)
      exact toJson?_ofJson_of_int hlow (Int.not_le.mp fun hlarge ↦ h ⟨n, rfl, hlarge⟩)

theorem ofJson_of_large {n : Int} (h : (2 : Int) ^ 63 ≤ n) :
    ofJson (.ofInt n) = .float (floatOfInt n) :=
  if_neg fun hrange ↦ absurd (h.trans hrange.2) (by decide)

/-- An oversized number becomes the nearest floating-point number. -/
theorem toJson?_ofJson_of_oversized {n : Int} (hword : Source.OneWord n)
    (h : (2 : Int) ^ 63 ≤ n) :
    ∃ x : FiniteFloat, (ofJson (.ofInt n)).toJson? = some (.number (.real x)) ∧
      (Decimal.Neighbourhood.ofBits x.val.toBits.toNat).holds n.toNat 1 = true := by
  obtain ⟨hfinite, hholds⟩ := Decimal.floatOfInt_word h hword.2
  refine ⟨⟨floatOfInt n, hfinite⟩, ?_, hholds⟩
  rw [ofJson_of_large h]
  exact dif_pos hfinite

/-- Assumes: a JSON value without whole numbers beyond the words, as every one that is read.
Whichever way it comes in, wherever it goes out it is the same, unless it is a single whole number
beyond the signed words. Such a number goes out as a floating-point number that it rounds to. -/
theorem leaves_of_enters (hsized : ∀ n ∈ json.numbers, Source.Sized n) (h : Enters json v) :
    (¬ json.Oversized → v.Leaves json) ∧
      ∀ n : Int, json = .ofInt n → (2 : Int) ^ 63 ≤ n →
        ∃ x : FiniteFloat, v.Leaves (.number (.real x)) ∧
          (Decimal.Neighbourhood.ofBits x.val.toBits.toNat).holds n.toNat 1 = true := by
  obtain rfl := h.eq_ofJson
  refine ⟨fun hsmall ↦ leaves_of_toJson? (toJson?_ofJson hsized hsmall), ?_⟩
  rintro n rfl hlarge
  have hword : Source.OneWord n := hsized (.whole n) (List.mem_singleton_self _)
  obtain ⟨x, hshows, hholds⟩ := toJson?_ofJson_of_oversized hword hlarge
  exact ⟨x, leaves_of_toJson? hshows, hholds⟩

/-- The largest word, alone and in an array, as an input on the command line. -/
def largest : Int := 18446744073709551615

theorem ofString?_largest :
    Json.ofString? (Command.textOf "n=18446744073709551615") = some (.ofInt largest) := by
  cbv

theorem ofString?_listed :
    Json.ofString? (Command.textOf "n=[18446744073709551615]") =
      some (.array [.ofInt largest]) := by
  cbv

/-- On its own the largest word becomes a floating-point number, in an array it stays what it is. -/
theorem leaves_of_largest :
    (∃ v, Command.inputOf "n=18446744073709551615" = .ok ("n", v) ∧
      ∃ x : FiniteFloat, v.Leaves (.number (.real x)) ∧
        (Decimal.Neighbourhood.ofBits x.val.toBits.toNat).holds 18446744073709551615 1 = true) ∧
    ∃ v, Command.inputOf "n=[18446744073709551615]" = .ok ("n", v) ∧
      v.Leaves (.array [.ofInt largest]) := by
  have hlone := Command.inputOf_of_json ofString?_largest (by decide)
  have hlisted := Command.inputOf_of_json ofString?_listed (by decide)
  refine ⟨⟨_, hlone, ?_⟩, ⟨_, hlisted, ?_⟩⟩
  · exact (leaves_of_enters (Json.sized_of_ofString? ofString?_largest)
      (.defined ofString?_largest hlone)).2 largest rfl (by decide)
  · refine (leaves_of_enters (Json.sized_of_ofString? ofString?_listed)
      (.defined ofString?_listed hlisted)).1 ?_
    rintro ⟨n, hlone, -⟩
    cases hlone

/-- Already the first number beyond the signed words is not kept. -/
theorem not_survives_of_lone_word :
    (∀ n ∈ (Json.ofInt 9223372036854775808).numbers, Source.Sized n) ∧
      (ofJson (.ofInt 9223372036854775808)).toJson? ≠ some (.ofInt 9223372036854775808) := by
  constructor
  · intro n hn
    obtain rfl := List.mem_singleton.mp hn
    exact ⟨by decide, by decide⟩
  · rw [ofJson_of_large (by decide), toJson?]
    unfold Json.ofFloat?
    split
    · intro heq
      cases heq
    · intro heq
      cases heq

end Value

end Blueprint
