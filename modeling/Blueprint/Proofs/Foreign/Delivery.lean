import Mathlib
import Blueprint.Foreign.Exchange
import Blueprint.Proofs.Json.Compact

/-!
Reading a pin into memory of a library. Either there is nothing to tell of the pin (`Withheld`), or
it shows as some JSON (`Shows`). Then the library is told the length of the compact text, and the
memory holds all of the text with a zero behind it, or is left as it was (`Delivered`). The text has
no zero inside, so a library that asks for the length first and then brings memory for it can read
back the whole text (`readOutput_whole`).
-/

set_option autoImplicit false

namespace Blueprint

namespace ForeignText

/-- A pointer to the bytes of a text, with nothing or a zero behind them. -/
def Spells (t : ForeignText) (text : String) : Prop :=
  ∃ memory, t = some memory ∧ content memory = text.toUTF8.toList

theorem text?_eq_some_iff {t : ForeignText} {text : String} :
    t.text? = some text ↔ t.Spells text := by
  constructor
  · intro h
    obtain ⟨memory, rfl, htext⟩ := Option.bind_eq_some_iff.mp h
    refine ⟨memory, rfl, ?_⟩
    unfold String.fromUTF8? at htext
    split at htext
    · obtain rfl := Option.some.inj htext
      rw [Source.toList_eq_data]
      rfl
    · cases htext
  · rintro ⟨memory, rfl, hcontent⟩
    have hbytes : (⟨(content memory).toArray⟩ : ByteArray) =
        (Source.bytesOf text).toByteArray := by
      rw [hcontent]
      exact ByteArray.ext List.data_toByteArray.symm
    rw [text?, Option.bind_some, hbytes, Source.fromUTF8?_bytesOf]

theorem text?_eq_none_iff {t : ForeignText} : t.text? = none ↔ ∀ text, ¬ t.Spells text := by
  simp only [← text?_eq_some_iff, Option.eq_none_iff_forall_ne_some, ne_eq]

end ForeignText

/-- The bytes of compact JSON. -/
def Json.bytes (json : Json) : Bytes := json.compact.toUTF8.toList

section Reading

variable (read : String → String → HostReading) (node pin : ForeignText)

/-- The pin that is named holds a value that shows as some JSON. -/
inductive Shows (json : Json) : Prop
  | holds {n p : String} {value : Value} (hnode : node.Spells n) (hpin : pin.Spells p)
      (hread : read n p = .holds (some value)) (hjson : value.toJson? = some json)

/-- Why there is nothing to tell of a pin. -/
inductive Withheld : Prop
  /-- The node's name is a null pointer or no text. -/
  | nodeless (hnode : ∀ n, ¬ node.Spells n)
  /-- So is the pin's name. -/
  | pinless (hpin : ∀ p, ¬ pin.Spells p)
  | unbound {n p : String} (hnode : node.Spells n) (hpin : pin.Spells p)
      (hread : read n p = .holds none)
  /-- What the pin holds has no JSON form. -/
  | formless {n p : String} {value : Value} (hnode : node.Spells n) (hpin : pin.Spells p)
      (hread : read n p = .holds (some value)) (hjson : value.toJson? = none)
  /-- The host gives up, or there is none. -/
  | silent {n p : String} (hnode : node.Spells n) (hpin : pin.Spells p)
      (hread : read n p = .silent)

/-- Memory after a text was written to its start with a zero behind it. -/
structure Holds (before text after : Bytes) : Prop where
  length_eq : after.length = before.length
  written : ∀ i, i < text.length → after[i]? = text[i]?
  zero : after[text.length]? = some 0
  rest : ∀ i, text.length < i → after[i]? = before[i]?

/-- What a library gets when it reads a pin into memory with some capacity: what it is told, and
the memory afterwards. -/
inductive Delivered (memory : Option Bytes) (capacity : Nat) : Int × Option Bytes → Prop
  | withheld (h : Withheld read node pin) : Delivered memory capacity (-1, memory)
  /-- The text fits, and so does the zero. -/
  | written {json : Json} {before after : Bytes} (h : Shows read node pin json)
      (hmemory : memory = some before) (hfits : json.bytes.length < capacity)
      (hafter : Holds before json.bytes after) :
      Delivered memory capacity (json.bytes.length, some after)
  | untouched {json : Json} (h : Shows read node pin json)
      (hfull : ∀ before, memory = some before → capacity ≤ json.bytes.length) :
      Delivered memory capacity (json.bytes.length, memory)

/-- What a library gets when it asks for the length without memory, and then brings memory for one
byte more. -/
structure Fetches (json : Json) : Prop where
  length : ∀ capacity, readOutput read node pin none capacity = ((json.bytes.length : Int), none)
  whole : ∀ fresh : Bytes, fresh.length = json.bytes.length + 1 →
    readOutput read node pin (some fresh) fresh.length =
      ((json.bytes.length : Int), some (json.bytes ++ [0]))
  spelled : ForeignText.Spells (some (json.bytes ++ [0])) json.compact

variable {read node pin}

theorem outputBytes?_of_names {n p : String} (hnode : node.Spells n) (hpin : pin.Spells p) :
    outputBytes? read node pin = match read n p with
      | .holds value => (value.bind Value.toJson?).map Json.bytes
      | .silent => none := by
  unfold outputBytes?
  rw [ForeignText.text?_eq_some_iff.mpr hnode, ForeignText.text?_eq_some_iff.mpr hpin]
  cases hread : read n p with
  | silent => simp [hread]
  | holds value =>
    cases value with
    | none => simp [hread]
    | some value =>
      simp only [Option.bind_eq_bind, Option.bind_some, hread]
      cases value.toJson? <;> rfl

theorem outputBytes?_of_shows {json : Json} (h : Shows read node pin json) :
    outputBytes? read node pin = some json.bytes := by
  obtain ⟨hnode, hpin, hread, hjson⟩ := h
  simp [outputBytes?_of_names hnode hpin, hread, hjson]

theorem outputBytes?_of_withheld (h : Withheld read node pin) :
    outputBytes? read node pin = none := by
  cases h with
  | nodeless hnode => simp [outputBytes?, ForeignText.text?_eq_none_iff.mpr hnode]
  | pinless hpin => simp [outputBytes?, ForeignText.text?_eq_none_iff.mpr hpin]
  | unbound hnode hpin hread => simp [outputBytes?_of_names hnode hpin, hread]
  | formless hnode hpin hread hjson => simp [outputBytes?_of_names hnode hpin, hread, hjson]
  | silent hnode hpin hread => simp [outputBytes?_of_names hnode hpin, hread]

theorem withheld_or_shows : Withheld read node pin ∨ ∃ json, Shows read node pin json := by
  by_cases hnode : ∀ n, ¬ node.Spells n
  · exact .inl (.nodeless hnode)
  by_cases hpin : ∀ p, ¬ pin.Spells p
  · exact .inl (.pinless hpin)
  simp only [not_forall, not_not] at hnode hpin
  obtain ⟨n, hnode⟩ := hnode
  obtain ⟨p, hpin⟩ := hpin
  cases hread : read n p with
  | silent => exact .inl (.silent hnode hpin hread)
  | holds value =>
    cases value with
    | none => exact .inl (.unbound hnode hpin hread)
    | some value =>
      cases hjson : value.toJson? with
      | none => exact .inl (.formless hnode hpin hread hjson)
      | some json => exact .inr ⟨json, .holds hnode hpin hread hjson⟩

theorem withheld_iff : Withheld read node pin ↔ ∀ json, ¬ Shows read node pin json := by
  constructor
  · intro h json hshows
    cases (outputBytes?_of_withheld h).symm.trans (outputBytes?_of_shows hshows)
  · intro h
    exact withheld_or_shows.resolve_right fun ⟨json, hshows⟩ ↦ h json hshows

theorem readOutput_of_withheld (h : Withheld read node pin) (memory : Option Bytes)
    (capacity : Nat) : readOutput read node pin memory capacity = (-1, memory) := by
  rw [readOutput, outputBytes?_of_withheld h]

theorem readOutput_of_shows {json : Json} (h : Shows read node pin json) (memory : Option Bytes)
    (capacity : Nat) : readOutput read node pin memory capacity =
      ((json.bytes.length : Int), memory.map fun memory ↦ if json.bytes.length < capacity then
        json.bytes ++ 0 :: memory.drop (json.bytes.length + 1) else memory) := by
  rw [readOutput, outputBytes?_of_shows h]

/-- Assumes: memory with room for the text and the zero. -/
theorem holds_overwritten {before text : Bytes} (hroom : text.length < before.length) :
    Holds before text (text ++ 0 :: before.drop (text.length + 1)) where
  length_eq := by
    simp only [List.length_append, List.length_cons, List.length_drop]
    omega
  written i hi := List.getElem?_append_left hi
  zero := by
    rw [List.getElem?_append_right (Nat.le_refl _), Nat.sub_self]
    rfl
  rest i hi := by
    obtain ⟨k, rfl⟩ := Nat.exists_eq_add_of_lt hi
    rw [List.getElem?_append_right (by omega),
      show text.length + k + 1 - text.length = k + 1 by omega, List.getElem?_cons_succ,
      List.getElem?_drop]
    congr 1
    omega

/-- Up to the zero behind it, memory that holds compact JSON spells it. -/
theorem spells_of_holds {json : Json} {before after : Bytes} (h : Holds before json.bytes after) :
    ForeignText.Spells (some after) json.compact := by
  have hafter : after = json.bytes ++ 0 :: after.drop (json.bytes.length + 1) := by
    have htake : after.take json.bytes.length = json.bytes := by
      refine List.ext_getElem? fun i ↦ ?_
      by_cases hi : i < json.bytes.length
      · rw [List.getElem?_take_of_lt hi, h.written i hi]
      · rw [List.getElem?_eq_none (by simp; omega), List.getElem?_eq_none (by omega)]
    obtain ⟨hlt, hzero⟩ := List.getElem?_eq_some_iff.mp h.zero
    have hdrop : after.drop json.bytes.length = 0 :: after.drop (json.bytes.length + 1) := by
      rw [List.drop_eq_getElem_cons hlt, hzero]
    rw [← hdrop]
    conv_lhs => rw [← List.take_append_drop json.bytes.length after, htake]
  refine ⟨after, rfl, ?_⟩
  have hnonzero : ∀ b ∈ json.bytes, decide (b ≠ 0) = true := fun b hb ↦
    decide_eq_true (json.ne_zero_of_mem_compact b hb)
  rw [hafter, ForeignText.content, List.takeWhile_append_of_pos hnonzero,
    List.takeWhile_cons_of_neg (by decide), List.append_nil]
  rfl

/-- Assumes: memory that is as large as it is said to be. -/
theorem delivered_readOutput {memory : Option Bytes} {capacity : Nat}
    (hroom : ∀ before, memory = some before → capacity ≤ before.length) :
    Delivered read node pin memory capacity (readOutput read node pin memory capacity) := by
  obtain h | ⟨json, h⟩ : Withheld read node pin ∨ ∃ json, Shows read node pin json :=
    withheld_or_shows
  · rw [readOutput_of_withheld h]
    exact .withheld h
  · rw [readOutput_of_shows h]
    cases memory with
    | none => exact .untouched h nofun
    | some before =>
      rw [Option.map_some]
      split
      · rename_i hfits
        have hless := Nat.lt_of_lt_of_le hfits (hroom before rfl)
        exact .written h rfl hfits (holds_overwritten hless)
      · rename_i hfull
        exact .untouched h fun _ _ ↦ Nat.not_lt.mp hfull

theorem fetches_of_shows {json : Json} (h : Shows read node pin json) :
    Fetches read node pin json := by
  have hwhole {fresh : Bytes} (hfresh : fresh.length = json.bytes.length + 1) :
      json.bytes ++ 0 :: fresh.drop (json.bytes.length + 1) = json.bytes ++ [0] := by
    rw [← hfresh, List.drop_length]
  refine ⟨fun capacity ↦ readOutput_of_shows h none capacity, fun fresh hfresh ↦ ?_, ?_⟩
  · rw [readOutput_of_shows h, Option.map_some, if_pos (by omega), hwhole hfresh]
  · have hlength : (json.bytes ++ [0]).length = json.bytes.length + 1 := List.length_append
    have hroom : json.bytes.length < (json.bytes ++ [0]).length :=
      Nat.lt_of_lt_of_eq (Nat.lt_succ_self _) hlength.symm
    have hholds := holds_overwritten hroom
    rw [hwhole hlength] at hholds
    exact spells_of_holds hholds

/-- Assumes: memory that is as large as it is said to be. Whatever the host holds and whatever the
names point to, nothing is told of the pin if there is nothing to tell, and otherwise the length of
its text; the text is written as a whole, within the capacity and with a zero behind it, or not at
all. So a library that asks for the length first can fetch the whole text. -/
theorem readOutput_whole (read : String → String → HostReading) (node pin : ForeignText)
    (memory : Option Bytes) (capacity : Nat)
    (hroom : ∀ before, memory = some before → capacity ≤ before.length) :
    Delivered read node pin memory capacity (readOutput read node pin memory capacity) ∧
      (Withheld read node pin ↔ ∀ json, ¬ Shows read node pin json) ∧
      ∀ json, Shows read node pin json → Fetches read node pin json :=
  ⟨delivered_readOutput hroom, withheld_iff, fun _ ↦ fetches_of_shows⟩

end Reading

/-- One pin of one node holds a text. -/
def skinText (node pin : String) : HostReading :=
  .holds (if node = "n" ∧ pin = "p" then some (.string "skin") else none)

/-- The text is six bytes with its quotes. With seven it fits, whatever stands behind a zero in the
node's name and in the memory; with six there is no room for the zero. -/
theorem readOutput_whole_of_skin :
    let node : ForeignText := some [110, 0, 35]
    let pin : ForeignText := some [112]
    let memory : Option Bytes := some (List.replicate 9 35)
    (∀ before, memory = some before → 7 ≤ before.length) ∧
      Shows skinText node pin (.string "skin") ∧
      readOutput skinText node pin memory 7 =
        (6, some [34, 115, 107, 105, 110, 34, 0, 35, 35]) ∧
      readOutput skinText node pin memory 6 = (6, memory) ∧
      Delivered skinText node pin memory 7 (readOutput skinText node pin memory 7) ∧
      Fetches skinText node pin (.string "skin") := by
  have hroom : ∀ before, some (List.replicate 9 (35 : UInt8)) = some before →
      7 ≤ before.length := by
    rintro _ ⟨rfl⟩
    decide
  have hnode : ForeignText.Spells (some [110, 0, 35]) "n" := ⟨_, rfl, by cbv⟩
  have hpin : ForeignText.Spells (some [112]) "p" := ⟨_, rfl, by cbv⟩
  have hshows : Shows skinText (some [110, 0, 35]) (some [112]) (.string "skin") :=
    .holds hnode hpin rfl rfl
  obtain ⟨hdelivered, -, hfetches⟩ := readOutput_whole skinText (some [110, 0, 35]) (some [112])
    (some (List.replicate 9 35)) 7 hroom
  exact ⟨hroom, hshows, by cbv, by cbv, hdelivered, hfetches _ hshows⟩

end Blueprint
