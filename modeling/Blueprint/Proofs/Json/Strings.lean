import Blueprint.Json.Printer
import Blueprint.Json.Reading
import Mathlib.Data.List.Basic
import Mathlib.Tactic.IntervalCases

/-!
Strings as JSON text. What is written between two quotes is read back byte for byte, whatever
escapes it needed (`readContent_rendered`).
-/

set_option autoImplicit false

namespace Blueprint.Source

/-- The bytes of a text. -/
def bytesOf (text : String) : List UInt8 := text.toUTF8.toList

theorem toList_eq_data (bytes : ByteArray) : bytes.toList = bytes.data.toList := by
  have hloop (position : Nat) (done : List UInt8) : ByteArray.toList.loop bytes position done =
      done.reverse ++ bytes.data.toList.drop position := by
    induction hleft : bytes.size - position generalizing position done with
    | zero =>
      have hend : bytes.data.toList.length ≤ position := by
        have : bytes.data.toList.length = bytes.size := rfl
        omega
      rw [ByteArray.toList.loop, if_neg (by omega), List.drop_eq_nil_of_le hend, List.append_nil]
    | succ left ih =>
      have hlt : position < bytes.data.toList.length := by
        have : bytes.data.toList.length = bytes.size := rfl
        omega
      have hget : bytes.get! position = bytes.data.toList[position] :=
        getElem!_pos bytes.data position hlt
      rw [ByteArray.toList.loop, if_pos (by omega), ih _ _ (by omega), hget, List.reverse_cons,
        List.append_assoc, List.singleton_append, List.getElem_cons_drop]
  exact hloop 0 []

theorem bytesOf_ofList (chars : List Char) :
    bytesOf (String.ofList chars) = chars.flatMap String.utf8EncodeChar := by
  rw [bytesOf, toList_eq_data, String.toUTF8_eq_toByteArray, String.toByteArray_ofList,
    List.utf8Encode, List.toList_data_toByteArray]

theorem bytesOf_eq (text : String) : bytesOf text = text.toList.flatMap String.utf8EncodeChar := by
  conv_lhs => rw [← String.ofList_toList (s := text)]
  exact bytesOf_ofList _

theorem bytesOf_append (first second : String) :
    bytesOf (first ++ second) = bytesOf first ++ bytesOf second := by
  simp only [bytesOf_eq, String.toList_append, List.flatMap_append]

theorem encodeChar_eq (c : Char) : encodeChar c = String.utf8EncodeChar c := by
  have hc := bytesOf_eq (String.singleton c)
  rwa [String.toList_singleton, List.flatMap_singleton] at hc

theorem fromUTF8?_bytesOf (text : String) :
    String.fromUTF8? (bytesOf text).toByteArray = some text := by
  have hbytes : (bytesOf text).toByteArray = text.toByteArray := by
    rw [bytesOf_eq, ← String.utf8Encode_toList, List.utf8Encode]
  rw [hbytes, String.fromUTF8?, dif_pos text.isValidUTF8]
  rfl

/-- A byte that stands for itself within a string. -/
def IsPlain (b : UInt8) : Prop := 32 ≤ b ∧ b ≠ 34 ∧ b ≠ 92

theorem readContent_plain {bytes : List UInt8} (h : ∀ b ∈ bytes, IsPlain b) (fuel : Nat)
    (done text : List UInt8) :
    readContent (fuel + bytes.length) done true (bytes ++ text) =
      readContent fuel (bytes.reverse ++ done) true text := by
  induction bytes generalizing done with
  | nil => rfl
  | cons b rest ih =>
    obtain ⟨⟨hcontrol, hquote, hslash⟩, hrest⟩ := List.forall_mem_cons.mp h
    have hstep : readContent (fuel + rest.length + 1) done true (b :: (rest ++ text)) =
        readContent (fuel + rest.length) (b :: done) true (rest ++ text) := by
      simp [readContent, hslash, UInt8.not_lt.mpr hcontrol]
    rw [List.length_cons, ← Nat.add_assoc, List.cons_append, hstep, ih hrest, List.reverse_cons,
      List.append_assoc, List.singleton_append]

/-- The characters that are written as they are. -/
def StandsAlone (c : Char) : Prop := 32 ≤ c.toNat ∧ c ≠ '"' ∧ c ≠ '\\'

theorem isPlain_of_standsAlone {c : Char} (h : StandsAlone c) :
    ∀ b ∈ String.utf8EncodeChar c, IsPlain b := by
  obtain ⟨hcontrol, hquote, hslash⟩ := h
  have hnat {n : Nat} (hlow : 32 ≤ n) (hhigh : n < 256) (hq : n ≠ 34) (hs : n ≠ 92) :
      IsPlain (UInt8.ofNat n) := by
    have hn : (UInt8.ofNat n).toNat = n := UInt8.toNat_ofNat_of_lt' hhigh
    refine ⟨UInt8.le_iff_toNat_le.mpr (hlow.trans_eq hn.symm), fun heq ↦ hq ?_, fun heq ↦ hs ?_⟩
    · exact hn.symm.trans (congrArg UInt8.toNat heq)
    · exact hn.symm.trans (congrArg UInt8.toNat heq)
  have hne {d : Char} (hcd : c ≠ d) : c.toNat ≠ d.toNat := fun heq ↦ hcd (Char.toNat_inj.mp heq)
  have hq : c.toNat ≠ 34 := hne hquote
  have hs : c.toNat ≠ 92 := hne hslash
  unfold String.utf8EncodeChar
  change 32 ≤ c.val.toNat at hcontrol
  change c.val.toNat ≠ 34 at hq
  change c.val.toNat ≠ 92 at hs
  generalize c.val.toNat = n at hcontrol hq hs
  dsimp only
  split
  · intro b hb
    rw [List.mem_singleton.mp hb]
    exact hnat hcontrol (by omega) hq hs
  · split
    · simp only [List.mem_cons, List.not_mem_nil, or_false]
      rintro b (rfl | rfl) <;> exact hnat (by omega) (by omega) (by omega) (by omega)
    · split
      · simp only [List.mem_cons, List.not_mem_nil, or_false]
        rintro b (rfl | rfl | rfl) <;> exact hnat (by omega) (by omega) (by omega) (by omega)
      · simp only [List.mem_cons, List.not_mem_nil, or_false]
        rintro b (rfl | rfl | rfl | rfl) <;> exact hnat (by omega) (by omega) (by omega) (by omega)

theorem readContent_short {b : UInt8} {c : Char} (h : shortEscape? b = some c) (fuel : Nat)
    (done text : List UInt8) :
    readContent (fuel + 1) done true (92 :: b :: text) =
      readContent fuel ((String.utf8EncodeChar c).reverse ++ done) true text := by
  have hb : b ≠ 117 := by
    rintro rfl
    have hnone : shortEscape? 117 = none := rfl
    simp [hnone] at h
  simp [readContent, h, encodeChar_eq]

/-- The digits of a control character, of which the first is `0` or `1`. -/
theorem readNumbered_control {n : Nat} (h : n < 32) (text : List UInt8) :
    readNumbered (48 :: 48 :: code (Nat.digitChar (n / 16)) :: code (Nat.digitChar (n % 16)) ::
      text) = some (some (Char.ofNat n), text) := by
  interval_cases n <;> rfl

theorem readContent_control {c : Char} (h : c.toNat < 32) (fuel : Nat) (done text : List UInt8) :
    readContent (fuel + 1) done true (92 :: 117 :: 48 :: 48 ::
        code (Nat.digitChar (c.toNat / 16)) :: code (Nat.digitChar (c.toNat % 16)) :: text) =
      readContent fuel ((String.utf8EncodeChar c).reverse ++ done) true text := by
  have hread := readNumbered_control h text
  rw [Char.ofNat_toNat] at hread
  simp only [readContent, hread, encodeChar_eq]

/-- A character is written with a letter of its own, by its number, or as it is. -/
theorem escapeChar_cases (c : Char) :
    (∃ letter, Json.escapeChar c = ['\\', letter] ∧
      String.utf8EncodeChar letter = [code letter] ∧ shortEscape? (code letter) = some c) ∨
    (c.toNat < 32 ∧ Json.escapeChar c =
      ['\\', 'u', '0', '0', Nat.digitChar (c.toNat / 16), Nat.digitChar (c.toNat % 16)]) ∨
    (StandsAlone c ∧ Json.escapeChar c = [c]) := by
  have hletter {d letter : Char} (hescape : Json.escapeChar d = ['\\', letter])
      (hbyte : String.utf8EncodeChar letter = [code letter])
      (hshort : shortEscape? (code letter) = some d) (h : (c == d) = true) :
      ∃ letter, Json.escapeChar c = ['\\', letter] ∧
        String.utf8EncodeChar letter = [code letter] ∧ shortEscape? (code letter) = some c := by
    rw [eq_of_beq h]
    exact ⟨letter, hescape, hbyte, hshort⟩
  by_cases hquote : (c == '"') = true
  · exact .inl (hletter rfl rfl rfl hquote)
  by_cases hslash : (c == '\\') = true
  · exact .inl (hletter rfl rfl rfl hslash)
  by_cases hline : (c == '\n') = true
  · exact .inl (hletter rfl rfl rfl hline)
  by_cases hreturn : (c == '\r') = true
  · exact .inl (hletter rfl rfl rfl hreturn)
  by_cases htab : (c == '\t') = true
  · exact .inl (hletter rfl rfl rfl htab)
  by_cases hback : (c == Char.ofNat 8) = true
  · exact .inl (hletter rfl rfl rfl hback)
  by_cases hfeed : (c == Char.ofNat 12) = true
  · exact .inl (hletter rfl rfl rfl hfeed)
  unfold Json.escapeChar
  rw [if_neg hquote, if_neg hslash, if_neg hline, if_neg hreturn, if_neg htab, if_neg hback,
    if_neg hfeed]
  by_cases hcontrol : c.toNat < 0x20
  · exact .inr (.inl ⟨hcontrol, if_pos hcontrol⟩)
  · refine .inr (.inr ⟨⟨Nat.not_lt.mp hcontrol, ?_, ?_⟩, if_neg hcontrol⟩)
    · exact fun heq ↦ hquote (beq_iff_eq.mpr heq)
    · exact fun heq ↦ hslash (beq_iff_eq.mpr heq)

/-- A hexadecimal digit is one byte. -/
theorem encode_digitChar {n : Nat} (h : n < 16) :
    String.utf8EncodeChar (Nat.digitChar n) = [code (Nat.digitChar n)] := by
  interval_cases n <;> rfl

/-- A character is read back from what is written for it, and takes no more steps than that has
bytes. -/
theorem readContent_escapeChar (c : Char) :
    ∃ steps, steps ≤ ((Json.escapeChar c).flatMap String.utf8EncodeChar).length ∧
      ∀ fuel done text,
        readContent (fuel + steps) done true
            ((Json.escapeChar c).flatMap String.utf8EncodeChar ++ text) =
          readContent fuel ((String.utf8EncodeChar c).reverse ++ done) true text := by
  rcases escapeChar_cases c with
    ⟨letter, hescape, hbyte, hshort⟩ | ⟨hcontrol, hescape⟩ | ⟨halone, hescape⟩
  · have hbytes : (Json.escapeChar c).flatMap String.utf8EncodeChar = [92, code letter] := by
      rw [hescape, List.flatMap_cons, List.flatMap_singleton, hbyte]
      rfl
    rw [hbytes]
    exact ⟨1, by simp, readContent_short hshort⟩
  · have hbytes : (Json.escapeChar c).flatMap String.utf8EncodeChar =
        [92, 117, 48, 48, code (Nat.digitChar (c.toNat / 16)),
          code (Nat.digitChar (c.toNat % 16))] := by
      simp only [hescape, List.flatMap_cons, List.flatMap_nil,
        encode_digitChar (show c.toNat / 16 < 16 by omega),
        encode_digitChar (Nat.mod_lt c.toNat (show 0 < 16 by decide))]
      rfl
    rw [hbytes]
    exact ⟨1, by simp, readContent_control hcontrol⟩
  · rw [hescape, List.flatMap_singleton]
    exact ⟨_, Nat.le_refl _, readContent_plain (isPlain_of_standsAlone halone)⟩

theorem readContent_chars (chars : List Char) (done text : List UInt8) (fuel : Nat)
    (h : ((chars.flatMap Json.escapeChar).flatMap String.utf8EncodeChar).length < fuel) :
    readContent fuel done true
        ((chars.flatMap Json.escapeChar).flatMap String.utf8EncodeChar ++ 34 :: text) =
      some (String.fromUTF8?
        (done.reverse ++ chars.flatMap String.utf8EncodeChar).toByteArray, text) := by
  induction chars generalizing done fuel with
  | nil =>
    obtain ⟨fuel, rfl⟩ := Nat.exists_eq_add_of_lt h
    simp [readContent]
  | cons c rest ih =>
    obtain ⟨steps, hsteps, hread⟩ := readContent_escapeChar c
    simp only [List.flatMap_cons, List.flatMap_append, List.length_append] at h ⊢
    obtain ⟨left, rfl⟩ : ∃ left, fuel = left + steps := ⟨fuel - steps, by omega⟩
    rw [List.append_assoc, hread, ih _ _ (by omega), List.reverse_append, List.reverse_reverse,
      List.append_assoc]

/-- What is written after the opening quote of a string. -/
def contentOf (text : String) : List UInt8 :=
  (text.toList.flatMap Json.escapeChar).flatMap String.utf8EncodeChar ++ [34]

theorem bytesOf_renderString (text : String) :
    bytesOf (Json.renderString text) = 34 :: contentOf text := by
  have hquote : String.utf8EncodeChar '"' = [34] := rfl
  rw [Json.renderString, bytesOf_ofList, List.cons_append, List.flatMap_cons, List.flatMap_append,
    List.flatMap_singleton, hquote]
  rfl

/-- The content is read as the string that it was written for, whatever follows it. -/
theorem readContent_rendered (text : String) (rest : List UInt8) {fuel : Nat}
    (h : (contentOf text).length ≤ fuel) :
    readContent fuel [] true (contentOf text ++ rest) = some (some text, rest) := by
  rw [contentOf, List.length_append] at h
  rw [contentOf, List.append_assoc]
  refine (readContent_chars text.toList [] rest fuel h).trans ?_
  rw [List.reverse_nil, List.nil_append, ← bytesOf_eq, fromUTF8?_bytesOf]

end Blueprint.Source
