import Blueprint.Proofs.Json.Strings

/-!
Compact JSON is text without control characters: strings escape them, and digits, signs, words and
brackets are none (`Json.unbroken_compact`). So no byte of it is zero, and code that takes a zero
for the end of a text sees all of it (`Json.ne_zero_of_mem_compact`).
-/

set_option autoImplicit false

namespace Blueprint

/-- Characters without controls among them. -/
def Text.Unbroken (chars : List Char) : Prop := ∀ c ∈ chars, 32 ≤ c.toNat

instance (chars : List Char) : Decidable (Text.Unbroken chars) :=
  decidable_of_iff (chars.all fun c ↦ decide (32 ≤ c.toNat)) (by simp [Text.Unbroken])

namespace Text.Unbroken

variable {chars more : List Char}

theorem append (h : Unbroken chars) (hmore : Unbroken more) : Unbroken (chars ++ more) :=
  List.forall_mem_append.mpr ⟨h, hmore⟩

theorem cons {c : Char} (hc : 32 ≤ c.toNat) (h : Unbroken chars) : Unbroken (c :: chars) :=
  List.forall_mem_cons.mpr ⟨hc, h⟩

theorem nil : Unbroken [] := List.forall_mem_nil _

theorem mono (h : Unbroken chars) (hsub : more ⊆ chars) : Unbroken more := fun c hc ↦ h c (hsub hc)

theorem replicate (n : Nat) {c : Char} (hc : 32 ≤ c.toNat) : Unbroken (List.replicate n c) :=
  fun _ hd ↦ List.eq_of_mem_replicate hd ▸ hc

theorem toDigits (n : Nat) : Unbroken (Nat.toDigits 10 n) := fun c hc ↦ by
  have hdigit := Nat.isDigit_of_mem_toDigits (by decide) (by decide) hc
  exact Nat.le_trans (by decide) (Char.isDigit_iff_toNat.mp hdigit).1

end Text.Unbroken

open Text (Unbroken)

namespace Decimal

/-! ### Numbers -/

theorem unbroken_positional (s : Scaled) (keepsFraction : Bool) :
    Unbroken (positional s keepsFraction) := by
  have hdigits := Text.Unbroken.toDigits s.digits
  have hzeros (n : Nat) : Unbroken (List.replicate n '0') := .replicate n (by decide)
  unfold positional
  dsimp only
  split
  · refine (hdigits.append (hzeros _)).append ?_
    split
    · exact .cons (by decide) (.cons (by decide) .nil)
    · exact .nil
  · split
    · exact (hdigits.mono (List.take_subset _ _)).append
        (.cons (by decide) (hdigits.mono (List.drop_subset _ _)))
    · exact .cons (by decide) (.cons (by decide) ((hzeros _).append hdigits))

theorem unbroken_scientific (s : Scaled) : Unbroken (scientific s) := by
  have hdigits := Text.Unbroken.toDigits s.digits
  unfold scientific
  dsimp only
  refine ((hdigits.mono (List.take_subset _ _)).append ?_).append
    (.cons (by decide) (.cons ?_ (.toDigits _)))
  · split
    · exact .nil
    · exact .cons (by decide) (hdigits.mono (List.drop_subset _ _))
  · split <;> decide

theorem Layout.unbroken_write (l : Layout) (x : Float) : Unbroken (l.write x).toList := by
  unfold Layout.write
  dsimp only
  rw [String.toList_ofList]
  refine Text.Unbroken.append ?_ ?_
  · split
    · exact .cons (by decide) .nil
    · exact .nil
  · split
    · exact unbroken_scientific _
    · exact unbroken_positional _ _

end Decimal

theorem JsonNumber.unbroken_render (n : JsonNumber) : Unbroken n.render.toList := by
  have hnat (n : Nat) : Unbroken n.repr.toList := by
    rw [Nat.repr_eq_ofList_toDigits, String.toList_ofList]
    exact .toDigits n
  cases n with
  | real x => exact Decimal.Layout.unbroken_write _ _
  | whole n =>
    cases n with
    | ofNat n => exact hnat n
    | negSucc n =>
      have htext : (JsonNumber.whole (Int.negSucc n)).render = "-" ++ (n + 1).repr := rfl
      rw [htext, String.toList_append]
      exact .append (.cons (by decide) .nil) (hnat (n + 1))

namespace Json

/-! ### Strings -/

theorem unbroken_escapeChar (c : Char) : Unbroken (escapeChar c) := by
  have hletter {letter : Char} (h : 32 ≤ letter.toNat) : Unbroken ['\\', letter] :=
    .cons (by decide) (.cons h .nil)
  have hdigit : ∀ n < 16, 32 ≤ (Nat.digitChar n).toNat := by decide
  unfold escapeChar
  -- The quote, the backslash and five controls have letters.
  iterate 7
    split
    · exact hletter (by decide)
  split
  · rename_i hcontrol
    refine .cons (by decide) (.cons (by decide) (.cons (by decide) (.cons (by decide) ?_)))
    exact .cons (hdigit _ (by omega)) (.cons (hdigit _ (by omega)) .nil)
  · rename_i hcontrol
    exact .cons (Nat.not_lt.mp hcontrol) .nil

theorem unbroken_renderString (s : String) : Unbroken (renderString s).toList := by
  rw [renderString, String.toList_ofList]
  refine .append (.cons (by decide) fun d hd ↦ ?_) (.cons (by decide) .nil)
  obtain ⟨c, -, hc⟩ := List.mem_flatMap.mp hd
  exact unbroken_escapeChar c d hc

/-! ### Values -/

mutual

theorem unbroken_compact (json : Json) : Unbroken json.compact.toList := by
  cases json with
  | null => exact (by decide : Unbroken "null".toList)
  | bool b => cases b with
    | true => exact (by decide : Unbroken "true".toList)
    | false => exact (by decide : Unbroken "false".toList)
  | number n => exact n.unbroken_render
  | string s => exact unbroken_renderString s
  | array items =>
    rw [compact, String.toList_append, String.toList_append]
    exact .append (.append (.cons (by decide) .nil) (unbroken_compactItems items))
      (.cons (by decide) .nil)
  | object members =>
    rw [compact, String.toList_append, String.toList_append]
    exact .append (.append (.cons (by decide) .nil) (unbroken_compactMembers members))
      (.cons (by decide) .nil)

theorem unbroken_compactItems (items : List Json) : Unbroken (compactItems items).toList := by
  match items with
  | [] => exact .nil
  | [item] => exact unbroken_compact item
  | item :: next :: rest =>
    rw [compactItems, String.toList_append, String.toList_append]
    · exact .append (.append (unbroken_compact item) (.cons (by decide) .nil))
        (unbroken_compactItems (next :: rest))
    · simp

theorem unbroken_compactMembers (members : List (String × Json)) :
    Unbroken (compactMembers members).toList := by
  have hmember (key : String) (value : Json) (hvalue : Unbroken value.compact.toList) :
      Unbroken (renderString key ++ ":" ++ value.compact).toList := by
    rw [String.toList_append, String.toList_append]
    exact .append (.append (unbroken_renderString key) (.cons (by decide) .nil)) hvalue
  match members with
  | [] => exact .nil
  | [(key, value)] => exact hmember key value (unbroken_compact value)
  | (key, value) :: next :: rest =>
    rw [compactMembers, String.toList_append, String.toList_append]
    · exact .append (.append (hmember key value (unbroken_compact value)) (.cons (by decide) .nil))
        (unbroken_compactMembers (next :: rest))
    · simp

end

/-- No byte of compact JSON is zero. -/
theorem ne_zero_of_mem_compact (json : Json) : ∀ b ∈ Source.bytesOf json.compact, b ≠ 0 := by
  intro b hb
  rw [Source.bytesOf_eq] at hb
  obtain ⟨c, hc, hbyte⟩ := List.mem_flatMap.mp hb
  by_cases hquote : c = '"'
  · subst hquote
    rw [show b = 34 from List.mem_singleton.mp hbyte]
    decide
  by_cases hslash : c = '\\'
  · subst hslash
    rw [show b = 92 from List.mem_singleton.mp hbyte]
    decide
  have halone : Source.StandsAlone c := ⟨json.unbroken_compact c hc, hquote, hslash⟩
  rintro rfl
  exact absurd (Source.isPlain_of_standsAlone halone 0 hbyte).1 (by decide)

end Json

end Blueprint
