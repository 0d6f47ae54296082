import Blueprint.Version
import Mathlib.Data.Nat.Digits.Defs

/-!
Which texts are versions. `Version.Written` is the form of a version, from the outside in: blanks
around it, at most one `v` before it, a core of one to three numerals between dots, and nothing more
or a suffix that starts with `-` or `+`. A text is read as a version exactly if it is written so
(`Version.ofChars?_eq_some_iff`), and the three parts that are printed are (`Version.core_render`,
`Version.Core.written`). `Version.parse_eq_iff` adds what is answered otherwise.
-/

set_option autoImplicit false

namespace Blueprint

/-! ### Blanks around a text -/

namespace Text

/-- What is left of a text without the blanks around it. -/
structure Trimmed (text middle : List Char) : Prop where
  around : ∃ front back, text = front ++ (middle ++ back) ∧ (∀ c ∈ front, isBlank c = true) ∧
    ∀ c ∈ back, isBlank c = true
  first : ∀ c ∈ middle.head?, isBlank c = false
  last : ∀ c ∈ middle.getLast?, isBlank c = false

theorem dropWhile_isBlank_of_head? {text : List Char} (h : ∀ c ∈ text.head?, isBlank c = false) :
    text.dropWhile isBlank = text := by
  cases text with
  | nil => rfl
  | cons c rest => exact List.dropWhile_cons_of_neg (by simp [h c rfl])

theorem head?_dropWhile_isBlank (text : List Char) :
    ∀ c ∈ (text.dropWhile isBlank).head?, isBlank c = false := by
  intro c hc
  have hnot := List.head?_dropWhile_not isBlank text
  rwa [hc] at hnot

theorem trimmed_trimBlank (text : List Char) : Trimmed text (trimBlank text) := by
  have hmiddle : text.dropWhile isBlank = trimBlank text ++
      ((text.dropWhile isBlank).reverse.takeWhile isBlank).reverse := by
    rw [trimBlank, ← List.reverse_append, List.takeWhile_append_dropWhile, List.reverse_reverse]
  refine ⟨⟨text.takeWhile isBlank, ((text.dropWhile isBlank).reverse.takeWhile isBlank).reverse, ?_,
    ?_, ?_⟩, ?_, ?_⟩
  · rw [← hmiddle, List.takeWhile_append_dropWhile]
  · exact fun c hc ↦ List.all_eq_true.mp List.all_takeWhile c hc
  · exact fun c hc ↦ List.all_eq_true.mp List.all_takeWhile c (List.mem_reverse.mp hc)
  · intro c hc
    refine head?_dropWhile_isBlank text c ?_
    rw [hmiddle, List.head?_append, hc]
    rfl
  · intro c hc
    rw [trimBlank, List.getLast?_reverse] at hc
    exact head?_dropWhile_isBlank _ c hc

theorem Trimmed.trimBlank_eq {text middle : List Char} (h : Trimmed text middle) :
    trimBlank text = middle := by
  obtain ⟨⟨front, back, rfl, hfront, hback⟩, hfirst, hlast⟩ := h
  have hreverse : (middle ++ back).reverse.dropWhile isBlank = middle.reverse := by
    rw [List.reverse_append,
      List.dropWhile_append_of_pos fun c hc ↦ hback c (List.mem_reverse.mp hc)]
    exact dropWhile_isBlank_of_head? (by rwa [List.head?_reverse])
  rw [trimBlank, List.dropWhile_append_of_pos hfront]
  cases middle with
  | nil =>
    -- All is blank, and already the first pass leaves nothing.
    have hnone : back.dropWhile isBlank = [] := by
      rw [← List.append_nil back, List.dropWhile_append_of_pos hback]
      rfl
    rw [List.nil_append, hnone]
    rfl
  | cons c rest =>
    have hsolid : (c :: rest ++ back).dropWhile isBlank = c :: rest ++ back :=
      dropWhile_isBlank_of_head? hfirst
    rw [hsolid, hreverse, List.reverse_reverse]

/-- A text without blanks has none around it. -/
theorem trimmed_self {text : List Char} (h : ∀ c ∈ text, isBlank c = false) :
    Trimmed text text where
  around := ⟨[], [], by simp, List.forall_mem_nil _, List.forall_mem_nil _⟩
  first c hc := h c (List.mem_of_head? hc)
  last c hc := h c (List.mem_of_getLast? hc)

end Text

namespace Version

variable {text core : List Char} {v : Version}

/-! ### Numerals -/

/-- Digits that write a word: at least one, and a value below `2 ^ 64`. -/
structure Numeral (digits : List Char) (n : UInt64) : Prop where
  ne_nil : digits ≠ []
  digit : ∀ c ∈ digits, c.isDigit = true
  value_eq : Nat.ofDigits 10 (digits.reverse.map fun c ↦ c.toNat - '0'.toNat) = n.toNat

theorem digitsValue_eq (digits : List Char) :
    digitsValue digits = Nat.ofDigits 10 (digits.reverse.map fun c ↦ c.toNat - '0'.toNat) := by
  induction hreverse : digits.reverse generalizing digits with
  | nil => rw [List.reverse_eq_nil_iff.mp hreverse]; rfl
  | cons last before ih =>
    obtain rfl : digits = before.reverse ++ [last] := by
      rw [← List.reverse_cons, ← hreverse, List.reverse_reverse]
    rw [List.map_cons, Nat.ofDigits_cons, ← ih before.reverse (List.reverse_reverse _), digitsValue,
      List.foldl_append]
    exact Nat.add_comm _ _

theorem component?_eq_some_iff {piece : List Char} {n : UInt64} :
    component? piece = some n ↔ Numeral piece n := by
  unfold component?
  constructor
  · intro h
    split_ifs at h with hpiece
    simp only [Bool.and_eq_true, decide_eq_true_eq, Bool.not_eq_true', List.isEmpty_eq_false_iff,
      List.all_eq_true] at hpiece
    obtain ⟨⟨hne, hdigit⟩, hlt⟩ := hpiece
    refine ⟨hne, hdigit, ?_⟩
    rw [← Option.some.inj h, ← digitsValue_eq]
    exact (UInt64.toNat_ofNat_of_lt' hlt).symm
  · rintro ⟨hne, hdigit, hvalue⟩
    rw [← digitsValue_eq] at hvalue
    rw [if_pos, hvalue, UInt64.ofNat_toNat]
    simp only [Bool.and_eq_true, decide_eq_true_eq, Bool.not_eq_true', List.isEmpty_eq_false_iff,
      List.all_eq_true]
    exact ⟨⟨hne, hdigit⟩, hvalue ▸ n.toNat_lt⟩

theorem numeral_toDigits (n : UInt64) : Numeral (Nat.toDigits 10 n.toNat) n where
  ne_nil := Nat.toDigits_ne_nil
  digit _ hc := Nat.isDigit_of_mem_toDigits (by decide) (by decide) hc
  value_eq := by
    have hn := Nat.ofDigitChars_ten_toDigits (n := n.toNat)
    rw [Nat.ofDigitChars_eq_foldl] at hn
    exact (digitsValue_eq _).symm.trans hn

/-! ### The core -/

/-- One to three numerals between dots. Parts that are missing are zero. -/
inductive Core : List Char → Version → Prop
  | one {a : List Char} {major : UInt64} (hmajor : Numeral a major) : Core a ⟨major, 0, 0⟩
  | two {a b : List Char} {major minor : UInt64} (hmajor : Numeral a major)
      (hminor : Numeral b minor) : Core (a ++ '.' :: b) ⟨major, minor, 0⟩
  | three {a b c : List Char} {major minor patch : UInt64} (hmajor : Numeral a major)
      (hminor : Numeral b minor) (hpatch : Numeral c patch) :
      Core (a ++ '.' :: (b ++ '.' :: c)) ⟨major, minor, patch⟩

theorem pieces_of_digits {digits : List Char} (h : ∀ c ∈ digits, c.isDigit = true) :
    pieces digits = [digits] ∧ ∀ rest, pieces (digits ++ '.' :: rest) = digits :: pieces rest := by
  induction digits with
  | nil => exact ⟨rfl, fun rest ↦ rfl⟩
  | cons c more ih =>
    obtain ⟨hc, hmore⟩ := List.forall_mem_cons.mp h
    obtain ⟨hend, hdot⟩ := ih hmore
    have hne : (c == '.') = false := beq_false_of_ne (by rintro rfl; exact absurd hc (by decide))
    refine ⟨?_, fun rest ↦ ?_⟩
    · rw [pieces, hend]
      simp [hne]
    · rw [List.cons_append, pieces, hdot]
      simp [hne]

theorem pieces_ne_nil (text : List Char) : pieces text ≠ [] := by
  unfold pieces
  split
  · simp
  · split
    · simp
    · split <;> simp

/-- The pieces with dots between them are the text. -/
theorem intercalate_pieces (text : List Char) : ['.'].intercalate (pieces text) = text := by
  induction text with
  | nil => rfl
  | cons c rest ih =>
    obtain ⟨piece, more, hpieces⟩ := List.exists_cons_of_ne_nil (pieces_ne_nil rest)
    rw [hpieces] at ih
    rw [pieces, hpieces]
    split
    · rename_i hdot
      rw [List.intercalate_cons_cons, ih, eq_of_beq hdot]
      rfl
    · cases more with
      | nil => rw [← ih]; rfl
      | cons next more => simp [← ih, List.intercalate_cons_cons]

theorem ofPieces?_eq_some_iff : ofPieces? (pieces text) = some v ↔ Core text v := by
  constructor
  · intro h
    have htext := intercalate_pieces text
    generalize pieces text = parts at h htext
    subst htext
    unfold ofPieces? at h
    split at h
    · simp only [Option.bind_eq_bind, Option.bind_eq_some_iff, component?_eq_some_iff] at h
      obtain ⟨major, hmajor, h⟩ := h
      cases h
      simpa [List.intercalate] using Core.one hmajor
    · simp only [Option.bind_eq_bind, Option.bind_eq_some_iff, component?_eq_some_iff] at h
      obtain ⟨major, hmajor, minor, hminor, h⟩ := h
      cases h
      simpa [List.intercalate] using Core.two hmajor hminor
    · simp only [Option.bind_eq_bind, Option.bind_eq_some_iff, component?_eq_some_iff] at h
      obtain ⟨major, hmajor, minor, hminor, patch, hpatch, h⟩ := h
      cases h
      simpa [List.intercalate] using Core.three hmajor hminor hpatch
    · cases h
  · intro h
    cases h with
    | one hmajor =>
      rw [(pieces_of_digits hmajor.digit).1]
      simp [ofPieces?, component?_eq_some_iff.mpr hmajor]
    | two hmajor hminor =>
      rw [(pieces_of_digits hmajor.digit).2, (pieces_of_digits hminor.digit).1]
      simp [ofPieces?, component?_eq_some_iff.mpr hmajor, component?_eq_some_iff.mpr hminor]
    | three hmajor hminor hpatch =>
      rw [(pieces_of_digits hmajor.digit).2, (pieces_of_digits hminor.digit).2,
        (pieces_of_digits hpatch.digit).1]
      simp [ofPieces?, component?_eq_some_iff.mpr hmajor, component?_eq_some_iff.mpr hminor,
        component?_eq_some_iff.mpr hpatch]

/-- A core is made of digits and dots. -/
theorem Core.isDigit_or_dot (h : Core core v) : ∀ c ∈ core, c.isDigit = true ∨ c = '.' := by
  intro c hc
  cases h with
  | one hmajor => exact .inl (hmajor.digit c hc)
  | two hmajor hminor =>
    simp only [List.mem_append, List.mem_cons] at hc
    rcases hc with hc | hc | hc
    · exact .inl (hmajor.digit c hc)
    · exact .inr hc
    · exact .inl (hminor.digit c hc)
  | three hmajor hminor hpatch =>
    simp only [List.mem_append, List.mem_cons] at hc
    rcases hc with hc | hc | hc | hc | hc
    · exact .inl (hmajor.digit c hc)
    · exact .inr hc
    · exact .inl (hminor.digit c hc)
    · exact .inr hc
    · exact .inl (hpatch.digit c hc)

theorem Core.toNat_range (h : Core core v) : ∀ c ∈ core, 46 ≤ c.toNat ∧ c.toNat ≤ 57 := by
  intro c hc
  rcases h.isDigit_or_dot c hc with hdigit | rfl
  · have hrange := Char.isDigit_iff_toNat.mp hdigit
    exact ⟨Nat.le_trans (by decide) hrange.1, hrange.2⟩
  · decide

/-! ### The whole text -/

/-- What is left of a text without the `v` that it may start with. -/
inductive Unmarked : List Char → List Char → Prop
  | marked (bare : List Char) : Unmarked ('v' :: bare) bare
  | plain {bare : List Char} (h : bare.head? ≠ some 'v') : Unmarked bare bare

/-- How a version is written: with the blanks around it and one mark taken away it is a core, alone
or with a suffix. -/
inductive Written (text : List Char) (v : Version) : Prop
  | intro {middle core : List Char} (suffix : List Char) (htrim : Text.Trimmed text middle)
      (hmark : Unmarked middle (core ++ suffix)) (hcore : Core core v)
      (hsuffix : ∀ c ∈ suffix.head?, c = '-' ∨ c = '+')

theorem unmarked_stripMark (text : List Char) : Unmarked text (stripMark text) := by
  unfold stripMark
  split
  · exact .marked _
  · rename_i hplain
    refine .plain fun hhead ↦ ?_
    obtain ⟨rest, rfl⟩ := List.head?_eq_some_iff.mp hhead
    exact hplain rest rfl

theorem Unmarked.stripMark_eq {text bare : List Char} (h : Unmarked text bare) :
    stripMark text = bare := by
  cases h with
  | marked bare => rfl
  | plain h =>
    unfold stripMark
    split
    · exact absurd rfl h
    · rfl

theorem endsCore_eq_true_iff {c : Char} : endsCore c = true ↔ c = '-' ∨ c = '+' := by
  rw [endsCore, Bool.or_eq_true, beq_iff_eq, beq_iff_eq]

/-- The core ends where a suffix starts. -/
theorem Core.takeWhile_append (h : Core core v) {suffix : List Char}
    (hsuffix : ∀ c ∈ suffix.head?, c = '-' ∨ c = '+') :
    (core ++ suffix).takeWhile (fun c ↦ !endsCore c) = core := by
  have hinside : ∀ c ∈ core, (!endsCore c) = true := by
    intro c hc
    have hrange := h.toNat_range c hc
    rw [Bool.not_eq_true', Bool.eq_false_iff, ne_eq, endsCore_eq_true_iff]
    rintro (rfl | rfl)
    · exact absurd hrange.1 (by decide)
    · exact absurd hrange.1 (by decide)
  rw [List.takeWhile_append_of_pos hinside]
  cases suffix with
  | nil => rw [List.takeWhile_nil, List.append_nil]
  | cons c rest =>
    have hend := endsCore_eq_true_iff.mpr (hsuffix c rfl)
    rw [List.takeWhile_cons_of_neg (by simp [hend]), List.append_nil]

theorem ofChars?_eq_some_iff : ofChars? text = some v ↔ Written text v := by
  unfold ofChars?
  constructor
  · intro h
    refine .intro ((stripMark (Text.trimBlank text)).dropWhile fun c ↦ !endsCore c)
      (Text.trimmed_trimBlank text) ?_ (ofPieces?_eq_some_iff.mp h) ?_
    · rw [List.takeWhile_append_dropWhile]
      exact unmarked_stripMark _
    · intro c hc
      have hnot := List.head?_dropWhile_not (fun c ↦ !endsCore c) (stripMark (Text.trimBlank text))
      rw [hc] at hnot
      exact endsCore_eq_true_iff.mp (by simpa using hnot)
  · rintro ⟨suffix, htrim, hmark, hcore, hsuffix⟩
    rw [htrim.trimBlank_eq, hmark.stripMark_eq, hcore.takeWhile_append hsuffix]
    exact ofPieces?_eq_some_iff.mpr hcore

theorem ofString?_eq_some_iff {text : String} : ofString? text = some v ↔ Written text.toList v :=
  ofChars?_eq_some_iff

/-! ### Printed versions -/

/-- A core alone is a version. -/
theorem Core.written (h : Core core v) : Written core v := by
  have hrange := h.toNat_range
  refine .intro [] (Text.trimmed_self fun c hc ↦ ?_) ?_ h (by simp)
  · obtain ⟨hlow, hhigh⟩ := hrange c hc
    simp only [Text.isBlank, Bool.or_eq_false_iff, Bool.and_eq_false_iff, decide_eq_false_iff_not,
      beq_eq_false_iff_ne]
    omega
  · rw [List.append_nil]
    exact .plain fun hhead ↦ absurd (hrange 'v' (List.mem_of_head? hhead)).2 (by decide)

theorem core_render (v : Version) : Core v.render.toList v := by
  have htext : v.render.toList = Nat.toDigits 10 v.major.toNat ++
      '.' :: (Nat.toDigits 10 v.minor.toNat ++ '.' :: Nat.toDigits 10 v.patch.toNat) := by
    simp [render]
  rw [htext]
  exact .three (numeral_toDigits v.major) (numeral_toDigits v.minor) (numeral_toDigits v.patch)

/-- A printed version is read back. -/
theorem ofString?_render (v : Version) : ofString? v.render = some v :=
  ofString?_eq_some_iff.mpr (core_render v).written

/-- Reading accepts exactly the texts that are written as versions, and answers any other text as it
is. The printed form of a version is read back. -/
theorem parse_eq_iff (text : String) (v : Version) :
    (parse text = .ok v ↔ Written text.toList v) ∧
      (∀ bad, parse text = .error bad ↔ bad = text ∧ ∀ w, ¬ Written text.toList w) ∧
      parse v.render = .ok v := by
  simp only [← ofString?_eq_some_iff]
  refine ⟨?_, fun bad ↦ ?_, ?_⟩
  · unfold parse
    cases ofString? text <;> simp
  · unfold parse
    cases ofString? text <;> simp [eq_comm]
  · rw [parse, ofString?_render]

/-- Blanks around it, a mark, leading zeros, and a suffix that counts for nothing. -/
example : ofChars? "\tv1.02-rc.1+x \n".toList = some ⟨1, 2, 0⟩ := by decide

end Version

end Blueprint
