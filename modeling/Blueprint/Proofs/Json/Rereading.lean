import Blueprint.Proofs.Decode.Declared
import Blueprint.Proofs.Json.Numbers

/-!
What is written as indented JSON is read back as the tree of the value it was written for
(`ofString_indented`). A text is read as a value wherever it stands (`Reads`), so that the texts of
items and members are put together between their brackets.
-/

set_option autoImplicit false

namespace Blueprint

/-- A number that its own text is read as. Whole numbers are, as long as they fit into a word. -/
def JsonNumber.Legible : JsonNumber → Prop
  | .whole n => Source.OneWord n
  | .real x => Json.ofString? (JsonNumber.real x).render = some (.number (.real x))

namespace Source

theorem skipBlanks_append {blanks : List UInt8} (h : ∀ b ∈ blanks, isBlankByte b = true)
    (text : List UInt8) : skipBlanks (blanks ++ text) = skipBlanks text :=
  List.dropWhile_append_of_pos h

theorem skipBlanks_blank {b : UInt8} (h : isBlankByte b = true) (text : List UInt8) :
    skipBlanks (b :: text) = skipBlanks text :=
  List.dropWhile_cons_of_pos h

theorem skipBlanks_cons {b : UInt8} (h : isBlankByte b = false) (text : List UInt8) :
    skipBlanks (b :: text) = b :: text := by
  simp [skipBlanks, h]

theorem skipBlanks_skipBlanks (text : List UInt8) : skipBlanks (skipBlanks text) = skipBlanks text := by
  induction text with
  | nil => rfl
  | cons b text ih =>
    by_cases hb : isBlankByte b = true
    · rw [skipBlanks_blank hb, ih]
    · rw [skipBlanks_cons (by simpa using hb), skipBlanks_cons (by simpa using hb)]

theorem readValue_skipBlanks (fuel : Nat) (text : List UInt8) :
    readValue fuel (skipBlanks text) = readValue fuel text := by
  cases fuel with
  | zero => simp only [readValue]
  | succ fuel => simp only [readValue, skipBlanks_skipBlanks]

/-- A text is read as a value, whatever follows it that is no part of a number. What is left is what
follows it, but for blanks. -/
structure Reads (text : List UInt8) (source : Source) : Prop where
  sound : source ≠ .broken
  read : ∀ fuel rest, 2 * text.length ≤ fuel → EndsNumber rest →
    ∃ after, readValue fuel (text ++ rest) = (source, after) ∧ skipBlanks after = skipBlanks rest

/-! ### Leaves -/

theorem reads_word (word : String) {letter : UInt8} {letters : List UInt8} {source : Source}
    (hword : word.toList.map code = letter :: letters) (hsound : source ≠ .broken)
    (hread : ∀ fuel rest, readValue (fuel + 1) (letter :: (letters ++ rest)) =
      readWord word source (letter :: (letters ++ rest))) :
    Reads (letter :: letters) source := by
  refine ⟨hsound, fun fuel rest hfuel _ ↦ ⟨rest, ?_, rfl⟩⟩
  obtain ⟨fuel, rfl⟩ : ∃ more, fuel = more + 1 := ⟨fuel - 1, by simp at hfuel; omega⟩
  have hlength : letters.length + 1 = (letter :: letters).length := rfl
  rw [List.cons_append, hread, readWord, hword]
  simp

theorem reads_null : Reads (bytesOf "null") .null := by
  rw [bytesOf_eq]
  exact reads_word "null" rfl (by simp) fun fuel rest ↦ rfl

theorem reads_true : Reads (bytesOf "true") (.bool true) := by
  rw [bytesOf_eq]
  exact reads_word "true" rfl (by simp) fun fuel rest ↦ rfl

theorem reads_false : Reads (bytesOf "false") (.bool false) := by
  rw [bytesOf_eq]
  exact reads_word "false" rfl (by simp) fun fuel rest ↦ rfl

theorem readValue_quote (fuel : Nat) (text : List UInt8) :
    readValue (fuel + 1) (34 :: text) =
      match readContent fuel [] true text with
      | some (value, rest) => (.string value, rest)
      | none => (.broken, []) := rfl

theorem reads_string (s : String) : Reads (bytesOf (Json.renderString s)) (.string (some s)) := by
  refine ⟨by simp, fun fuel rest hfuel _ ↦ ⟨rest, ?_, rfl⟩⟩
  rw [bytesOf_renderString, List.length_cons] at hfuel
  obtain ⟨fuel, rfl⟩ : ∃ more, fuel = more + 1 := ⟨fuel - 1, by omega⟩
  rw [bytesOf_renderString, List.cons_append, readValue_quote,
    readContent_rendered s rest (by omega)]

theorem readWord_fst (word : String) (value : Source) (text : List UInt8) :
    (readWord word value text).1 = value ∨ (readWord word value text).1 = .broken := by
  unfold readWord
  dsimp only
  split
  · exact Or.inl rfl
  · exact Or.inr rfl

/-- A value whose text starts like that of no other kind is a number. -/
theorem readValue_number {fuel : Nat} {text : List UInt8} {value : Option JsonNumber}
    (h : (readValue (fuel + 1) text).1 = .number value) :
    ∃ b more, skipBlanks text = b :: more ∧
      ∀ fuel more, readValue (fuel + 1) (b :: more) = readNumber (b :: more) := by
  simp only [readValue] at h
  cases hskip : skipBlanks text with
  | nil =>
    rw [hskip] at h
    cases h
  | cons b more =>
    have hsolid : isBlankByte b = false := by
      have hhead := List.head?_dropWhile_not isBlankByte text
      rw [show text.dropWhile isBlankByte = b :: more from hskip] at hhead
      exact hhead
    have hword {word : String} {source : Source} {text : List UInt8}
        (hvalue : (readWord word source text).1 = .number value)
        (hne : source ≠ .number value) : False := by
      rcases readWord_fst word source text with hword | hword <;> rw [hword] at hvalue
      · exact hne hvalue
      · cases hvalue
    rw [hskip] at h
    dsimp only at h
    by_cases hn : (b == code 'n') = true
    · rw [if_pos hn] at h
      exact (hword h (by simp)).elim
    by_cases ht : (b == code 't') = true
    · rw [if_neg hn, if_pos ht] at h
      exact (hword h (by simp)).elim
    by_cases hf : (b == code 'f') = true
    · rw [if_neg hn, if_neg ht, if_pos hf] at h
      exact (hword h (by simp)).elim
    rw [if_neg hn, if_neg ht, if_neg hf] at h
    by_cases hquote : (b == code '"') = true
    · rw [if_pos hquote] at h
      split at h <;> cases h
    by_cases harray : (b == code '[') = true
    · rw [if_neg hquote, if_pos harray] at h
      split at h <;> cases h
    by_cases hobject : (b == 123) = true
    · rw [if_neg hquote, if_neg harray, if_pos hobject] at h
      split at h <;> cases h
    refine ⟨b, more, rfl, fun fuel more ↦ ?_⟩
    simp only [readValue, skipBlanks_cons hsolid]
    rw [if_neg hn, if_neg ht, if_neg hf, if_neg hquote, if_neg harray, if_neg hobject]

theorem toJson_eq_number {depth : Nat} {source : Source} {n : JsonNumber}
    (h : source.toJson depth = .ok (.number n)) : source = .number (some n) := by
  cases source with
  | number value =>
    cases value with
    | none => cases h
    | some m =>
      have hm := Except.ok.inj h
      rw [Json.number.inj hm]
  | string value => cases value <;> cases h
  | array items closed =>
    rw [toJson] at h
    obtain ⟨inner, -, h⟩ := Reading.bind_eq_ok_iff.mp h
    obtain ⟨values, -, h⟩ := Reading.bind_eq_ok_iff.mp h
    split at h <;> cases h
  | object members closed =>
    rw [toJson] at h
    obtain ⟨inner, -, h⟩ := Reading.bind_eq_ok_iff.mp h
    obtain ⟨values, -, h⟩ := Reading.bind_eq_ok_iff.mp h
    split at h <;> cases h
  | null | bool | broken => cases h

theorem ofString_eq {text : String} {root : Source} {left : List UInt8}
    (h : readValue (2 * (bytesOf text).length + 2) (bytesOf text) = (root, left)) :
    SourceText.ofString text = ⟨root, (skipBlanks left).isEmpty⟩ := by
  rw [SourceText.ofString, SourceText.ofBytes, show text.toUTF8.toList = bytesOf text from rfl, h]

theorem ends_of_decode {α : Type} {text : SourceText} {read : Nat → Source → Reading α} {value : α}
    (h : text.decode read = .ok value) : text.ends = true := by
  obtain ⟨found, -, h⟩ := Reading.bind_eq_ok_iff.mp h
  split at h
  · assumption
  · cases h

theorem reads_of_ofString {n : JsonNumber} (h : Json.ofString? n.render = some (.number n)) :
    Reads (bytesOf n.render) (.number (some n)) := by
  obtain ⟨root, left, hread⟩ : ∃ root left, readValue (2 * (bytesOf n.render).length + 2)
      (bytesOf n.render) = (root, left) := ⟨_, _, rfl⟩
  have htext := ofString_eq hread
  have hdecode : (SourceText.ofString n.render).decode toJson = .ok (.number n) := by
    rw [Json.ofString?] at h
    split at h
    · rename_i json hjson
      rw [hjson, Option.some.inj h]
    · cases h
  have hroot := SourceText.read_of_decode hdecode
  have hends := ends_of_decode hdecode
  rw [htext] at hroot hends
  obtain rfl : root = .number (some n) := toJson_eq_number hroot
  obtain ⟨b, more, hskip, hnumber⟩ := readValue_number (congrArg Prod.fst hread)
  have hstart : readNumber (b :: more) = (.number (some n), left) := by
    rw [← hnumber, ← hskip, readValue_skipBlanks, hread]
  have hblank : skipBlanks left = [] := List.isEmpty_iff.mp hends
  obtain ⟨l, hliteral, hvalue⟩ : ∃ l, readLiteral (b :: more) = some (l, left) ∧
      l.value = some n := by
    unfold readNumber at hstart
    split at hstart
    · rename_i l rest hliteral
      obtain ⟨hvalue, rfl⟩ := Prod.mk.inj hstart
      exact ⟨l, hliteral, Source.number.inj hvalue⟩
    · cases (Prod.mk.inj hstart).1
  refine ⟨by simp, fun fuel rest hfuel hrest ↦ ⟨left ++ rest, ?_, ?_⟩⟩
  · have hlength : (bytesOf n.render).length ≠ 0 := by
      intro hnil
      rw [List.length_eq_zero_iff.mp hnil] at hskip
      cases hskip
    obtain ⟨fuel, rfl⟩ : ∃ less, fuel = less + 1 := ⟨fuel - 1, by omega⟩
    have hboth : skipBlanks (bytesOf n.render ++ rest) = b :: (more ++ rest) := by
      rw [skipBlanks, List.dropWhile_append, ← skipBlanks, hskip]
      rfl
    rw [← readValue_skipBlanks, hboth, hnumber, readNumber, ← List.cons_append,
      readLiteral_append hliteral fun _ ↦ hrest]
    simp [hvalue]
  · rw [skipBlanks, List.dropWhile_append, ← skipBlanks, hblank]
    rfl

/-- A number starts with a digit or its sign. -/
theorem readNumber_start {b : UInt8} {more : List UInt8} {value : Option JsonNumber}
    (h : (readNumber (b :: more)).1 = .number value) : b = 45 ∨ isDigit b = true := by
  by_contra hnot
  obtain ⟨hminus, hdigit⟩ := not_or.mp hnot
  have hnone : readLiteral (b :: more) = none := by
    rw [readLiteral_unsigned fun text heq ↦ hminus (List.cons.inj heq).1, readUnsigned]
    simp [takeDigits, hdigit, isMisspelt]
  rw [readNumber, hnone] at h
  cases h

theorem readValue_of_start {b : UInt8} (h : b = 45 ∨ isDigit b = true) (fuel : Nat)
    (more : List UInt8) : readValue (fuel + 1) (b :: more) = readNumber (b :: more) := by
  rcases h with rfl | h
  · rfl
  · simp only [isDigit, Bool.and_eq_true, decide_eq_true_eq, UInt8.le_iff_toNat_le] at h
    obtain ⟨n, hlow, hhigh, rfl⟩ : ∃ n, 48 ≤ n ∧ n ≤ 57 ∧ UInt8.ofNat n = b :=
      ⟨b.toNat, h.1, h.2, UInt8.ofNat_toNat⟩
    interval_cases n <;> rfl

theorem reads_whole {n : Int} (h : OneWord n) :
    Reads (bytesOf (JsonNumber.whole n).render) (.number (some (.whole n))) := by
  refine ⟨by simp, fun fuel rest hfuel hrest ↦ ⟨rest, ?_, rfl⟩⟩
  have hnumber := readNumber_whole h hrest
  cases htext : bytesOf (JsonNumber.whole n).render with
  | nil =>
    have hnone := readNumber_whole h endsNumber_nil
    rw [htext] at hnone
    cases hnone
  | cons b more =>
    rw [htext] at hnumber hfuel
    obtain ⟨fuel, rfl⟩ : ∃ less, fuel = less + 1 := ⟨fuel - 1, by simp at hfuel; omega⟩
    rw [List.cons_append] at hnumber ⊢
    rw [readValue_of_start (readNumber_start (congrArg Prod.fst hnumber)), hnumber]

theorem reads_number {n : JsonNumber} (h : n.Legible) :
    Reads (bytesOf n.render) (.number (some n)) := by
  cases n with
  | whole n => exact reads_whole h
  | real x => exact reads_of_ofString h

/-! ### Arrays and objects -/

/-- Texts one after another, with a comma and some blanks between them. -/
def listed (blanks : List UInt8) : List (List UInt8) → List UInt8
  | [] => []
  | [text] => text
  | text :: next :: rest => text ++ 44 :: (blanks ++ listed blanks (next :: rest))

theorem readItems_skipBlanks (fuel : Nat) (text : List UInt8) :
    readItems fuel (skipBlanks text) = readItems fuel text := by
  cases fuel with
  | zero => simp only [readItems]
  | succ fuel => simp only [readItems, readValue_skipBlanks]

/-- No value starts with a closing bracket. -/
theorem Reads.ne_closing {text : List UInt8} {source : Source} (h : Reads text source)
    {rest : List UInt8} (hrest : EndsNumber rest) (more : List UInt8) :
    skipBlanks (text ++ rest) ≠ 93 :: more := by
  intro hskip
  obtain ⟨after, hread, -⟩ := h.read (2 * text.length + 1) rest (by omega) hrest
  rw [← readValue_skipBlanks, hskip] at hread
  have hbroken : readValue (2 * text.length + 1) (93 :: more) = (.broken, []) := rfl
  rw [hbroken] at hread
  exact h.sound (Prod.mk.inj hread).1.symm

section

variable {blanks closing : List UInt8}

theorem endsNumber_comma (text : List UInt8) : EndsNumber (44 :: text) :=
  .of_cons (by decide)

/-- What closes a bracket may stand behind blanks. -/
theorem endsNumber_closing (hclosing : ∀ b ∈ closing, isBlankByte b = true) {bracket : UInt8}
    (hbracket : bracket = 93 ∨ bracket = 125) (rest : List UInt8) :
    EndsNumber (closing ++ bracket :: rest) := by
  cases closing with
  | nil => rcases hbracket with rfl | rfl <;> exact .of_cons (by decide)
  | cons b more =>
    have hb := hclosing b List.mem_cons_self
    simp only [isBlankByte, Bool.or_eq_true, beq_iff_eq] at hb
    rcases hb with ((rfl | rfl) | rfl) | rfl <;> exact .of_cons (by decide)

/-- The first of some texts stands at the start. -/
theorem listed_append (blanks : List UInt8) {ending : List UInt8} (hending : EndsNumber ending) (text : List UInt8)
    (texts : List (List UInt8)) :
    ∃ more, listed blanks (text :: texts) ++ ending = text ++ more ∧ EndsNumber more := by
  cases texts with
  | nil => exact ⟨_, rfl, hending⟩
  | cons next texts =>
    refine ⟨44 :: (blanks ++ listed blanks (next :: texts) ++ ending), ?_, endsNumber_comma _⟩
    simp [listed]

theorem readItems_listed (rest : List UInt8) (hblanks : ∀ b ∈ blanks, isBlankByte b = true)
    (hclosing : ∀ b ∈ closing, isBlankByte b = true) {texts : List (List UInt8)}
    {sources : List Source} (h : List.Forall₂ Reads texts sources) (hsome : texts ≠ []) {fuel : Nat}
    (hfuel : 2 * (listed blanks texts).length + 1 ≤ fuel) :
    readItems fuel (listed blanks texts ++ (closing ++ 93 :: rest)) = (sources, true, rest) := by
  induction h generalizing fuel with
  | nil => exact absurd rfl hsome
  | @cons text source texts sources hread hmore ih =>
    obtain ⟨fuel, rfl⟩ : ∃ less, fuel = less + 1 := ⟨fuel - 1, by omega⟩
    cases hmore with
    | nil =>
      obtain ⟨after, hvalue, hafter⟩ := hread.read fuel (closing ++ 93 :: rest)
        (by simp only [listed] at hfuel; omega) (endsNumber_closing hclosing (Or.inl rfl) rest)
      rw [skipBlanks_append hclosing, skipBlanks_cons rfl] at hafter
      simp only [listed, readItems, hvalue, hafter]
    | @cons next source' texts sources' hnext hmore =>
      have hless : 2 * (listed blanks (next :: texts)).length + 1 ≤ fuel := by
        simp only [listed, List.length_append, List.length_cons] at hfuel ⊢
        omega
      have hlater := ih (by simp) hless
      obtain ⟨after, hvalue, hafter⟩ := hread.read fuel
        (44 :: (blanks ++ listed blanks (next :: texts)) ++ (closing ++ 93 :: rest))
        (by simp only [listed, List.length_append] at hfuel; omega) (endsNumber_comma _)
      rw [List.cons_append, skipBlanks_cons rfl, List.append_assoc] at hafter
      obtain ⟨tail, htail, hends⟩ :=
        listed_append blanks (endsNumber_closing hclosing (Or.inl rfl) rest) next texts
      have hskip : skipBlanks (blanks ++
          (listed blanks (next :: texts) ++ (closing ++ 93 :: rest))) =
            skipBlanks (next ++ tail) := by
        rw [skipBlanks_append hblanks, htail]
      rw [listed, List.append_assoc]
      simp only [readItems, hvalue, hafter, hskip]
      split
      · rename_i heq
        exact absurd heq (hnext.ne_closing hends _)
      · rw [readItems_skipBlanks, ← htail, hlater]

/-- A member of an object. -/
def memberText (key : String) (text : List UInt8) : List UInt8 :=
  bytesOf (Json.renderString key) ++ 58 :: 32 :: text

/-- The text of a member, key and value. -/
def ReadsMember (text : List UInt8) (member : Option String × Source) : Prop :=
  ∃ key value, text = memberText key value ∧ member.1 = some key ∧ Reads value member.2

theorem readMembers_skipBlanks (fuel : Nat) (text : List UInt8) :
    readMembers fuel (skipBlanks text) = readMembers fuel text := by
  cases fuel with
  | zero => simp only [readMembers]
  | succ fuel => simp only [readMembers, skipBlanks_skipBlanks]

/-- One member, and what is left of the text after it. -/
theorem ReadsMember.read {text : List UInt8} {member : Option String × Source}
    (h : ReadsMember text member) {fuel : Nat} (hfuel : 2 * text.length ≤ fuel)
    (rest : List UInt8) (hrest : EndsNumber rest) :
    ∃ after, skipBlanks after = skipBlanks rest ∧
      readMembers (fuel + 1) (text ++ rest) =
        match skipBlanks after with
        | 125 :: rest => ([member], true, rest)
        | 44 :: rest =>
          let (members, closed, rest) := readMembers fuel rest
          (member :: members, closed, rest)
        | _ => ([member], false, []) := by
  obtain ⟨key, value, rfl, hkey, hvalue⟩ := h
  obtain ⟨name, source⟩ := member
  obtain rfl : name = some key := hkey
  rw [memberText, bytesOf_renderString] at hfuel ⊢
  simp only [List.length_append, List.length_cons] at hfuel
  obtain ⟨after, hread, hafter⟩ := hvalue.read fuel rest (by omega) hrest
  have hspace : readValue fuel (32 :: (value ++ rest)) = (source, after) := by
    rw [← readValue_skipBlanks, show skipBlanks (32 :: (value ++ rest)) = skipBlanks (value ++ rest)
      from skipBlanks_blank rfl _, readValue_skipBlanks, hread]
  have hcontent := readContent_rendered key (58 :: 32 :: (value ++ rest))
    (show (contentOf key).length ≤ fuel by omega)
  refine ⟨after, hafter, ?_⟩
  rw [List.append_assoc, List.cons_append, List.cons_append, List.cons_append]
  simp only [readMembers, skipBlanks_cons (b := 34) rfl, hcontent, skipBlanks_cons (b := 58) rfl,
    hspace] <;> rfl

theorem readMembers_listed (rest : List UInt8) (hblanks : ∀ b ∈ blanks, isBlankByte b = true)
    (hclosing : ∀ b ∈ closing, isBlankByte b = true) {texts : List (List UInt8)}
    {members : List (Option String × Source)} (h : List.Forall₂ ReadsMember texts members)
    (hsome : texts ≠ []) {fuel : Nat} (hfuel : 2 * (listed blanks texts).length + 1 ≤ fuel) :
    readMembers fuel (listed blanks texts ++ (closing ++ 125 :: rest)) = (members, true, rest) := by
  induction h generalizing fuel with
  | nil => exact absurd rfl hsome
  | @cons text member texts members hread hmore ih =>
    obtain ⟨fuel, rfl⟩ : ∃ less, fuel = less + 1 := ⟨fuel - 1, by omega⟩
    cases hmore with
    | nil =>
      have hvalue : 2 * text.length ≤ fuel := by
        simp only [listed] at hfuel
        omega
      obtain ⟨after, hafter, hmembers⟩ := hread.read hvalue (closing ++ 125 :: rest)
        (endsNumber_closing hclosing (Or.inr rfl) rest)
      rw [skipBlanks_append hclosing, skipBlanks_cons rfl] at hafter
      rw [listed, hmembers, hafter]
      rfl
    | @cons next member' texts members' hnext hmore =>
      have hless : 2 * (listed blanks (next :: texts)).length + 1 ≤ fuel := by
        simp only [listed, List.length_append, List.length_cons] at hfuel ⊢
        omega
      have hlater := ih (by simp) hless
      have hvalue : 2 * text.length ≤ fuel := by
        simp only [listed, List.length_append] at hfuel
        omega
      obtain ⟨after, hafter, hmembers⟩ := hread.read hvalue
        (44 :: (blanks ++ listed blanks (next :: texts)) ++ (closing ++ 125 :: rest))
        (endsNumber_comma _)
      rw [List.cons_append, skipBlanks_cons rfl, List.append_assoc] at hafter
      have hskip : readMembers fuel (blanks ++
          (listed blanks (next :: texts) ++ (closing ++ 125 :: rest))) =
            (member' :: members', true, rest) := by
        rw [← readMembers_skipBlanks, skipBlanks_append hblanks, readMembers_skipBlanks, hlater]
      rw [listed, List.append_assoc, hmembers, hafter]
      simp only [hskip]

end

/-! ### Indented text -/

/-- The bytes of a new line. -/
def lineOf (depth : Nat) : List UInt8 := bytesOf (Json.newline depth)

theorem isBlankByte_lineOf (depth : Nat) : ∀ b ∈ lineOf depth, isBlankByte b = true := by
  have hline : lineOf depth = 10 :: List.replicate (2 * depth) 32 := by
    have hspaces (n : Nat) : (List.replicate n ' ').flatMap String.utf8EncodeChar =
        List.replicate n 32 := by
      induction n with
      | zero => rfl
      | succ n ih => rw [List.replicate_succ, List.flatMap_cons, ih]; rfl
    rw [lineOf, Json.newline, bytesOf_append, bytesOf_ofList (List.replicate _ _), hspaces,
      bytesOf_eq]
    rfl
  intro b hb
  rw [hline, List.mem_cons, List.mem_replicate] at hb
  rcases hb with rfl | ⟨-, rfl⟩ <;> rfl

theorem bytesOf_intercalate (depth : Nat) (items : List String) :
    bytesOf (("," ++ Json.newline depth).intercalate items) =
      listed (lineOf depth) (items.map bytesOf) := by
  induction items with
  | nil => rw [String.intercalate_nil, bytesOf_eq]; rfl
  | cons item items ih =>
    cases items with
    | nil => rw [String.intercalate_singleton]; rfl
    | cons next items =>
      have hcomma : bytesOf "," = [44] := by rw [bytesOf_eq]; rfl
      rw [String.intercalate_cons_cons, bytesOf_append, bytesOf_append, ih, bytesOf_append, hcomma]
      simp [listed, lineOf]

section

variable {opening closing : String} {first last : UInt8}

theorem bytesOf_bracketed_nil (hopening : bytesOf opening = [first])
    (hclosing : bytesOf closing = [last]) (depth : Nat) :
    bytesOf (Json.bracketed opening closing depth []) = [first, last] := by
  refine (bytesOf_append opening closing).trans ?_
  rw [hopening, hclosing]
  rfl

theorem bytesOf_bracketed (hopening : bytesOf opening = [first]) (hclosing : bytesOf closing = [last])
    (depth : Nat) {items : List String} (hsome : items ≠ []) (rest : List UInt8) :
    bytesOf (Json.bracketed opening closing depth items) ++ rest =
      first :: (lineOf (depth + 1) ++ (listed (lineOf (depth + 1)) (items.map bytesOf) ++
        (lineOf depth ++ last :: rest))) := by
  rw [Json.bracketed, if_neg (by simpa using hsome)]
  simp only [bytesOf_append, bytesOf_intercalate, lineOf, hopening, hclosing, List.append_assoc,
    List.cons_append, List.nil_append]

/-- There is enough to read the items with, once the bracket has been met. -/
theorem fuel_of_bracketed (hopening : bytesOf opening = [first]) (hclosing : bytesOf closing = [last])
    {depth : Nat} {items : List String} (hsome : items ≠ []) {fuel : Nat}
    (hfuel : 2 * (bytesOf (Json.bracketed opening closing depth items)).length ≤ fuel) :
    ∃ less, fuel = less + 1 ∧
      2 * (listed (lineOf (depth + 1)) (items.map bytesOf)).length + 1 ≤ less := by
  have hbytes := bytesOf_bracketed hopening hclosing depth hsome []
  rw [List.append_nil] at hbytes
  rw [hbytes] at hfuel
  simp only [List.length_append, List.length_cons] at hfuel
  exact ⟨fuel - 1, by omega, by omega⟩

end

theorem readValue_array (fuel : Nat) (text : List UInt8) :
    readValue (fuel + 1) (91 :: text) =
      match skipBlanks text with
      | 93 :: rest => (.array [] true, rest)
      | rest =>
        let (items, closed, rest) := readItems fuel rest
        (.array items closed, rest) := rfl

theorem readValue_object (fuel : Nat) (text : List UInt8) :
    readValue (fuel + 1) (123 :: text) =
      match skipBlanks text with
      | 125 :: rest => (.object [] true, rest)
      | rest =>
        let (members, closed, rest) := readMembers fuel rest
        (.object members closed, rest) := rfl

theorem reads_array {depth : Nat} {items : List String} {sources : List Source}
    (h : List.Forall₂ Reads (items.map bytesOf) sources) :
    Reads (bytesOf (Json.bracketed "[" "]" depth items)) (.array sources true) := by
  have hopening : bytesOf "[" = [91] := by rw [bytesOf_eq]; rfl
  have hclosing : bytesOf "]" = [93] := by rw [bytesOf_eq]; rfl
  refine ⟨by simp, fun fuel rest hfuel _ ↦ ⟨rest, ?_, rfl⟩⟩
  cases items with
  | nil =>
    cases h
    rw [bytesOf_bracketed_nil hopening hclosing] at hfuel ⊢
    obtain ⟨fuel, rfl⟩ : ∃ less, fuel = less + 1 := ⟨fuel - 1, by simp at hfuel; omega⟩
    rfl
  | cons item items =>
    obtain ⟨fuel, rfl, henough⟩ := fuel_of_bracketed hopening hclosing (by simp) hfuel
    have hitems := readItems_listed rest (isBlankByte_lineOf (depth + 1))
      (isBlankByte_lineOf depth) h (by simp) henough
    obtain ⟨tail, htail, hends⟩ := listed_append (lineOf (depth + 1))
      (endsNumber_closing (isBlankByte_lineOf depth) (Or.inl rfl) rest) (bytesOf item)
      (items.map bytesOf)
    rw [bytesOf_bracketed hopening hclosing depth (by simp), readValue_array,
      skipBlanks_append (isBlankByte_lineOf _)]
    rw [List.map_cons, htail] at hitems ⊢
    cases h with
    | cons hfirst hmore =>
      split
      · rename_i heq
        exact absurd heq (hfirst.ne_closing hends _)
      · rw [readItems_skipBlanks, hitems]

theorem reads_object {depth : Nat} {items : List String} {members : List (Option String × Source)}
    (h : List.Forall₂ ReadsMember (items.map bytesOf) members) :
    Reads (bytesOf (Json.bracketed "\x7b" "\x7d" depth items)) (.object members true) := by
  have hopening : bytesOf "\x7b" = [123] := by rw [bytesOf_eq]; rfl
  have hclosing : bytesOf "\x7d" = [125] := by rw [bytesOf_eq]; rfl
  refine ⟨by simp, fun fuel rest hfuel _ ↦ ⟨rest, ?_, rfl⟩⟩
  cases items with
  | nil =>
    cases h
    rw [bytesOf_bracketed_nil hopening hclosing] at hfuel ⊢
    obtain ⟨fuel, rfl⟩ : ∃ less, fuel = less + 1 := ⟨fuel - 1, by simp at hfuel; omega⟩
    rfl
  | cons item items =>
    obtain ⟨fuel, rfl, henough⟩ := fuel_of_bracketed hopening hclosing (by simp) hfuel
    have hmembers := readMembers_listed rest (isBlankByte_lineOf (depth + 1))
      (isBlankByte_lineOf depth) h (by simp) henough
    obtain ⟨tail, htail, -⟩ := listed_append (lineOf (depth + 1))
      (endsNumber_closing (isBlankByte_lineOf depth) (Or.inr rfl) rest) (bytesOf item)
      (items.map bytesOf)
    rw [bytesOf_bracketed hopening hclosing depth (by simp), readValue_object,
      skipBlanks_append (isBlankByte_lineOf _)]
    rw [List.map_cons, htail] at hmembers ⊢
    cases h with
    | cons hfirst hmore =>
      obtain ⟨key, value, hmember, -⟩ := hfirst
      have hquote : bytesOf item ++ tail =
          34 :: (contentOf key ++ 58 :: 32 :: value ++ tail) := by
        rw [hmember, memberText, bytesOf_renderString]
        rfl
      rw [hquote] at hmembers ⊢
      rw [skipBlanks_cons rfl]
      split
      · rename_i heq
        exact absurd (List.cons.inj heq).1 (by decide)
      · rw [hmembers]

end Source

namespace Json

mutual

/-- The numbers of a value. -/
def numbers : Json → List JsonNumber
  | .number n => [n]
  | .array items => numbersOfItems items
  | .object members => numbersOfMembers members
  | .null | .bool _ | .string _ => []

def numbersOfItems : List Json → List JsonNumber
  | [] => []
  | item :: rest => numbers item ++ numbersOfItems rest

def numbersOfMembers : List (String × Json) → List JsonNumber
  | [] => []
  | (_, value) :: rest => numbers value ++ numbersOfMembers rest

end

end Json

namespace Source

mutual

theorem reads_indentedAt (depth : Nat) (json : Json) (h : ∀ n ∈ json.numbers, n.Legible) :
    Reads (bytesOf (json.indentedAt depth)) (ofJson json) := by
  cases json with
  | null => exact reads_null
  | bool b => cases b with
    | true => exact reads_true
    | false => exact reads_false
  | number n => exact reads_number (h n List.mem_cons_self)
  | string s => exact reads_string s
  | array items => exact reads_array (reads_indentedItems (depth + 1) items h)
  | object members => exact reads_object (reads_indentedMembers (depth + 1) members h)

theorem reads_indentedItems (depth : Nat) (items : List Json)
    (h : ∀ n ∈ Json.numbersOfItems items, n.Legible) :
    List.Forall₂ Reads ((Json.indentedItems depth items).map bytesOf) (ofItems items) := by
  cases items with
  | nil => exact .nil
  | cons item items =>
    exact .cons (reads_indentedAt depth item fun n hn ↦ h n (List.mem_append_left _ hn))
      (reads_indentedItems depth items fun n hn ↦ h n (List.mem_append_right _ hn))

theorem reads_indentedMembers (depth : Nat) (members : List (String × Json))
    (h : ∀ n ∈ Json.numbersOfMembers members, n.Legible) :
    List.Forall₂ ReadsMember ((Json.indentedMembers depth members).map bytesOf)
      (ofMembers members) := by
  cases members with
  | nil => exact .nil
  | cons member members =>
    obtain ⟨key, value⟩ := member
    have hcolon : bytesOf ": " = [58, 32] := by rw [bytesOf_eq]; rfl
    refine .cons ⟨key, bytesOf (value.indentedAt depth), ?_, rfl,
      reads_indentedAt depth value fun n hn ↦ h n (List.mem_append_left _ hn)⟩
      (reads_indentedMembers depth members fun n hn ↦ h n (List.mem_append_right _ hn))
    rw [memberText, bytesOf_append, bytesOf_append, hcolon]
    simp

end

/-- An indented text is read back as the value it was written for. -/
theorem ofString_indented {json : Json} (h : ∀ n ∈ json.numbers, n.Legible) :
    SourceText.ofString json.indented = ⟨ofJson json, true⟩ := by
  obtain ⟨after, hread, hafter⟩ := (reads_indentedAt 0 json h).read
    (2 * (bytesOf json.indented).length + 2) [] (by simp [Json.indented]) endsNumber_nil
  rw [List.append_nil] at hread
  change readValue _ (bytesOf json.indented) = _ at hread
  rw [ofString_eq hread, hafter]
  rfl

end Source

end Blueprint
