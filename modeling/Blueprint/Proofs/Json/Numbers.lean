import Blueprint.Proofs.Json.Strings

/-!
Numbers as JSON text. A literal ends where no more of it can follow (`EndsNumber`), so that it reads
the same with anything of that form behind it (`readLiteral_append`); and the digits of a whole
number of one word are read back as that number (`readNumber_whole`).
-/

set_option autoImplicit false

namespace Blueprint.Source

/-- Nothing of a number stands at the start of the text. -/
def EndsNumber (text : List UInt8) : Prop :=
  ∀ b ∈ text.head?, isDigit b = false ∧ b ≠ 46 ∧ b ≠ 101 ∧ b ≠ 69

theorem endsNumber_nil : EndsNumber [] := by simp [EndsNumber]

theorem EndsNumber.of_cons {b : UInt8} {text : List UInt8}
    (h : isDigit b = false ∧ b ≠ 46 ∧ b ≠ 101 ∧ b ≠ 69) : EndsNumber (b :: text) := by
  intro c hc
  obtain rfl : b = c := Option.some.inj hc
  exact h

section

variable {text after rest : List UInt8}

theorem takeDigits_append {digits : List Nat} (h : takeDigits text = (digits, after))
    (hrest : after = [] → EndsNumber rest) :
    takeDigits (text ++ rest) = (digits, after ++ rest) := by
  induction text generalizing digits with
  | nil =>
    obtain ⟨rfl, rfl⟩ := Prod.mk.inj h
    have hends := hrest rfl
    cases rest with
    | nil => rfl
    | cons b more =>
      have hb := (hends b rfl).1
      simp [takeDigits, hb]
  | cons b text ih =>
    by_cases hb : isDigit b = true
    · have hcons (text : List UInt8) : takeDigits (b :: text) =
          ((b.toNat - 48) :: (takeDigits text).1, (takeDigits text).2) := by
        simp [takeDigits, hb]
      rw [hcons] at h
      obtain ⟨rfl, rfl⟩ := Prod.mk.inj h
      have htail : takeDigits (text ++ rest) = ((takeDigits text).1, (takeDigits text).2 ++ rest) :=
        ih rfl
      rw [List.cons_append, hcons, htail]
    · have hcons (text : List UInt8) : takeDigits (b :: text) = ([], b :: text) := by
        simp [takeDigits, hb]
      rw [hcons] at h
      obtain ⟨rfl, rfl⟩ := Prod.mk.inj h
      rw [List.cons_append, hcons]

theorem readFraction_append {fraction : Option (List Nat)}
    (h : readFraction text = some (fraction, after)) (hrest : after = [] → EndsNumber rest) :
    readFraction (text ++ rest) = some (fraction, after ++ rest) := by
  unfold readFraction at h
  split at h
  case h_1 more =>
    obtain ⟨digits, left, hdigits⟩ : ∃ digits left, takeDigits more = (digits, left) := ⟨_, _, rfl⟩
    rw [hdigits] at h
    dsimp only at h
    split at h
    · cases h
    · obtain ⟨rfl, rfl⟩ := Prod.mk.inj (Option.some.inj h)
      rename_i hsome
      simp [readFraction, takeDigits_append hdigits hrest, hsome]
  case h_2 hpoint =>
    obtain ⟨rfl, rfl⟩ := Prod.mk.inj (Option.some.inj h)
    unfold readFraction
    split
    · rename_i more heq
      cases text with
      | nil => exact absurd rfl ((hrest rfl 46 (by simp [show rest = 46 :: more from heq])).2.1)
      | cons b text =>
        obtain ⟨rfl, -⟩ := List.cons.inj heq
        exact absurd rfl (hpoint text)
    · rfl

/-- Whether an exponent points upwards, and the text after its sign. -/
def signOf (text : List UInt8) : Bool × List UInt8 :=
  match text with
  | 43 :: rest => (true, rest)
  | 45 :: rest => (false, rest)
  | _ => (true, text)

/-- The part of an exponent after its letter. -/
def readPower (text : List UInt8) : Option (Option (Bool × List Nat) × List UInt8) :=
  if (takeDigits (signOf text).2).1.isEmpty then none
  else some (some ((signOf text).1, (takeDigits (signOf text).2).1), (takeDigits (signOf text).2).2)

theorem readExponent_lower (text : List UInt8) : readExponent (101 :: text) = readPower text := by
  simp only [readExponent, readPower, signOf]
  rfl

theorem readExponent_upper (text : List UInt8) : readExponent (69 :: text) = readPower text := by
  simp only [readExponent, readPower, signOf]
  rfl

theorem signOf_append (h : (signOf text).2 ≠ []) (rest : List UInt8) :
    signOf (text ++ rest) = ((signOf text).1, (signOf text).2 ++ rest) := by
  unfold signOf at h ⊢
  split at h
  · rfl
  · rfl
  · rename_i hplus hminus
    cases text with
    | nil => exact absurd rfl h
    | cons b text =>
      split
      · rename_i heq
        exact absurd (by rw [(List.cons.inj heq).1]) (hplus text)
      · rename_i heq
        exact absurd (by rw [(List.cons.inj heq).1]) (hminus text)
      · rfl

theorem readPower_append {exponent : Option (Bool × List Nat)}
    (h : readPower text = some (exponent, after)) (hrest : after = [] → EndsNumber rest) :
    readPower (text ++ rest) = some (exponent, after ++ rest) := by
  unfold readPower at h
  split at h
  · cases h
  · rename_i hdigits
    obtain ⟨rfl, rfl⟩ := Prod.mk.inj (Option.some.inj h)
    have hsome : (signOf text).2 ≠ [] := by
      intro hnil
      rw [hnil] at hdigits
      exact hdigits rfl
    have htake : takeDigits ((signOf text).2 ++ rest) = ((takeDigits (signOf text).2).1,
        (takeDigits (signOf text).2).2 ++ rest) := takeDigits_append rfl hrest
    rw [readPower, signOf_append hsome, htake, if_neg hdigits]

theorem readExponent_append {exponent : Option (Bool × List Nat)}
    (h : readExponent text = some (exponent, after)) (hrest : after = [] → EndsNumber rest) :
    readExponent (text ++ rest) = some (exponent, after ++ rest) := by
  cases text with
  | nil =>
    obtain ⟨rfl, rfl⟩ := Prod.mk.inj (Option.some.inj h)
    cases rest with
    | nil => rfl
    | cons b more =>
      obtain ⟨-, -, hlower, hupper⟩ := hrest rfl b rfl
      simp [readExponent, hlower, hupper]
  | cons b text =>
    by_cases hlower : b = 101
    · subst hlower
      rw [readExponent_lower] at h
      rw [List.cons_append, readExponent_lower]
      exact readPower_append h hrest
    · by_cases hupper : b = 69
      · subst hupper
        rw [readExponent_upper] at h
        rw [List.cons_append, readExponent_upper]
        exact readPower_append h hrest
      · have hnone (text : List UInt8) : readExponent (b :: text) = some (none, b :: text) := by
          simp [readExponent, hlower, hupper]
        rw [hnone] at h
        obtain ⟨rfl, rfl⟩ := Prod.mk.inj (Option.some.inj h)
        rw [List.cons_append, hnone]

/-- The digits of a whole part are not that of a number. -/
def isMisspelt (whole : List Nat) : Bool :=
  whole.isEmpty || (whole.length > 1 && whole.head? == some 0)

/-- A literal after its sign. -/
def readUnsigned (negative : Bool) (text : List UInt8) : Option (Literal × List UInt8) :=
  if isMisspelt (takeDigits text).1 then none
  else (readFraction (takeDigits text).2).bind fun part ↦ (readExponent part.2).bind fun last ↦
    some (⟨negative, (takeDigits text).1, part.1, last.1⟩, last.2)

theorem readLiteral_minus (text : List UInt8) :
    readLiteral (45 :: text) = readUnsigned true text := by
  unfold readLiteral readUnsigned isMisspelt
  simp only
  split <;> rfl

theorem readLiteral_unsigned (h : ∀ more, text ≠ 45 :: more) :
    readLiteral text = readUnsigned false text := by
  unfold readLiteral
  split
  rename_i negative more heq
  split at heq
  · exact absurd rfl (h _)
  · obtain ⟨rfl, rfl⟩ := Prod.mk.inj heq
    unfold readUnsigned isMisspelt
    simp only
    split <;> rfl

theorem readUnsigned_append {negative : Bool} {l : Literal}
    (h : readUnsigned negative text = some (l, after)) (hrest : after = [] → EndsNumber rest) :
    text ≠ [] ∧ readUnsigned negative (text ++ rest) = some (l, after ++ rest) := by
  -- What is left after each part is empty only if nothing is left in the end.
  have hlater {first : List UInt8} {exponent : Option (Bool × List Nat)}
      (hexponent : readExponent first = some (exponent, after)) (hnil : first = []) :
      after = [] := by
    subst hnil
    exact (Prod.mk.inj (Option.some.inj hexponent)).2.symm
  have hearlier {first second : List UInt8} {fraction : Option (List Nat)}
      (hfraction : readFraction first = some (fraction, second)) (hnil : first = []) :
      second = [] := by
    subst hnil
    exact (Prod.mk.inj (Option.some.inj hfraction)).2.symm
  have hfirst (hnil : text = []) : (takeDigits text).2 = [] := by rw [hnil]; rfl
  unfold readUnsigned at h
  split at h
  · cases h
  rename_i hspelt
  obtain ⟨⟨fraction, second⟩, hfraction, h⟩ := Option.bind_eq_some_iff.mp h
  obtain ⟨⟨exponent, third⟩, hexponent, h⟩ := Option.bind_eq_some_iff.mp h
  obtain ⟨rfl, rfl⟩ := Prod.mk.inj (Option.some.inj h)
  have hsecond (hnil : second = []) : EndsNumber rest := hrest (hlater hexponent hnil)
  have htake : takeDigits (text ++ rest) = ((takeDigits text).1, (takeDigits text).2 ++ rest) :=
    takeDigits_append rfl fun hnil ↦ hsecond (hearlier hfraction hnil)
  refine ⟨?_, ?_⟩
  · rintro rfl
    exact hspelt rfl
  · unfold readUnsigned
    rw [htake, if_neg hspelt, readFraction_append hfraction hsecond]
    simp only [Option.bind_some]
    rw [readExponent_append hexponent hrest, Option.bind_some]

theorem readLiteral_append {l : Literal} (h : readLiteral text = some (l, after))
    (hrest : after = [] → EndsNumber rest) :
    readLiteral (text ++ rest) = some (l, after ++ rest) := by
  by_cases hminus : ∃ more, text = 45 :: more
  · obtain ⟨more, rfl⟩ := hminus
    rw [readLiteral_minus] at h
    rw [List.cons_append, readLiteral_minus]
    exact (readUnsigned_append h hrest).2
  · have hunsigned (more : List UInt8) : text ≠ 45 :: more := fun heq ↦ hminus ⟨more, heq⟩
    rw [readLiteral_unsigned hunsigned] at h
    obtain ⟨hsome, happend⟩ := readUnsigned_append h hrest
    rw [readLiteral_unsigned, happend]
    intro more heq
    cases text with
    | nil => exact hsome rfl
    | cons b text => exact hunsigned text (by rw [(List.cons.inj heq).1])

end

/-! ### Whole numbers -/

/-- The digits of a whole number, as numbers. -/
def digitsOf (n : Nat) : List Nat := (Nat.toDigits 10 n).map fun c ↦ c.toNat - 48

/-- A digit is one byte. -/
theorem isDigit_code {c : Char} (h : c.isDigit = true) :
    String.utf8EncodeChar c = [code c] ∧ isDigit (code c) = true ∧
      (code c).toNat - 48 = c.toNat - 48 := by
  have hrange : 48 ≤ c.toNat ∧ c.toNat ≤ 57 := by
    simp only [Char.isDigit, Bool.and_eq_true, decide_eq_true_eq, UInt32.le_iff_toNat_le] at h
    exact h
  obtain ⟨n, hlow, hhigh, rfl⟩ : ∃ n, 48 ≤ n ∧ n ≤ 57 ∧ Char.ofNat n = c :=
    ⟨c.toNat, hrange.1, hrange.2, Char.ofNat_toNat c⟩
  interval_cases n <;> decide

/-- Only zero starts with a zero. -/
theorem digitsOf_leading (n : Nat) (h : (digitsOf n).head? = some 0) : n = 0 := by
  induction n using Nat.strongRecOn with
  | ind n ih =>
    by_cases hn : n < 10
    · have hsingle : Nat.toDigits 10 n = [Nat.digitChar n] := Nat.toDigits_of_lt_base hn
      rw [digitsOf, hsingle] at h
      interval_cases n <;> first | rfl | exact absurd h (by decide)
    · have hmore : Nat.toDigits 10 n = Nat.toDigits 10 (n / 10) ++ [Nat.digitChar (n % 10)] :=
        Nat.toDigits_of_base_le (by decide) (Nat.not_lt.mp hn)
      have hhead : (digitsOf n).head? = (digitsOf (n / 10)).head? := by
        have hsome : (Nat.toDigits 10 (n / 10)).head? ≠ none :=
          fun hnone ↦ Nat.toDigits_ne_nil (List.head?_eq_none_iff.mp hnone)
        simp only [digitsOf, hmore, List.map_append, List.head?_append, List.head?_map]
        cases hfirst : (Nat.toDigits 10 (n / 10)).head? with
        | none => exact absurd hfirst hsome
        | some c => rfl
      have hzero := ih (n / 10) (by omega) (hhead ▸ h)
      omega

theorem digitsOf_ne_nil (n : Nat) : digitsOf n ≠ [] := by
  rw [digitsOf, Ne, List.map_eq_nil_iff]
  exact Nat.toDigits_ne_nil

theorem isMisspelt_digitsOf (n : Nat) : isMisspelt (digitsOf n) = false := by
  by_cases hzero : n = 0
  · subst hzero
    decide
  · have hhead : (digitsOf n).head? ≠ some 0 := fun h ↦ hzero (digitsOf_leading n h)
    simp [isMisspelt, digitsOf_ne_nil n, hhead]

theorem takeWord_foldl (digits : List Nat) (n : Nat)
    (h : digits.foldl (fun n d ↦ 10 * n + d) n < UInt64.size) :
    takeWord n digits = (digits.foldl (fun n d ↦ 10 * n + d) n, 0) := by
  induction digits generalizing n with
  | nil => rfl
  | cons d rest ih =>
    have hgrow (rest : List Nat) (n : Nat) : n ≤ rest.foldl (fun n d ↦ 10 * n + d) n := by
      induction rest generalizing n with
      | nil => exact Nat.le_refl n
      | cons d rest ih => exact Nat.le_trans (by omega) (ih (10 * n + d))
    have hnow : n * 10 + d < UInt64.size :=
      Nat.lt_of_le_of_lt (by simpa [Nat.mul_comm] using hgrow rest (10 * n + d)) h
    rw [takeWord, if_pos hnow, Nat.mul_comm, ih _ h]
    rfl

theorem takeWord_digitsOf {n : Nat} (h : n < UInt64.size) : takeWord 0 (digitsOf n) = (n, 0) := by
  have hvalue : (digitsOf n).foldl (fun n d ↦ 10 * n + d) 0 = n := by
    have hn := Nat.ofDigitChars_ten_toDigits (n := n)
    rw [Nat.ofDigitChars_eq_foldl] at hn
    rw [digitsOf, List.foldl_map]
    exact hn
  have hword := takeWord_foldl (digitsOf n) 0
  rw [hvalue] at hword
  exact hword h

theorem takeDigits_repr (n : Nat) {rest : List UInt8} (hrest : EndsNumber rest) :
    takeDigits (bytesOf n.repr ++ rest) = (digitsOf n, rest) := by
  have hall {chars : List Char} (h : ∀ c ∈ chars, c.isDigit = true) :
      takeDigits (chars.flatMap String.utf8EncodeChar) =
        (chars.map fun c ↦ c.toNat - 48, []) := by
    induction chars with
    | nil => rfl
    | cons c more ih =>
      obtain ⟨hc, hmore⟩ := List.forall_mem_cons.mp h
      obtain ⟨hbyte, hdigit, hvalue⟩ := isDigit_code hc
      have htail := ih hmore
      simp only [takeDigits, Prod.mk.injEq] at htail
      simp [takeDigits, hbyte, hdigit, hvalue, htail]
  have hdigits : takeDigits (bytesOf n.repr) = (digitsOf n, []) := by
    rw [Nat.repr_eq_ofList_toDigits, bytesOf_ofList]
    exact hall fun c hc ↦ Nat.isDigit_of_mem_toDigits (by decide) (by decide) hc
  exact takeDigits_append hdigits fun _ ↦ hrest

theorem readUnsigned_repr (negative : Bool) (n : Nat) {rest : List UInt8}
    (hrest : EndsNumber rest) :
    readUnsigned negative (bytesOf n.repr ++ rest) =
      some (⟨negative, digitsOf n, none, none⟩, rest) := by
  have hfraction : readFraction rest = some (none, rest) :=
    readFraction_append (show readFraction [] = some (none, []) from rfl) fun _ ↦ hrest
  have hexponent : readExponent rest = some (none, rest) :=
    readExponent_append (show readExponent [] = some (none, []) from rfl) fun _ ↦ hrest
  rw [readUnsigned, takeDigits_repr n hrest, isMisspelt_digitsOf]
  simp [hfraction, hexponent]

/-- The whole numbers of one word, signed or not. -/
def OneWord (n : Int) : Prop := -(2 : Int) ^ 63 ≤ n ∧ n < (2 : Int) ^ 64

theorem readNumber_whole {n : Int} (h : OneWord n) {rest : List UInt8} (hrest : EndsNumber rest) :
    readNumber (bytesOf (JsonNumber.whole n).render ++ rest) =
      (.number (some (.whole n)), rest) := by
  obtain ⟨hlow, hhigh⟩ := h
  cases n with
  | ofNat n =>
    rw [Int.ofNat_eq_natCast] at hhigh
    have htext : (JsonNumber.whole (Int.ofNat n)).render = n.repr := rfl
    have hunsigned (more : List UInt8) : bytesOf n.repr ++ rest ≠ 45 :: more := by
      intro heq
      have hdigits := takeDigits_repr n hrest
      rw [heq] at hdigits
      exact digitsOf_ne_nil n (Prod.mk.inj hdigits).1.symm
    have hword : takeWord 0 (digitsOf n) = (n, 0) :=
      takeWord_digitsOf (show n < 2 ^ 64 by omega)
    rw [htext, readNumber, readLiteral_unsigned hunsigned, readUnsigned_repr false n hrest]
    simp [Literal.value, hword]
  | negSucc n =>
    rw [Int.negSucc_eq] at hlow
    have htext : (JsonNumber.whole (Int.negSucc n)).render = "-" ++ (n + 1).repr := rfl
    have hbytes : bytesOf ("-" ++ (n + 1).repr) = 45 :: bytesOf (n + 1).repr := by
      rw [bytesOf_append, bytesOf_eq "-"]
      rfl
    have hword : takeWord 0 (digitsOf (n + 1)) = (n + 1, 0) :=
      takeWord_digitsOf (show n + 1 < 2 ^ 64 by omega)
    have hsmall : ¬ Nat.pow 2 63 < n + 1 := Nat.not_lt.mpr (show n + 1 ≤ 2 ^ 63 by omega)
    rw [htext, hbytes, List.cons_append, readNumber, readLiteral_minus,
      readUnsigned_repr true (n + 1) hrest]
    simp [Literal.value, hword, hsmall, Int.negSucc_eq]

end Blueprint.Source
