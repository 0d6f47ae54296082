import Blueprint.Value
import Mathlib

/-!
The floating-point number nearest to a word. A word from `2 ^ 63` on has eleven bits more than a
mantissa, so it is rounded to a multiple of `2 ^ 11`, halfway to the even one (`Nearest`). The
result is stored as `1085 * 2 ^ 52 + q` for the multiple `q` (`toBits_toFloat`), also when rounding
carries into the next power of two. It is finite, and the word is one of the fractions that round to
it (`floatOfInt_word`).
-/

set_option autoImplicit false

namespace Blueprint.Decimal

open Float.Model Float.Model.UnpackedFloat

/-! ### Rounding -/

/-- A multiple of `2 ^ 11` that is nearest to a number, of two the even one. -/
structure Nearest (n q : Nat) : Prop where
  below : q * 2048 ≤ n + 1024
  above : n ≤ q * 2048 + 1024
  odd : q % 2 = 1 → q * 2048 < n + 1024 ∧ n < q * 2048 + 1024

/-- Shifting an exact number to the right leaves the bit that fell out last, and whether there was
one before it. -/
theorem shiftRight_exact (m k : Nat) :
    (⟨m, false, false⟩ : ExtendedMantissa) >>> (k + 1) =
      ⟨m / 2 ^ (k + 1), m / 2 ^ k % 2 != 0, m % 2 ^ k != 0⟩ := by
  change Nat.repeat ExtendedMantissa.shiftRightOne (k + 1) ⟨m, false, false⟩ = _
  induction k with
  | zero =>
    simp [Nat.repeat, ExtendedMantissa.shiftRightOne]
    omega
  | succ k ih =>
    rw [Nat.repeat, ih, ExtendedMantissa.shiftRightOne]
    have hdiv : m / 2 ^ (k + 1) / 2 = m / 2 ^ (k + 1 + 1) := by
      rw [Nat.div_div_eq_div_mul, ← Nat.pow_succ]
    have hmod : m % 2 ^ (k + 1) = m % 2 ^ k + 2 ^ k * (m / 2 ^ k % 2) := by
      rw [Nat.pow_succ, Nat.mod_mul]
    rw [hdiv, hmod]
    congr 1
    rcases Nat.mod_two_eq_zero_or_one (m / 2 ^ k) with h | h <;> simp [h]

theorem roundedMantissa_eq (m : Nat) (last before : Bool) :
    (⟨m, last, before⟩ : ExtendedMantissa).roundedMantissa =
      m + if last = true then if before = true then 1 else m % 2 else 0 := by
  cases last <;> cases before <;> rfl

theorem nearest_rounded (n : Nat) :
    Nearest n ((⟨n, false, false⟩ : ExtendedMantissa) >>> 11).roundedMantissa := by
  have hhalf : n = n % 1024 + 1024 * (n / 1024) := (Nat.mod_add_div n 1024).symm
  have hwhole : n / 2048 = n / 1024 / 2 := by rw [Nat.div_div_eq_div_mul]
  have hlt : n % 1024 < 1024 := Nat.mod_lt _ (by decide)
  rw [shiftRight_exact n 10, roundedMantissa_eq]
  simp only [bne_iff_ne, Nat.reducePow, Nat.reduceAdd, hwhole]
  generalize n % 1024 = rest at *
  generalize n / 1024 = halves at *
  split_ifs <;> constructor <;> omega

theorem targetExponent_of_log2 {m k : Nat} {e : Int} (h : m.log2 = k) (he : 0 ≤ k + e - 52) :
    Format.binary64.targetExponent (totalExponent m e) = k + e - 52 := by
  simp only [Format.targetExponent, totalExponent, Format.mantissaBits, Format.minExponent, h]
  omega

variable {n q : Nat}

theorem ofNat_eq_round (hpos : 0 < n) :
    UnpackedFloat.ofNat .binary64 n = UnpackedFloat.round .binary64 .positive n 0 := by
  have hcompare : compare (n : Int) 0 = .gt := by
    rw [compare_gt_iff_gt]
    omega
  simp only [UnpackedFloat.ofNat, UnpackedFloat.ofInt, UnpackedFloat.normalize, hcompare]
  rfl

/-- What a word is rounded to; at `2 ^ 53` the mantissa is one bit too long, and loses it. -/
theorem ofNat_word (hlow : 2 ^ 63 ≤ n) (hhigh : n < 2 ^ 64) :
    ∃ q, Nearest n q ∧ 2 ^ 52 ≤ q ∧
      ((q < 2 ^ 53 ∧ ∃ hpos, UnpackedFloat.ofNat .binary64 n = .finite .positive q 11 hpos) ∨
        (q = 2 ^ 53 ∧
          UnpackedFloat.ofNat .binary64 n = .finite .positive (2 ^ 52) 12 (by decide))) := by
  have hnear := nearest_rounded n
  generalize hq : ((⟨n, false, false⟩ : ExtendedMantissa) >>> 11).roundedMantissa = q at hnear
  obtain ⟨hbelow, habove, -⟩ := id hnear
  have hqlow : 2 ^ 52 ≤ q := by omega
  have hqhigh : q ≤ 2 ^ 53 := by omega
  refine ⟨q, hnear, hqlow, ?_⟩
  have hlog : n.log2 = 63 := (Nat.log2_eq_iff (by omega)).mpr ⟨hlow, hhigh⟩
  have htarget : Format.binary64.targetExponent (totalExponent n 0) = 11 :=
    targetExponent_of_log2 hlog (by decide)
  have hround : UnpackedFloat.round .binary64 .positive n 0 =
      roundWithAccuracy .binary64 .positive n 0 .exact := by
    simp [UnpackedFloat.round, htarget, decreaseExponent]
  have hfirst : shiftToTargetExponent .binary64 n 0 .exact =
      ((⟨n, false, false⟩ : ExtendedMantissa) >>> 11, 11) := by
    rw [shiftToTargetExponent, htarget]
    rfl
  rw [ofNat_eq_round (by omega), hround, roundWithAccuracy, hfirst]
  dsimp only
  rw [hq]
  by_cases hsmall : q < 2 ^ 53
  · have hqlog : q.log2 = 52 := (Nat.log2_eq_iff (by omega)).mpr ⟨hqlow, hsmall⟩
    have hsecond : shiftToTargetExponent .binary64 q 11 .exact = (⟨q, false, false⟩, 11) := by
      rw [shiftToTargetExponent, targetExponent_of_log2 hqlog (by decide)]
      rfl
    have hpos : 0 < q := by omega
    rw [hsecond]
    exact Or.inl ⟨hsmall, hpos, dif_neg hpos.ne.symm⟩
  · obtain rfl : q = 2 ^ 53 := by omega
    have hcarried : Nat.log2 (2 ^ 53) = 53 := Nat.log2_two_pow
    have hsecond : shiftToTargetExponent .binary64 (2 ^ 53) 11 .exact =
        (⟨2 ^ 52, false, false⟩, 12) := by
      rw [shiftToTargetExponent, targetExponent_of_log2 hcarried (by decide)]
      rfl
    rw [hsecond]
    exact Or.inr ⟨rfl, dif_neg (by decide)⟩

/-! ### Bit patterns -/

theorem toNat_packComponents (e : BitVec 11) (m : BitVec 52) :
    (packComponents .binary64 .positive e m).toNat = e.toNat * 2 ^ 52 + m.toNat := by
  have hm : m.toNat < 2 ^ 52 := m.isLt
  have he : e.toNat < 2 ^ 11 := e.isLt
  simp only [packComponents, BitVec.toNat_append]
  rw [← Nat.shiftLeft_add_eq_or_of_lt he, ← Nat.shiftLeft_add_eq_or_of_lt hm]
  simp [Nat.shiftLeft_eq, Sign.toBitVec]

theorem toNat_pack (hlow : 2 ^ 52 ≤ q) (hhigh : q < 2 ^ 53) (hpos : 0 < q) :
    (UnpackedFloat.pack .binary64 (.finite .positive q 11 hpos)).toNat = 1085 * 2 ^ 52 + q := by
  have hlog : q.log2 = 52 := (Nat.log2_eq_iff (by omega)).mpr ⟨hlow, hhigh⟩
  have hpack : UnpackedFloat.pack .binary64 (.finite .positive q 11 hpos) =
      packComponents .binary64 .positive (BitVec.ofNat 11 1086) (BitVec.ofNat 52 q) := by
    simp only [UnpackedFloat.pack, hlog]
    rfl
  rw [hpack, toNat_packComponents, BitVec.toNat_ofNat, BitVec.toNat_ofNat]
  omega

theorem toBits_toFloat (hlow : 2 ^ 63 ≤ n) (hhigh : n < 2 ^ 64) :
    ∃ q, Nearest n q ∧ 2 ^ 52 ≤ q ∧ q ≤ 2 ^ 53 ∧
      (UInt64.ofNat n).toFloat.toBits.toNat = 1085 * 2 ^ 52 + q := by
  obtain ⟨q, hnear, hqlow, hq⟩ := ofNat_word hlow hhigh
  have hbits : (UInt64.ofNat n).toFloat.toBits.toNat =
      (UnpackedFloat.pack .binary64 (UnpackedFloat.ofNat .binary64 n)).toNat := by
    change (UnpackedFloat.pack .binary64
      (UnpackedFloat.ofNat .binary64 (UInt64.ofNat n).toNat)).toNat = _
    rw [UInt64.toNat_ofNat_of_lt' hhigh]
  rw [hbits]
  obtain ⟨hsmall, hpos, heq⟩ | ⟨rfl, heq⟩ := hq
  · rw [heq]
    exact ⟨q, hnear, hqlow, hsmall.le, toNat_pack hqlow hsmall hpos⟩
  · rw [heq]
    exact ⟨_, hnear, hqlow, le_rfl, rfl⟩

/-- A number whose exponent is not the largest is finite. -/
theorem isFinite_of_toBits {x : Float} (h : x.toBits.toNat / 2 ^ 52 % 2 ^ 11 ≠ 2047) :
    x.isFinite = true := by
  change (UnpackedFloat.unpack .binary64 x.toModel.toBits.toBitVec).isFinite = true
  have hexponent : @unpackExponent .binary64 x.toModel.toBits.toBitVec ≠ -1#_ := by
    intro heq
    have hbits := congrArg BitVec.toNat heq
    simp only [unpackExponent, BitVec.toNat_cast, BitVec.extractLsb_toNat,
      Nat.shiftRight_eq_div_pow] at hbits
    exact h hbits
  unfold UnpackedFloat.unpack
  dsimp only
  rw [if_neg hexponent]
  split
  · split <;> rfl
  · rfl

/-! ### Neighbourhoods -/

/-- The neighbourhood of a number that is large enough, in units of the smallest one. -/
theorem ofBits_eq {bits k stored u : Nat} (hunit : 2 ^ 1074 = u)
    (hexponent : bits / 2 ^ 52 % 2 ^ 11 = k + 1075) (hstored : bits % 2 ^ 52 = stored) :
    Neighbourhood.ofBits bits =
      { low := (4 * (stored + 2 ^ 52) - if stored = 0 then 1 else 2) * (2 ^ k * u)
        middle := 4 * (stored + 2 ^ 52) * (2 ^ k * u)
        high := (4 * (stored + 2 ^ 52) + 2) * (2 ^ k * u)
        unit := 4 * u
        closed := (stored + 2 ^ 52) % 2 == 0 } := by
  have hpow (k : Nat) : Nat.pow 2 k = 2 ^ k := rfl
  have hnormal : (k + 1075 == 0) = false := rfl
  have habove : decide (k + 1075 > 1) = true := by simp
  have hsub : k + 1075 - 1 = k + 1074 := rfl
  unfold Neighbourhood.ofBits
  simp only [-Nat.reducePow, hpow, hexponent, hstored, hnormal, habove, hsub, Bool.and_true,
    beq_iff_eq, Bool.false_eq_true, if_false, Nat.pow_add, hunit]

theorem holds_iff {low middle high u : Nat} {closed : Bool} (hu : 0 < u) (k : Nat) :
    Neighbourhood.holds ⟨low * (k * u), middle, high * (k * u), 4 * u, closed⟩ n 1 = true ↔
      if closed = true then low * k ≤ n * 4 ∧ n * 4 ≤ high * k
      else low * k < n * 4 ∧ n * 4 < high * k := by
  have hle (a b : Nat) : a * u ≤ b * u ↔ a ≤ b := Nat.mul_le_mul_right_iff hu
  have hlt (a b : Nat) : a * u < b * u ↔ a < b := Nat.mul_lt_mul_right hu
  unfold Neighbourhood.holds
  simp only [Nat.mul_one, ← Nat.mul_assoc]
  cases closed <;> simp [hle, hlt]

theorem exists_two_pow (k : Nat) : ∃ u, 0 < u ∧ 2 ^ k = u := ⟨_, Nat.two_pow_pos k, rfl⟩

theorem holds_of_nearest (hn : 2 ^ 63 ≤ n) (hnear : Nearest n q) (hlow : 2 ^ 52 ≤ q)
    (hhigh : q ≤ 2 ^ 53) : (Neighbourhood.ofBits (1085 * 2 ^ 52 + q)).holds n 1 = true := by
  obtain ⟨hbelow, habove, hodd⟩ := hnear
  by_cases hsmall : q < 2 ^ 53
  · have hexponent : (1085 * 2 ^ 52 + q) / 2 ^ 52 % 2 ^ 11 = 11 + 1075 := by omega
    have hstored : (1085 * 2 ^ 52 + q) % 2 ^ 52 = q - 2 ^ 52 := by omega
    obtain ⟨u, hu, hunit⟩ := exists_two_pow 1074
    rw [ofBits_eq hunit hexponent hstored, holds_iff hu, Nat.sub_add_cancel hlow]
    clear hunit hexponent hstored
    rcases Nat.mod_two_eq_zero_or_one q with hparity | hparity <;>
      simp only [hparity, beq_iff_eq, one_ne_zero, if_true, if_false] <;> split_ifs <;> omega
  · obtain rfl : q = 2 ^ 53 := by omega
    have hexponent : (1085 * 2 ^ 52 + 2 ^ 53) / 2 ^ 52 % 2 ^ 11 = 12 + 1075 := by decide
    have hstored : (1085 * 2 ^ 52 + 2 ^ 53) % 2 ^ 52 = 0 := by decide
    obtain ⟨u, hu, hunit⟩ := exists_two_pow 1074
    rw [ofBits_eq hunit hexponent hstored, holds_iff hu]
    clear hunit
    norm_num
    omega

/-- The floating-point number of a word from `2 ^ 63` on is finite, and the word rounds to it. -/
theorem floatOfInt_word {n : Int} (hlow : (2 : Int) ^ 63 ≤ n) (hhigh : n < (2 : Int) ^ 64) :
    (Value.floatOfInt n).isFinite = true ∧
      (Neighbourhood.ofBits (Value.floatOfInt n).toBits.toNat).holds n.toNat 1 = true := by
  have hfloat : Value.floatOfInt n = (UInt64.ofNat n.toNat).toFloat :=
    if_pos (le_trans (by decide) hlow)
  have hnlow : 2 ^ 63 ≤ n.toNat := by omega
  obtain ⟨q, hnear, hqlow, hqhigh, hbits⟩ := toBits_toFloat hnlow (by omega)
  rw [hfloat]
  refine ⟨isFinite_of_toBits ?_, ?_⟩
  · rw [hbits]
    omega
  · rw [hbits]
    exact holds_of_nearest hnlow hnear hqlow hqhigh

end Blueprint.Decimal
