import Mathlib.Algebra.Order.Ring.Nat
import PathQuery.Number.Decimal

namespace PathQuery.Number

open Float.Model Float.Model.UnpackedFloat

namespace Decimal

variable {n m d c : Nat}

theorem roundDiv_mul_right (hc : 0 < c) : roundDiv (n * c) (d * c) = roundDiv n d := by
  have hhalf (a b : Nat) : 2 * (a * c) > b * c ↔ 2 * a > b := by
    rw [← Nat.mul_assoc]
    exact Nat.mul_lt_mul_right hc
  have hequal (a b : Nat) : 2 * (a * c) = b * c ↔ 2 * a = b := by
    rw [← Nat.mul_assoc]
    exact Nat.mul_right_cancel_iff hc
  simp only [roundDiv, Nat.mul_div_mul_right _ _ hc, Nat.mul_mod_mul_right, hhalf, hequal]

theorem roundDiv_mul_self (hd : 0 < d) : roundDiv (n * d) d = n := by
  rw [roundDiv, Nat.mul_div_cancel n hd, Nat.mul_mod_left, if_neg (by omega)]

theorem roundDiv_mono (h : n ≤ m) : roundDiv n d ≤ roundDiv m d := by
  have hn := Nat.div_add_mod n d
  have hm := Nat.div_add_mod m d
  obtain hlt | heq := (Nat.div_le_div_right (c := d) h).lt_or_eq
  · simp only [roundDiv]
    split <;> split <;> omega
  · have hrest : n % d ≤ m % d := by
      rw [heq] at hn
      omega
    simp only [roundDiv, heq]
    split <;> split <;> omega

end Decimal

open Decimal

/-- A number that is shifted right by some places: its mantissa, and what the round bit and the
sticky bit keep of the rest. -/
structure Shifted (em : ExtendedMantissa) (m k : Nat) : Prop where
  mantissa : em.mantissa = m / 2 ^ k
  roundBit : em.roundBit = true ↔ 2 ^ k ≤ 2 * (m % 2 ^ k)
  stickyBit : em.stickyBit = true ↔ 2 * (m % 2 ^ k) ≠ 0 ∧ 2 * (m % 2 ^ k) ≠ 2 ^ k

namespace Shifted

variable {em : ExtendedMantissa} {m k : Nat}

theorem zero (m : Nat) : Shifted ⟨m, false, false⟩ m 0 := by
  constructor <;> simp [Nat.mod_one]

theorem succ (h : Shifted em m k) : Shifted em.shiftRightOne m (k + 1) := by
  have hrest : m % 2 ^ k < 2 ^ k := Nat.mod_lt m (Nat.two_pow_pos k)
  have hmod : m % 2 ^ (k + 1) = m % 2 ^ k + 2 ^ k * (m / 2 ^ k % 2) := by
    rw [pow_succ, Nat.mod_mul]
  have hdiv : m / 2 ^ (k + 1) = m / 2 ^ k / 2 := by
    rw [pow_succ, Nat.div_div_eq_div_mul]
  constructor
  · rw [hdiv, ← h.mantissa]
    rfl
  · change (em.mantissa % 2 != 0) = true ↔ _
    rw [bne_iff_ne, h.mantissa, hmod, pow_succ]
    obtain hbit | hbit := Nat.mod_two_eq_zero_or_one (m / 2 ^ k)
    · rw [hbit]
      omega
    · rw [hbit]
      omega
  · change (em.roundBit || em.stickyBit) = true ↔ _
    rw [Bool.or_eq_true, h.roundBit, h.stickyBit, hmod, pow_succ]
    obtain hbit | hbit := Nat.mod_two_eq_zero_or_one (m / 2 ^ k)
    · rw [hbit]
      omega
    · rw [hbit]
      omega

theorem shiftRight (m k : Nat) : Shifted (ExtendedMantissa.mk m false false >>> k) m k := by
  induction k with
  | zero => exact .zero m
  | succ k ih => exact ih.succ

theorem roundedMantissa (h : Shifted em m k) : em.roundedMantissa = roundDiv m (2 ^ k) := by
  obtain ⟨mantissa, round, sticky⟩ := em
  obtain ⟨rfl, hround, hsticky⟩ := h
  rw [roundDiv]
  cases round <;> cases sticky <;> simp at hround hsticky
  · rw [if_neg (by omega)]
    rfl
  · rw [if_neg (by omega)]
    rfl
  · have hpos : 0 < 2 ^ k := Nat.two_pow_pos k
    change m / 2 ^ k + m / 2 ^ k % 2 = _
    split <;> omega
  · rw [if_pos (by omega)]
    rfl

end Shifted

section Rounding

variable {m n k j p : Nat} {e : Int} {s : Sign}

theorem shiftToTargetExponent_eq (hlog : m.log2 = 52 + k) (he : -1074 ≤ e + k) :
    shiftToTargetExponent .binary64 m e .exact =
      (ExtendedMantissa.mk m false false >>> k, e + k) := by
  have htarget : Format.binary64.targetExponent (totalExponent m e) = e + k := by
    rw [Format.targetExponent, totalExponent, hlog]
    change max (((52 + k : Nat) : Int) + 1 + e - 53) (-1074) = e + k
    omega
  have hshift : (e + k - e).toNat = k := by omega
  rw [shiftToTargetExponent, htarget, shiftToExponent, hshift]
  rfl

def significand (n : Nat) : Nat := roundDiv (n * 2 ^ 52) (2 ^ n.log2)

theorem two_pow_le_significand (hn : n ≠ 0) : 2 ^ 52 ≤ significand n := by
  have hexact : roundDiv (2 ^ 52 * 2 ^ n.log2) (2 ^ n.log2) = 2 ^ 52 :=
    roundDiv_mul_self (Nat.two_pow_pos n.log2)
  rw [← hexact, significand, Nat.mul_comm n]
  exact roundDiv_mono (Nat.mul_le_mul_left _ (Nat.log2_self_le hn))

theorem significand_le_two_pow (n : Nat) : significand n ≤ 2 ^ 53 := by
  have hexact : roundDiv (2 ^ 53 * 2 ^ n.log2) (2 ^ n.log2) = 2 ^ 53 :=
    roundDiv_mul_self (Nat.two_pow_pos n.log2)
  have hn : n < 2 ^ (n.log2 + 1) := Nat.lt_log2_self
  rw [← hexact, significand]
  refine roundDiv_mono ?_
  rw [pow_succ] at hn
  omega

/-- The place of a positive number among the floats from one on, which come by `2 ^ 52` for each
power of two. -/
def place (n : Nat) : Nat := n.log2 * 2 ^ 52 + (significand n - 2 ^ 52)

theorem place_mono (hn : n ≠ 0) (h : n ≤ m) : place n ≤ place m := by
  have hm : m ≠ 0 := by omega
  have hlog : n.log2 ≤ m.log2 := (Nat.le_log2 hm).2 ((Nat.log2_self_le hn).trans h)
  have hlow := two_pow_le_significand hm
  have hhigh := significand_le_two_pow n
  unfold place
  obtain hlt | heq := hlog.lt_or_eq
  · omega
  · have hround : significand n ≤ significand m := by
      rw [significand, significand, heq]
      exact roundDiv_mono (Nat.mul_le_mul_right _ h)
    omega

theorem log2_mul_two_pow (hn : n ≠ 0) : (n * 2 ^ j).log2 = n.log2 + j := by
  have hlow := Nat.log2_self_le hn
  have hhigh : n < 2 ^ (n.log2 + 1) := Nat.lt_log2_self
  rw [Nat.log2_eq_iff (Nat.mul_ne_zero hn (Nat.two_pow_pos j).ne')]
  constructor
  · rw [pow_add]
    exact Nat.mul_le_mul_right _ hlow
  · rw [Nat.add_right_comm, pow_add]
    exact Nat.mul_lt_mul_of_pos_right hhigh (Nat.two_pow_pos j)

def atPlace (s : Sign) (p : Nat) : UnpackedFloat :=
  .finite s (2 ^ 52 + p % 2 ^ 52) ((p / 2 ^ 52 : Nat) - 52 : Int) (Nat.add_pos_left (by decide) _)

theorem finite_eq_atPlace {h : 0 < m} (hm : m = 2 ^ 52 + p % 2 ^ 52)
    (he : e = (p / 2 ^ 52 : Nat) - 52) : UnpackedFloat.finite s m e h = atPlace s p := by
  subst hm he
  rfl

/-- Rounding ends with a second shift, which takes a carry to the next power of two. -/
theorem roundWithAccuracy_of_shifts
    (hround : (shiftToTargetExponent .binary64 m e .exact).1.roundedMantissa = n)
    (hlog : n.log2 = 52 + k) (he : -1074 ≤ (shiftToTargetExponent .binary64 m e .exact).2 + k)
    (hmantissa : n / 2 ^ k = 2 ^ 52 + p % 2 ^ 52)
    (hexponent : (shiftToTargetExponent .binary64 m e .exact).2 + k = (p / 2 ^ 52 : Nat) - 52) :
    roundWithAccuracy .binary64 s m e .exact = atPlace s p := by
  have hshift := (Shifted.shiftRight n k).mantissa.trans hmantissa
  have hne : ¬ (ExtendedMantissa.mk n false false >>> k).mantissa = 0 := by omega
  subst hround
  have hsecond := shiftToTargetExponent_eq hlog he
  unfold roundWithAccuracy
  dsimp only
  generalize shiftToTargetExponent .binary64 (ExtendedMantissa.roundedMantissa _) _ .exact =
    second at hsecond ⊢
  subst hsecond
  rw [dif_neg hne]
  exact finite_eq_atPlace hshift hexponent

/-- A whole number with enough bits for a mantissa is rounded to the float at its place. -/
theorem roundWithAccuracy_eq (s : Sign) (hn : n ≠ 0) (hj : 52 ≤ n.log2 + j) :
    roundWithAccuracy .binary64 s (n * 2 ^ j) (-j) .exact = atPlace s (place n) := by
  obtain ⟨k, hk⟩ := Nat.le.dest hj
  have hlog : (n * 2 ^ j).log2 = 52 + k := by rw [log2_mul_two_pow hn, hk]
  have hfirst := shiftToTargetExponent_eq (e := -j) hlog (by omega)
  have hround :
      (shiftToTargetExponent .binary64 (n * 2 ^ j) (-j) .exact).1.roundedMantissa =
        significand n := by
    have hnumerator : n * 2 ^ j * 2 ^ 52 = n * 2 ^ 52 * 2 ^ j := Nat.mul_right_comm ..
    have hdenominator : 2 ^ k * 2 ^ 52 = 2 ^ n.log2 * 2 ^ j := by
      rw [← pow_add, ← pow_add, ← hk, Nat.add_comm]
    rw [hfirst, (Shifted.shiftRight _ _).roundedMantissa,
      ← roundDiv_mul_right (Nat.two_pow_pos 52), hnumerator, hdenominator,
      roundDiv_mul_right (Nat.two_pow_pos j), significand]
  have hexponent : (shiftToTargetExponent .binary64 (n * 2 ^ j) (-j) .exact).2 = n.log2 - 52 := by
    rw [hfirst]
    omega
  have hlow := two_pow_le_significand hn
  obtain hlt | hcarry := (significand_le_two_pow n).lt_or_eq
  · have hbits : (significand n).log2 = 52 + 0 := by
      rw [Nat.log2_eq_iff (by omega)]
      omega
    apply roundWithAccuracy_of_shifts hround hbits
    · omega
    · unfold place
      omega
    · unfold place
      omega
  · have hbits : (significand n).log2 = 52 + 1 := by
      rw [hcarry, Nat.log2_two_pow]
    apply roundWithAccuracy_of_shifts hround hbits
    · omega
    · unfold place
      omega
    · unfold place
      omega

theorem log2_atPlace (p : Nat) : (2 ^ 52 + p % 2 ^ 52).log2 = 52 := by
  rw [Nat.log2_eq_iff (by omega)]
  omega

theorem mul_one_atPlace (p : Nat) :
    UnpackedFloat.mul .binary64 (atPlace .positive p)
      (.finite .positive (2 ^ 52) (-52) (by decide)) = atPlace .positive p := by
  change roundWithAccuracy .binary64 .positive ((2 ^ 52 + p % 2 ^ 52) * 2 ^ 52)
    (((p / 2 ^ 52 : Nat) - 52 : Int) + (-52)) .exact = _
  have hlog : ((2 ^ 52 + p % 2 ^ 52) * 2 ^ 52).log2 = 52 + 52 := by
    rw [log2_mul_two_pow (by omega), log2_atPlace]
  have hfirst := shiftToTargetExponent_eq (e := ((p / 2 ^ 52 : Nat) - 52 : Int) + (-52)) hlog
    (by omega)
  have hround : (shiftToTargetExponent .binary64 ((2 ^ 52 + p % 2 ^ 52) * 2 ^ 52)
      (((p / 2 ^ 52 : Nat) - 52 : Int) + (-52)) .exact).1.roundedMantissa =
        2 ^ 52 + p % 2 ^ 52 := by
    rw [hfirst, (Shifted.shiftRight _ _).roundedMantissa, roundDiv_mul_self (Nat.two_pow_pos 52)]
  apply roundWithAccuracy_of_shifts (k := 0) hround (log2_atPlace p)
  · rw [hfirst]
    omega
  · rw [Nat.pow_zero, Nat.div_one]
  · rw [hfirst]
    omega

theorem pack_atPlace (s : Sign) (hp : p / 2 ^ 52 ≤ 1023) :
    UnpackedFloat.pack .binary64 (atPlace s p) =
      packComponents .binary64 s (BitVec.ofNat 11 (p / 2 ^ 52 + 1023))
        (BitVec.ofNat 52 (2 ^ 52 + p % 2 ^ 52)) := by
  have hbits : (2 ^ 52 + p % 2 ^ 52).log2 + 1 = Format.binary64.mantissaBits := by
    rw [log2_atPlace]
    rfl
  have hbiased : (((p / 2 ^ 52 : Nat) - 52 : Int) + Format.binary64.exponentBias +
      Format.binary64.mantissaBitsWithoutImplicit).toNat = p / 2 ^ 52 + 1023 := by
    change ((((p / 2 ^ 52 : Nat) - 52 : Int) + (1023 : Nat)) + (52 : Nat)).toNat = _
    omega
  have hfinite : ¬ 2 ^ 11 ≤ p / 2 ^ 52 + 1023 + 1 := by omega
  unfold atPlace
  delta UnpackedFloat.pack
  dsimp only
  rw [hbiased, if_neg hfinite, if_pos hbits]

theorem sign_packComponents {spec : Format} (s : Sign) (exponent : BitVec spec.exponentBits)
    (mantissa : BitVec spec.mantissaBitsWithoutImplicit) :
    Sign.ofBitVec (unpackSign (packComponents spec s exponent mantissa)) = s := by
  have hbit : unpackSign (packComponents spec s exponent mantissa) = s.toBitVec := by
    ext i hi
    obtain rfl : i = 0 := by omega
    delta unpackSign packComponents
    simp [BitVec.getLsbD_append, BitVec.getElem_append]
  rw [hbit]
  cases s <;> rfl

theorem unpack_pack_atPlace (s : Sign) (hp : p / 2 ^ 52 ≤ 1023) :
    UnpackedFloat.unpack .binary64 (UnpackedFloat.pack .binary64 (atPlace s p)) = atPlace s p := by
  have hexponent : (BitVec.ofNat 11 (p / 2 ^ 52 + 1023)).toNat = p / 2 ^ 52 + 1023 := by
    rw [BitVec.toNat_ofNat, Nat.mod_eq_of_lt (by omega)]
  have hmantissa : (1#1 ++ BitVec.ofNat 52 (2 ^ 52 + p % 2 ^ 52)).toNat = 2 ^ 52 + p % 2 ^ 52 := by
    rw [BitVec.toNat_append, ← Nat.shiftLeft_add_eq_or_of_lt (BitVec.isLt _), BitVec.toNat_ofNat]
    change 1 * 2 ^ 52 + (2 ^ 52 + p % 2 ^ 52) % 2 ^ 52 = 2 ^ 52 + p % 2 ^ 52
    omega
  have hfinite : BitVec.ofNat 11 (p / 2 ^ 52 + 1023) ≠ -1#11 := by
    intro h
    have hones := congrArg BitVec.toNat h
    rw [hexponent] at hones
    change _ = 2047 at hones
    omega
  have hnormal : BitVec.ofNat 11 (p / 2 ^ 52 + 1023) ≠ 0#11 := by
    intro h
    have hzero := congrArg BitVec.toNat h
    rw [hexponent] at hzero
    change _ = 0 at hzero
    omega
  rw [pack_atPlace s hp]
  delta UnpackedFloat.unpack
  dsimp only
  rw [if_neg (by rwa [unpackExponent_packComponents]),
    if_neg (by rwa [unpackExponent_packComponents]), sign_packComponents]
  refine finite_eq_atPlace ?_ ?_
  · rw [unpackMantissa_packComponents]
    exact hmantissa
  · rw [unpackExponent_packComponents, hexponent]
    change _ - ((1023 : Nat) + (52 : Nat) : Int) = _
    omega

theorem ofNat_eq_round (spec : Float.Model.Format) (hn : n ≠ 0) :
    UnpackedFloat.ofNat spec n = UnpackedFloat.round spec .positive n 0 := by
  have hpos : compare (n : Int) 0 = .gt := Int.compare_eq_gt.2 (by omega)
  rw [UnpackedFloat.ofNat, UnpackedFloat.ofInt, UnpackedFloat.normalize, hpos]
  rfl

theorem round_eq_atPlace (hn : n ≠ 0) (hsmall : n < 2 ^ 53) :
    UnpackedFloat.round .binary64 .positive n 0 = atPlace .positive (place n) := by
  have hlog : n.log2 < 53 := (Nat.log2_lt hn).2 hsmall
  have htarget : Format.binary64.targetExponent (totalExponent n 0) = n.log2 - 52 := by
    rw [Format.targetExponent, totalExponent]
    change max ((n.log2 : Int) + 1 + 0 - 53) (-1074) = n.log2 - 52
    omega
  have hshift : (0 - ((n.log2 : Int) - 52)).toNat = 52 - n.log2 := by omega
  rw [UnpackedFloat.round, htarget, decreaseExponent, hshift, Nat.shiftLeft_eq]
  dsimp only
  rw [Int.zero_sub]
  exact roundWithAccuracy_eq .positive hn (by omega)

theorem place_le (hn : n ≠ 0) (hlt : n < 2 ^ 64) : place n / 2 ^ 52 ≤ 1023 := by
  have hlog : n.log2 < 64 := (Nat.log2_lt hn).2 hlt
  have hhigh := significand_le_two_pow n
  unfold place
  omega

/-- A number of up to 53 bits becomes a float as a word does. -/
theorem unpack_toFloat (hn : n ≠ 0) (hsmall : n < 2 ^ 53) :
    n.toUInt64.toFloat.toModel.unpack = atPlace .positive (place n) := by
  have hlt : n < 2 ^ 64 := by omega
  have hnat : n.toUInt64.toNat = n := UInt64.toNat_ofNat_of_lt hlt
  change UnpackedFloat.unpack .binary64 (UnpackedFloat.pack .binary64
    (UnpackedFloat.ofNat .binary64 n.toUInt64.toNat)) = _
  rw [hnat, ofNat_eq_round _ hn, round_eq_atPlace hn hsmall]
  exact unpack_pack_atPlace .positive (place_le hn hlt)

/-- A larger one becomes a float as a scientific literal does. -/
theorem ofScientific_eq_atPlace (hn : n ≠ 0) :
    UnpackedFloat.ofScientific .binary64 n 0 = atPlace .positive (place n) := by
  have hreach : ¬ (0 : Int) < -((2 ^ 11 : Int) + n.log2) := by omega
  rw [UnpackedFloat.ofScientific, dif_neg hn, if_neg (by decide), if_neg hreach,
    if_pos Int.le_rfl]
  change roundWithAccuracy .binary64 .positive ((n <<< 53) * 1) (-53 + 0) .exact = _
  rw [Nat.mul_one, Nat.shiftLeft_eq]
  exact roundWithAccuracy_eq .positive hn (by omega)

/-- A natural number of 64 bits is the float at its place. -/
theorem unpack_ofNat (hn : n ≠ 0) (hlt : n < 2 ^ 64) :
    (Float.ofNat n).toModel.unpack = atPlace .positive (place n) := by
  rw [← unpack_pack_atPlace .positive (place_le hn hlt)]
  by_cases hsmall : n < 2 ^ 53
  · have hofNat : Float.ofNat n = n.toUInt64.toFloat * Float.exactlyRepresentablePowersOfTen[0] :=
      (dif_pos ⟨hsmall, by decide⟩).trans (if_neg Bool.false_ne_true)
    have hone : Float.exactlyRepresentablePowersOfTen[0].toModel.unpack =
        .finite .positive (2 ^ 52) (-52) (by decide) := rfl
    rw [hofNat]
    change UnpackedFloat.unpack .binary64 (UnpackedFloat.pack .binary64
      (UnpackedFloat.mul .binary64 n.toUInt64.toFloat.toModel.unpack
        Float.exactlyRepresentablePowersOfTen[0].toModel.unpack)) = _
    rw [unpack_toFloat hn hsmall, hone, mul_one_atPlace]
  · have hofNat : Float.ofNat n = .ofModel (Float.Model.ofScientific n 0) :=
      dif_neg fun h ↦ hsmall h.1
    rw [hofNat, ← ofScientific_eq_atPlace hn]
    rfl

/-- A negative integer of 64 bits is the float at the place of its magnitude, below zero. -/
theorem unpack_ofInt_of_neg {n : Int} (hn : n < 0) (hlt : n.natAbs < 2 ^ 64) :
    (Float.ofInt n).toModel.unpack = atPlace .negative (place n.natAbs) := by
  obtain ⟨k, rfl⟩ := Int.eq_negSucc_of_lt_zero hn
  have hmagnitude := unpack_ofNat (Nat.succ_ne_zero k) hlt
  change UnpackedFloat.unpack .binary64 (UnpackedFloat.pack .binary64
    (Float.ofNat (k + 1)).toModel.unpack.neg) = atPlace .negative (place (k + 1))
  rw [hmagnitude]
  exact unpack_pack_atPlace .negative (place_le (Nat.succ_ne_zero k) hlt)

end Rounding

end PathQuery.Number
