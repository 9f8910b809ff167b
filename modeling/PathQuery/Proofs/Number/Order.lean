import Mathlib.Algebra.Order.Ring.Int
import Mathlib.Data.Nat.Cast.Order.Basic
import Mathlib.Data.Prod.Lex
import PathQuery.Proofs.Number.Nearest
import PathQuery.Value.Order

namespace PathQuery.Number

open Float.Model Float.Model.UnpackedFloat

/-- The position of a float among all that are numbers: its class and, where it is finite, its
exponent and its mantissa, which count downwards below zero. -/
def rank : UnpackedFloat → ℤ ×ₗ ℤ ×ₗ ℤ
  | .infinity .negative => toLex (-2, toLex (0, 0))
  | .finite .negative m e _ => toLex (-1, toLex (-e, -m))
  | .zero _ => toLex (0, toLex (0, 0))
  | .finite .positive m e _ => toLex (1, toLex (e, m))
  | .infinity .positive => toLex (2, toLex (0, 0))
  | .notANumber => toLex (0, toLex (0, 0))

theorem compare_natCast (m n : Nat) : compare (m : ℤ) (n : ℤ) = compare m n := by
  rw [← cmp_eq_compare, ← cmp_eq_compare]
  exact Nat.strictMono_cast.cmp_map_eq m n

theorem compare_neg (a b : ℤ) : compare (-a) (-b) = (compare a b).swap := by
  have hanti : StrictAnti fun a : ℤ ↦ -a := fun _ _ h ↦ neg_lt_neg h
  rw [← cmp_eq_compare, ← cmp_eq_compare, cmp_swap]
  exact hanti.cmp_map_eq a b

theorem compare_eq_rank {x y : UnpackedFloat} (hx : x ≠ .notANumber) (hy : y ≠ .notANumber) :
    x.compare y = some (compare (rank x) (rank y)) := by
  cases x with
  | notANumber => exact absurd rfl hx
  | infinity s =>
    cases y with
    | notANumber => exact absurd rfl hy
    | infinity t => cases s <;> cases t <;> rfl
    | zero t => cases s <;> rfl
    | finite t m e h => cases s <;> cases t <;> rfl
  | zero s =>
    cases y with
    | notANumber => exact absurd rfl hy
    | infinity t => cases t <;> rfl
    | zero t => rfl
    | finite t m e h => cases t <;> rfl
  | finite s m e h =>
    cases y with
    | notANumber => exact absurd rfl hy
    | infinity t => cases s <;> cases t <;> rfl
    | zero t => cases s <;> rfl
    | finite t n f h' =>
      cases s <;> cases t
      · change some ((compare e f).then (compare m n)).swap =
          some ((compare (-e) (-f)).then (compare (-(m : ℤ)) (-(n : ℤ))))
        rw [Ordering.swap_then, compare_neg, compare_neg, compare_natCast]
      · rfl
      · rfl
      · change some ((compare e f).then (compare m n)) =
          some ((compare e f).then (compare (m : ℤ) (n : ℤ)))
        rw [compare_natCast]

variable {x y : Float} {a b : Int64} {p q : Nat}

def order (x : Float) : ℤ ×ₗ ℤ ×ₗ ℤ := rank x.toModel.unpack

theorem unpack_ne_of_isNaN (hx : x.isNaN = false) : x.toModel.unpack ≠ .notANumber := by
  intro h
  have hnan : x.isNaN = true := congrArg UnpackedFloat.isNaN h
  rw [hx] at hnan
  cases hnan

theorem compare_unpack (hx : x.isNaN = false) (hy : y.isNaN = false) :
    x.toModel.unpack.compare y.toModel.unpack = some (compare (order x) (order y)) :=
  compare_eq_rank (unpack_ne_of_isNaN hx) (unpack_ne_of_isNaN hy)

theorem lt_iff_order (hx : x.isNaN = false) (hy : y.isNaN = false) :
    x < y ↔ order x < order y := by
  have hlt : x < y ↔ (x.toModel.unpack.compare y.toModel.unpack == some .lt) = true :=
    decide_eq_true_iff
  rw [hlt, compare_unpack hx hy, beq_iff_eq, Option.some_inj, compare_lt_iff_lt]

theorem beq_iff_order (hx : x.isNaN = false) (hy : y.isNaN = false) :
    (x == y) = true ↔ order x = order y := by
  have hbeq : (x == y) = (x.toModel.unpack.compare y.toModel.unpack == some .eq) := rfl
  rw [hbeq, compare_unpack hx hy, beq_iff_eq, Option.some_inj, compare_eq_iff_eq]

theorem isNaN_of_beq (h : (x == y) = true) : x.isNaN = false ∧ y.isNaN = false := by
  have hcompare : (x.toModel.unpack.compare y.toModel.unpack == some .eq) = true := h
  change x.toModel.unpack.isNaN = false ∧ y.toModel.unpack.isNaN = false
  cases hx : x.toModel.unpack with
  | notANumber =>
    rw [hx] at hcompare
    cases hcompare
  | _ =>
    cases hy : y.toModel.unpack with
    | notANumber =>
      rw [hx, hy] at hcompare
      cases hcompare
    | _ => exact ⟨rfl, rfl⟩

theorem float_beq_symm (h : (x == y) = true) : (y == x) = true := by
  obtain ⟨hx, hy⟩ := isNaN_of_beq h
  exact (beq_iff_order hy hx).2 ((beq_iff_order hx hy).1 h).symm

theorem float_beq_trans {z : Float} (hxy : (x == y) = true) (hyz : (y == z) = true) :
    (x == z) = true := by
  obtain ⟨hx, hy⟩ := isNaN_of_beq hxy
  obtain ⟨-, hz⟩ := isNaN_of_beq hyz
  have hxy' := (beq_iff_order hx hy).1 hxy
  have hyz' := (beq_iff_order hy hz).1 hyz
  exact (beq_iff_order hx hz).2 (hxy'.trans hyz')

/-- Floats that are numbers are compared by their positions. -/
theorem compareFloats_eq (hx : x.isNaN = false) (hy : y.isNaN = false) :
    Value.compareFloats x y = some (compare (order x) (order y)) := by
  rw [Value.compareFloats]
  obtain hlt | heq | hgt := lt_trichotomy (order x) (order y)
  · rw [if_pos ((lt_iff_order hx hy).2 hlt), compare_lt_iff_lt.2 hlt]
  · rw [if_neg (mt (lt_iff_order hx hy).1 heq.not_lt), if_pos ((beq_iff_order hx hy).2 heq),
      compare_eq_iff_eq.2 heq]
  · rw [if_neg (mt (lt_iff_order hx hy).1 hgt.not_gt),
      if_neg (mt (beq_iff_order hx hy).1 hgt.ne'), if_pos ((lt_iff_order hy hx).2 hgt),
      compare_gt_iff_gt.2 hgt]

theorem rank_atPlace_positive (h : p ≤ q) :
    rank (atPlace .positive p) ≤ rank (atPlace .positive q) := by
  change toLex ((1 : ℤ), toLex (((p / 2 ^ 52 : Nat) : ℤ) - 52, ((2 ^ 52 + p % 2 ^ 52 : Nat) : ℤ))) ≤
    toLex ((1 : ℤ), toLex (((q / 2 ^ 52 : Nat) : ℤ) - 52, ((2 ^ 52 + q % 2 ^ 52 : Nat) : ℤ)))
  rw [Prod.Lex.toLex_le_toLex, Prod.Lex.toLex_le_toLex]
  refine .inr ⟨rfl, ?_⟩
  dsimp only
  omega

theorem rank_atPlace_negative (h : p ≤ q) :
    rank (atPlace .negative q) ≤ rank (atPlace .negative p) := by
  change
    toLex ((-1 : ℤ), toLex (-(((q / 2 ^ 52 : Nat) : ℤ) - 52), -((2 ^ 52 + q % 2 ^ 52 : Nat) : ℤ))) ≤
      toLex ((-1 : ℤ), toLex (-(((p / 2 ^ 52 : Nat) : ℤ) - 52), -((2 ^ 52 + p % 2 ^ 52 : Nat) : ℤ)))
  rw [Prod.Lex.toLex_le_toLex, Prod.Lex.toLex_le_toLex]
  refine .inr ⟨rfl, ?_⟩
  dsimp only
  omega

/-- A class comes before the next one, whatever is in them. -/
theorem rank_lt_of_class {c d : ℤ} (r s : ℤ ×ₗ ℤ) (h : c < d) : toLex (c, r) < toLex (d, s) :=
  Prod.Lex.toLex_lt_toLex.2 (.inl h)

theorem unpack_ofInt64 (a : Int64) :
    a.toInt < 0 ∧ (ofInt64 a).toModel.unpack = atPlace .negative (place a.toInt.natAbs) ∨
    a.toInt = 0 ∧ (ofInt64 a).toModel.unpack = .zero .positive ∨
    0 < a.toInt ∧ (ofInt64 a).toModel.unpack = atPlace .positive (place a.toInt.natAbs) := by
  have hlow := a.le_toInt
  have hhigh := a.toInt_lt
  obtain hneg | hzero | hpos := Int.lt_trichotomy a.toInt 0
  · exact .inl ⟨hneg, unpack_ofInt_of_neg hneg (by omega)⟩
  · refine .inr (.inl ⟨hzero, ?_⟩)
    rw [ofInt64, hzero]
    rfl
  · refine .inr (.inr ⟨hpos, ?_⟩)
    have hnat : a.toInt = (a.toInt.natAbs : ℤ) := by omega
    rw [ofInt64, hnat]
    exact unpack_ofNat (by omega) (by omega)

theorem isNaN_ofInt64 (a : Int64) : (ofInt64 a).isNaN = false := by
  change (ofInt64 a).toModel.unpack.isNaN = false
  obtain ⟨-, h⟩ | ⟨-, h⟩ | ⟨-, h⟩ := unpack_ofInt64 a <;> rw [h] <;> rfl

/-- Rounding to a float never turns two integers round. -/
theorem order_ofInt64_mono (h : a.toInt ≤ b.toInt) : order (ofInt64 a) ≤ order (ofInt64 b) := by
  unfold order
  obtain ⟨ha, hx⟩ | ⟨ha, hx⟩ | ⟨ha, hx⟩ := unpack_ofInt64 a
  · rw [hx]
    obtain ⟨hb, hy⟩ | ⟨hb, hy⟩ | ⟨hb, hy⟩ := unpack_ofInt64 b
    · rw [hy]
      exact rank_atPlace_negative (place_mono (by omega) (by omega))
    · rw [hy]
      exact (rank_lt_of_class _ _ (by decide)).le
    · rw [hy]
      exact (rank_lt_of_class _ _ (by decide)).le
  · rw [hx]
    obtain ⟨hb, hy⟩ | ⟨hb, hy⟩ | ⟨hb, hy⟩ := unpack_ofInt64 b
    · omega
    · rw [hy]
    · rw [hy]
      exact (rank_lt_of_class _ _ (by decide)).le
  · rw [hx]
    obtain ⟨hb, hy⟩ | ⟨hb, hy⟩ | ⟨hb, hy⟩ := unpack_ofInt64 b
    · omega
    · omega
    · rw [hy]
      exact rank_atPlace_positive (place_mono (by omega) (by omega))

end PathQuery.Number
