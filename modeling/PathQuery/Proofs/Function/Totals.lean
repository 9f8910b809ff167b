import Mathlib.Algebra.Order.BigOperators.Group.List
import Mathlib.Algebra.Order.Ring.Int
import Mathlib.Data.List.Infix
import PathQuery.Proofs.Eval.Slice
import PathQuery.Proofs.Function.Signature
import PathQuery.Proofs.Number.Digits

namespace PathQuery

namespace Number

variable {n : Int} {w : Int64}

def Fits (n : Int) : Prop := Int64.minValue.toInt ≤ n ∧ n ≤ Int64.maxValue.toInt

instance (n : Int) : Decidable (Fits n) := inferInstanceAs (Decidable (_ ∧ _))

theorem toInt64?_eq_some : toInt64? n = some w ↔ w.toInt = n := by
  refine ⟨Slice.toInt_of_toInt64?, ?_⟩
  rintro rfl
  exact toInt64?_toInt w

theorem fits_toInt (w : Int64) : Fits w.toInt := ⟨Int64.minValue_le_toInt w, Int64.toInt_le w⟩

theorem toInt64?_eq_none : toInt64? n = none ↔ ¬ Fits n := by
  by_cases h : Fits n
  · have hword : toInt64? n = some (Int64.ofInt n) := if_pos h
    rw [hword]
    exact iff_of_false (Option.some_ne_none _) (not_not_intro h)
  · have hword : toInt64? n = none := if_neg h
    exact iff_of_true hword h

theorem fits_iff : Fits n ↔ ∃ w : Int64, w.toInt = n := by
  constructor
  · intro h
    cases hword : toInt64? n with
    | none => exact absurd h (toInt64?_eq_none.1 hword)
    | some w => exact ⟨w, toInt64?_eq_some.1 hword⟩
  · rintro ⟨w, rfl⟩
    exact fits_toInt w

namespace Decimal

theorem mantissa_ofInt (n : Int) : (ofInt n).mantissa = n.natAbs := rfl

theorem negative_ofInt (n : Int) : (ofInt n).negative = decide (n < 0) := by
  have hne : n < 0 → (n.natAbs != 0) = true := fun h ↦ bne_iff_ne.2 (Int.natAbs_ne_zero.2 h.ne)
  change (decide (n < 0) && n.natAbs != 0) = decide (n < 0)
  rw [Bool.and_eq_left_iff_imp, decide_eq_true_eq]
  exact hne

theorem signed_ofInt (n : Int) : (ofInt n).signed 0 = n := by
  rw [signed, negative_ofInt, mantissa_ofInt, Nat.zero_sub, Nat.pow_eq, Nat.pow_zero, Nat.mul_one]
  by_cases hn : n < 0
  · rw [decide_eq_true hn, if_pos rfl, Int.ofNat_natAbs_of_nonpos hn.le, Int.neg_neg]
  · rw [decide_eq_false hn, if_neg Bool.false_ne_true, Int.natAbs_of_nonneg (Int.not_lt.1 hn)]

theorem fit?_of_lt {negative : Bool} {m : Nat} (h : m < limit) :
    fit? negative m 0 = some (make negative m 0) := by
  have hround : roundDiv m (Nat.pow 10 0) = m := by
    change roundDiv m 1 = m
    rw [roundDiv, Nat.div_one, Nat.mod_one, if_neg (by omega)]
  rw [fit?, Nat.zero_add, List.range_one, List.findSome?_singleton, hround, if_pos h]

theorem add?_ofInt {a b : Int} (h : (a + b).natAbs < limit) :
    (ofInt a).add? (ofInt b) = some (ofInt (a + b)) := by
  rw [add?, mantissa_ofInt, mantissa_ofInt]
  split
  · next ha => rw [Int.natAbs_eq_zero.1 ha, Int.zero_add]
  · split
    · next hb => rw [Int.natAbs_eq_zero.1 hb, Int.add_zero]
    · change fit? ((ofInt a).signed 0 + (ofInt b).signed 0 < 0)
        ((ofInt a).signed 0 + (ofInt b).signed 0).natAbs 0 = _
      rw [signed_ofInt, signed_ofInt, fit?_of_lt h]
      rfl

theorem toFloat_ofInt (n : Int) : (ofInt n).toFloat = Float.ofInt n := by
  have hmagnitude : (ofInt n).toFloat =
      if (ofInt n).negative then -Float.ofNat n.natAbs else Float.ofNat n.natAbs := rfl
  rw [hmagnitude, negative_ofInt]
  cases n with
  | ofNat n => rw [decide_eq_false (by simp)]; rfl
  | negSucc n => rw [decide_eq_true (Int.negSucc_lt_zero n)]; rfl

end Decimal

end Number

open Number

namespace Value

variable {ns ms : List Int64} {t n : Int64} {s : Int} {P Q : Int → Prop}

def total (ns : List Int64) : Int := (ns.map Int64.toInt).sum

theorem total_cons (n : Int64) (ns : List Int64) : total (n :: ns) = n.toInt + total ns :=
  List.sum_cons

theorem total_append (ns ms : List Int64) : total (ns ++ ms) = total ns + total ms := by
  rw [total, List.map_append, List.sum_append, total, total]

theorem total_perm (h : ms.Perm ns) : total ms = total ns := (h.map Int64.toInt).sum_eq

/-- What holds of each total on the way through the integers, from that of none to that of all. -/
def OnTheWay (P : Int → Prop) (ns : List Int64) : Prop := ∀ p, p <+: ns → P (total p)

instance [DecidablePred P] : Decidable (OnTheWay P ns) :=
  decidable_of_iff (∀ p ∈ ns.inits, P (total p)) (by simp only [List.mem_inits, OnTheWay])

theorem OnTheWay.first (h : OnTheWay P ns) : P 0 := h [] List.nil_prefix

theorem OnTheWay.last (h : OnTheWay P ns) : P (total ns) := h ns (List.prefix_refl ns)

theorem onTheWay_nil : OnTheWay P [] ↔ P 0 := by
  refine ⟨fun h ↦ h.last, fun h p hp ↦ ?_⟩
  rw [List.prefix_nil.1 hp]
  exact h

theorem onTheWay_cons : OnTheWay P (n :: ns) ↔ P 0 ∧ OnTheWay (fun s ↦ P (n.toInt + s)) ns := by
  constructor
  · refine fun h ↦ ⟨h.first, fun p hp ↦ ?_⟩
    have hcons := h (n :: p) (List.prefix_cons_inj n |>.2 hp)
    rwa [total_cons] at hcons
  · rintro ⟨hzero, h⟩ p hp
    obtain rfl | ⟨q, rfl, hq⟩ := List.prefix_cons_iff.1 hp
    · exact hzero
    · rw [total_cons]
      exact h q hq

/-- Words are added without an overflow as long as each total on the way is one. -/
theorem foldlM_toInt64? :
    ns.foldlM (fun t n ↦ toInt64? (t.toInt + n.toInt)) t = some n ↔
      OnTheWay (fun s ↦ Fits (t.toInt + s)) ns ∧ n.toInt = t.toInt + total ns := by
  induction ns generalizing t with
  | nil =>
    rw [List.foldlM_nil, onTheWay_nil, total, List.map_nil, List.sum_nil, Int.add_zero]
    change some t = some n ↔ _
    rw [Option.some_inj, ← Int64.toInt_inj, eq_comm, and_iff_right (fits_toInt t)]
  | cons m ns ih =>
    rw [List.foldlM_cons, Option.bind_eq_bind, onTheWay_cons, total_cons, Int.add_zero,
      and_iff_right_of_imp fun _ ↦ fits_toInt t]
    simp only [← Int.add_assoc]
    cases hsum : toInt64? (t.toInt + m.toInt) with
    | none =>
      refine iff_of_false nofun fun ⟨h, _⟩ ↦ ?_
      have hfits := h.first
      rw [Int.add_zero] at hfits
      exact toInt64?_eq_none.1 hsum hfits
    | some u =>
      rw [← toInt64?_eq_some.1 hsum]
      exact ih

theorem intSum?_eq_some :
    intSum? (ns.map int) = some n ↔ OnTheWay Fits ns ∧ n.toInt = total ns := by
  have hmap : intSum? (ns.map int) = ns.foldlM (fun t n ↦ toInt64? (t.toInt + n.toInt)) 0 :=
    List.foldlM_map ..
  rw [hmap, foldlM_toInt64?, Int64.toInt_zero]
  simp only [Int.zero_add]

/-- Decimals hold the integers on the way as long as these have up to 96 bits. -/
theorem foldlM_add? (h : OnTheWay (fun r ↦ (s + r).natAbs < Decimal.limit) ns) :
    ns.foldlM (fun t n ↦ t.add? (.ofInt n.toInt)) (Decimal.ofInt s) =
      some (Decimal.ofInt (s + total ns)) := by
  induction ns generalizing s with
  | nil => rw [List.foldlM_nil, total, List.map_nil, List.sum_nil, Int.add_zero]; rfl
  | cons m ns ih =>
    obtain ⟨-, h⟩ := onTheWay_cons.1 h
    simp only [← Int.add_assoc] at h
    have hnext := h.first
    rw [Int.add_zero] at hnext
    rw [List.foldlM_cons, Decimal.add?_ofInt hnext, total_cons, ← Int.add_assoc, ← ih h]
    rfl

theorem decimalSum?_eq (h : OnTheWay (fun r ↦ r.natAbs < Decimal.limit) ns) :
    decimalSum? (ns.map int) = some (Decimal.ofInt (total ns)) := by
  have hmap : decimalSum? (ns.map int) =
      ns.foldlM (fun t n ↦ t.add? (.ofInt n.toInt)) (Decimal.ofInt 0) := List.foldlM_map ..
  rw [hmap, foldlM_add?, Int.zero_add]
  simpa only [Int.zero_add] using h

def gains (ns : List Int64) : List Int64 := ns.filter (0 < ·.toInt)

def losses (ns : List Int64) : List Int64 := ns.filter (·.toInt < 0)

theorem total_eq (ns : List Int64) : total ns = total (gains ns) + total (losses ns) := by
  induction ns with
  | nil => rfl
  | cons n ns ih =>
    rw [total_cons, ih, gains, gains, losses, losses, List.filter_cons, List.filter_cons]
    obtain hn | hn | hn := Int.lt_trichotomy n.toInt 0
    · rw [if_neg (by simp; omega), if_pos (by simpa using hn), total_cons]
      omega
    · rw [if_neg (by simp; omega), if_neg (by simp; omega)]
      omega
    · rw [if_pos (by simpa using hn), if_neg (by simp; omega), total_cons]
      omega

theorem total_gains_nonneg (ns : List Int64) : 0 ≤ total (gains ns) := by
  refine List.sum_nonneg fun m hm ↦ ?_
  obtain ⟨n, hn, rfl⟩ := List.mem_map.1 hm
  exact (of_decide_eq_true (List.mem_filter.1 hn).2).le

theorem total_losses_nonpos (ns : List Int64) : total (losses ns) ≤ 0 := by
  refine (List.sum_le_card_nsmul _ 0 fun m hm ↦ ?_).trans_eq (nsmul_zero _)
  obtain ⟨n, hn, rfl⟩ := List.mem_map.1 hm
  exact (of_decide_eq_true (List.mem_filter.1 hn).2).le

/-- On the way, a total is never above that of all gains nor below that of all losses. -/
theorem onTheWay_between (ns : List Int64) :
    OnTheWay (fun s ↦ total (losses ns) ≤ s ∧ s ≤ total (gains ns)) ns := by
  rintro p ⟨q, rfl⟩
  have hp := total_eq p
  have hgains : total (gains (p ++ q)) = total (gains p) + total (gains q) := by
    rw [gains, List.filter_append, total_append, gains, gains]
  have hlosses : total (losses (p ++ q)) = total (losses p) + total (losses q) := by
    rw [losses, List.filter_append, total_append, losses, losses]
  have hpgains := total_gains_nonneg p
  have hqgains := total_gains_nonneg q
  have hplosses := total_losses_nonpos p
  have hqlosses := total_losses_nonpos q
  omega

/-- The integers can be added up in any order if and only if all gains and all losses can be added
up by themselves. -/
theorem onTheWay_fits_of_perm : (∀ ms, ms.Perm ns → OnTheWay Fits ms) ↔
    Fits (total (gains ns)) ∧ Fits (total (losses ns)) := by
  constructor
  · intro h
    exact ⟨h _ (List.filter_append_perm _ ns) _ (List.prefix_append ..),
      h _ (List.filter_append_perm _ ns) _ (List.prefix_append ..)⟩
  · rintro ⟨⟨-, hgains⟩, hlosses, -⟩ ms hms p hp
    obtain ⟨hlow, hhigh⟩ := onTheWay_between ms p hp
    have hgainsperm : total (gains ms) = total (gains ns) := total_perm (hms.filter _)
    have hlossesperm : total (losses ms) = total (losses ns) := total_perm (hms.filter _)
    exact ⟨by omega, by omega⟩

theorem sum_eq_int : sum (ns.map int) = .int n ↔ OnTheWay Fits ns ∧ n.toInt = total ns := by
  rw [← intSum?_eq_some, sum]
  cases intSum? (ns.map int) with
  | none =>
    refine iff_of_false (fun h ↦ ?_) nofun
    cases hdecimal : decimalSum? (ns.map int) with
    | none => rw [hdecimal] at h; cases h
    | some d => rw [hdecimal] at h; cases h
  | some m => exact int.injEq m n ▸ (Option.some.injEq m n).symm ▸ Iff.rfl

/-- Where an overflow is met on the way, the sum is a float, of the same number as long as decimals
hold it. -/
theorem sum_eq_float (h : ¬ OnTheWay Fits ns) : ∃ x, sum (ns.map int) = .float x ∧
    (OnTheWay (·.natAbs < Decimal.limit) ns → x = Float.ofInt (total ns)) := by
  have hnone : intSum? (ns.map int) = none := by
    refine Option.eq_none_iff_forall_ne_some.2 fun n hn ↦ ?_
    exact h (intSum?_eq_some.1 hn).1
  rw [sum, hnone]
  cases hdecimal : decimalSum? (ns.map int) with
  | none =>
    refine ⟨_, rfl, fun hlimit ↦ ?_⟩
    rw [decimalSum?_eq hlimit] at hdecimal
    cases hdecimal
  | some d =>
    refine ⟨_, rfl, fun hlimit ↦ ?_⟩
    rw [decimalSum?_eq hlimit] at hdecimal
    cases hdecimal
    exact Decimal.toFloat_ofInt (total ns)

end Value

namespace Builtin

open Value

theorem call_sum (ns : List Int64) :
    sum.call [.value (.array (ns.map .int))] = .ok (Value.sum (ns.map .int)) := by
  have haccepts : [ArgType.numberArray].any (·.accepts (.value (.array (ns.map .int)))) = true := by
    refine List.any_eq_true.2 ⟨_, List.mem_singleton_self _, List.all_eq_true.2 fun v hv ↦ ?_⟩
    obtain ⟨n, -, rfl⟩ := List.mem_map.1 hv
    rfl
  have hcheck : sum.signature.check [.value (.array (ns.map .int))] = .ok () :=
    Signature.check_fixed_one haccepts
  rw [call, hcheck]
  rfl

theorem call_sum_eq_int {ns : List Int64} {n : Int64} :
    sum.call [.value (.array (ns.map .int))] = .ok (.int n) ↔
      OnTheWay Fits ns ∧ n.toInt = total ns := by
  rw [call_sum, Except.ok.injEq, sum_eq_int]

/-- Integers are added up exactly as long as no total on the way overflows, and to a float from then
on. In every order they have the same integer as their sum if and only if neither the positive nor
the negative ones overflow by themselves. -/
theorem sum_integers (ns : List Int64) :
    (∀ n, sum.call [.value (.array (ns.map .int))] = .ok (.int n) ↔
      OnTheWay Fits ns ∧ n.toInt = total ns) ∧
    (OnTheWay Fits ns ∨ ∃ x, sum.call [.value (.array (ns.map .int))] = .ok (.float x) ∧
      (OnTheWay (·.natAbs < Decimal.limit) ns → x = Float.ofInt (total ns))) ∧
    ((∀ ms : List Int64, ms.Perm ns → ∃ n, n.toInt = total ns ∧
        sum.call [.value (.array (ms.map .int))] = .ok (.int n)) ↔
      Fits (total (gains ns)) ∧ Fits (total (losses ns))) := by
  refine ⟨fun n ↦ call_sum_eq_int, ?_, ?_⟩
  · by_cases h : OnTheWay Fits ns
    · exact .inl h
    · rw [call_sum]
      obtain ⟨x, hx, hlimit⟩ := sum_eq_float h
      exact .inr ⟨x, congrArg Except.ok hx, hlimit⟩
  · rw [← onTheWay_fits_of_perm]
    refine forall₂_congr fun ms hms ↦ ?_
    simp only [call_sum_eq_int]
    constructor
    · rintro ⟨n, -, h, -⟩
      exact h
    · intro h
      obtain ⟨n, hn⟩ := fits_iff.1 h.last
      exact ⟨n, hn.trans (total_perm hms), h, hn⟩

theorem sum_integers_of_largest :
    sum.call [.value (.array ([Int64.maxValue, -1, 1].map .int))] = .ok (.int Int64.maxValue) ∧
    ∃ x, sum.call [.value (.array ([Int64.maxValue, 1, -1].map .int))] = .ok (.float x) ∧
      x = Float.ofInt Int64.maxValue.toInt := by
  refine ⟨((sum_integers [Int64.maxValue, -1, 1]).1 Int64.maxValue).2 (by decide), ?_⟩
  obtain hfits | ⟨x, hx, hlimit⟩ := (sum_integers [Int64.maxValue, 1, -1]).2.1
  · exact absurd hfits (by decide)
  · exact ⟨x, hx, hlimit (by decide)⟩

/-- An overflow on the way loses the integer, though the total is one. -/
theorem sum_ne_total_of_detour : ¬ ∀ ns : List Int64, Fits (total ns) →
    ∃ n, n.toInt = total ns ∧ sum.call [.value (.array (ns.map .int))] = .ok (.int n) := by
  intro h
  obtain ⟨n, -, hsum⟩ := h [Int64.maxValue, 1, -1] (by decide)
  exact absurd (call_sum_eq_int.1 hsum).1 (by decide)

end Builtin

end PathQuery
