import PathQuery.Eval.Comparison
import PathQuery.Proofs.Number.Order

namespace PathQuery.Value

open Number

variable {u v w : Value} {x y z : Float}

theorem eq_of_toFloat? (h : v.toFloat? = some x) :
    (∃ n, v = int n ∧ x = ofInt64 n) ∨ v = float x := by
  cases v with
  | int n => exact .inl ⟨n, rfl, (Option.some.inj h).symm⟩
  | float y => exact .inr (congrArg float (Option.some.inj h))
  | _ => cases h

theorem isNumber_of_toFloat? (h : v.toFloat? = some x) : v.isNumber = true := by
  obtain ⟨n, rfl, -⟩ | rfl := eq_of_toFloat? h <;> rfl

/-- Only two integers are compared without their floats. -/
theorem both_int_or (hu : u.toFloat? = some x) (hv : v.toFloat? = some y) :
    (∃ a b, u = int a ∧ v = int b ∧ x = ofInt64 a ∧ y = ofInt64 b) ∨
      u.compare v = compareFloats x y ∧ v.compare u = compareFloats y x ∧
        (u == v) = (x == y) := by
  obtain ⟨a, rfl, rfl⟩ | rfl := eq_of_toFloat? hu
  · obtain ⟨b, rfl, rfl⟩ | rfl := eq_of_toFloat? hv
    · exact .inl ⟨a, b, rfl, rfl, rfl, rfl⟩
    · exact .inr ⟨rfl, rfl, rfl⟩
  · obtain ⟨b, rfl, rfl⟩ | rfl := eq_of_toFloat? hv
    · exact .inr ⟨rfl, rfl, rfl⟩
    · exact .inr ⟨rfl, rfl, rfl⟩

theorem compare_int (a b : Int64) : (int a).compare (int b) = some (Ord.compare a b) := rfl

theorem beq_int {a b : Int64} : (int a == int b) = true ↔ a = b :=
  beq_iff_eq (a := a) (b := b)

theorem float_beq_of_beq (hu : u.toFloat? = some x) (hv : v.toFloat? = some y)
    (h : (u == v) = true) : (x == y) = true := by
  obtain ⟨a, b, rfl, rfl, rfl, rfl⟩ | ⟨-, -, hbeq⟩ := both_int_or hu hv
  · obtain rfl := beq_int.1 h
    exact (beq_iff_order (isNaN_ofInt64 a) (isNaN_ofInt64 a)).2 rfl
  · exact hbeq ▸ h

def IsNumeric (v : Value) : Prop := ∃ x, v.toFloat? = some x ∧ x.isNaN = false

/-- Two numbers have an order and, the other way round, the opposite one. It is that of equality
where they are equal, and rounding them to floats does not turn it round. -/
theorem compare_of_toFloat? (hu : u.toFloat? = some x) (hx : x.isNaN = false)
    (hv : v.toFloat? = some y) (hy : y.isNaN = false) :
    ∃ o, u.compare v = some o ∧ v.compare u = some o.swap ∧ (o = .eq ↔ (u == v) = true) ∧
      (o ≠ .gt → order x ≤ order y) := by
  obtain ⟨a, b, rfl, rfl, rfl, rfl⟩ | ⟨hcompare, hswap, hbeq⟩ := both_int_or hu hv
  · refine ⟨Ord.compare a b, rfl, ?_, ?_, fun h ↦ order_ofInt64_mono ?_⟩
    · rw [compare_int, Std.OrientedOrd.eq_swap]
    · rw [beq_int, Std.LawfulEqCmp.compare_eq_iff_eq]
    · exact Int64.le_iff_toInt_le.1 (Std.isLE_compare.1 (Ordering.isLE_iff_ne_gt.2 h))
  · refine ⟨Ord.compare (order x) (order y), ?_, ?_, ?_, compare_le_iff_le.1⟩
    · rw [hcompare, compareFloats_eq hx hy]
    · rw [hswap, compareFloats_eq hy hx, Std.OrientedOrd.eq_swap]
    · rw [hbeq, beq_iff_order hx hy, compare_eq_iff_eq]

inductive Within : Value → Value → Prop
  | refl (v : Value) : Within v v
  | item {v w : Value} {items : List Value} : w ∈ items → Within v w → Within v (array items)
  | entry {v : Value} {e : String × Value} {entries : List (String × Value)} : e ∈ entries →
      Within v e.2 → Within v (object entries)

/-- No float of the middle value stands for two integers, one of the first value and one of the
last. -/
def Apart (u v w : Value) : Prop :=
  ∀ a x c, (int a).Within u → (float x).Within v → (int c).Within w →
    (int a == float x) = true → (float x == int c) = true → a = c

theorem Apart.mono {u' v' w' : Value} (h : Apart u v w) (hu : ∀ p, Within p u' → Within p u)
    (hv : ∀ p, Within p v' → Within p v) (hw : ∀ p, Within p w' → Within p w) : Apart u' v' w' :=
  fun a x c ha hx hc ↦ h a x c (hu _ ha) (hv _ hx) (hw _ hc)

/-- A third number that lies between two integers tells them apart if it is one, too, or if they do
not have their float in common. -/
theorem eq_of_between {a c : Int64} (hv : v.toFloat? = some y)
    (h : Apart (int a) v (int c)) (hac : (int a == v) = true) (hvc : (v == int c) = true) :
    a = c := by
  obtain ⟨b, rfl, -⟩ | rfl := eq_of_toFloat? hv
  · exact (beq_int.1 hac).trans (beq_int.1 hvc)
  · exact h a y c (.refl _) (.refl _) (.refl _) hac hvc

theorem beq_trans_of_toFloat? (hu : u.toFloat? = some x) (hv : v.toFloat? = some y)
    (hw : w.toFloat? = some z) (h : Apart u v w) (huv : (u == v) = true) (hvw : (v == w) = true) :
    (u == w) = true := by
  obtain ⟨a, c, rfl, rfl, rfl, rfl⟩ | ⟨-, -, hbeq⟩ := both_int_or hu hw
  · exact beq_int.2 (eq_of_between hv h huv hvw)
  · rw [hbeq]
    exact float_beq_trans (float_beq_of_beq hu hv huv) (float_beq_of_beq hv hw hvw)

theorem order_le_of_compare (hu : u.toFloat? = some x) (hx : x.isNaN = false)
    (hv : v.toFloat? = some y) (hy : y.isNaN = false) (h : u.compare v ≠ some .gt) :
    order x ≤ order y := by
  obtain ⟨o, ho, -, -, hle⟩ := compare_of_toFloat? hu hx hv hy
  apply hle
  rintro rfl
  exact h ho

theorem compare_trans (hu : u.IsNumeric) (hv : v.IsNumeric) (hw : w.IsNumeric) (h : Apart u v w)
    (huv : u.compare v ≠ some .gt) (hvw : v.compare w ≠ some .gt) : u.compare w ≠ some .gt := by
  obtain ⟨x, hux, hx⟩ := hu
  obtain ⟨y, hvy, hy⟩ := hv
  obtain ⟨z, hwz, hz⟩ := hw
  have hxy := order_le_of_compare hux hx hvy hy huv
  have hyz := order_le_of_compare hvy hy hwz hz hvw
  obtain ⟨a, c, rfl, rfl, rfl, rfl⟩ | ⟨huw, -, -⟩ := both_int_or hux hwz
  · obtain ⟨b, rfl, rfl⟩ | rfl := eq_of_toFloat? hvy
    · rw [compare_int, Option.some_inj.ne] at huv hvw ⊢
      have hab : (Ord.compare a b).isLE = true := Ordering.isLE_iff_ne_gt.2 huv
      have hbc : (Ord.compare b c).isLE = true := Ordering.isLE_iff_ne_gt.2 hvw
      exact Ordering.isLE_iff_ne_gt.1 (Std.TransCmp.isLE_trans hab hbc)
    · -- Of two integers in the wrong order, both would have to stand for the float between them.
      intro hgt
      have hca : c ≤ a := Std.isLE_compare.1 (by
        rw [Std.OrientedOrd.eq_swap, Option.some_inj.1 hgt]
        rfl)
      have hzx := order_ofInt64_mono (Int64.le_iff_toInt_le.1 hca)
      have hay := (beq_iff_order hx hy).2 (hxy.antisymm (hyz.trans hzx))
      have hyc := (beq_iff_order hy hz).2 (hyz.antisymm (hzx.trans hxy))
      obtain rfl := h a y c (.refl _) (.refl _) (.refl _) hay hyc
      have hself : Ord.compare a a = .eq := Std.ReflCmp.compare_self
      rw [compare_int, hself] at hgt
      cases hgt
  · rw [huw, compareFloats_eq hx hz, Option.some_inj.ne]
    exact compare_le_iff_le.2 (hxy.trans hyz)

theorem toFloat?_of_beq (hu : u.toFloat? = some x) (h : (u == v) = true) :
    ∃ y, v.toFloat? = some y := by
  obtain ⟨a, rfl, -⟩ | rfl := eq_of_toFloat? hu
  · cases v with
    | int | float => exact ⟨_, rfl⟩
    | _ => cases h
  · cases v with
    | int | float => exact ⟨_, rfl⟩
    | _ => cases h

theorem beq_symm_of_toFloat? (hu : u.toFloat? = some x) (h : (u == v) = true) :
    (v == u) = true := by
  obtain ⟨y, hv⟩ := toFloat?_of_beq hu h
  obtain ⟨b, a, rfl, rfl, -, -⟩ | ⟨-, -, hbeq⟩ := both_int_or hv hu
  · exact beq_int.2 (beq_int.1 h).symm
  · rw [hbeq]
    exact float_beq_symm (float_beq_of_beq hu hv h)

theorem IsNumeric.isNumber (h : v.IsNumeric) : v.isNumber = true := by
  obtain ⟨x, hv, -⟩ := h
  exact isNumber_of_toFloat? hv

theorem apply_of_compare (hu : u.IsNumeric) (hv : v.IsNumeric) {o : Ordering}
    (ho : u.compare v = some o) (heq : o = .eq ↔ (u == v) = true) (op : Comparator) :
    op.apply u v = .bool (op.holds o) := by
  have hbeq : (u == v) = (o == .eq) := Bool.eq_iff_iff.2 (heq.symm.trans beq_iff_eq.symm)
  have hordered : op.isOrdering = true → op.apply u v = .bool (op.holds o) := by
    intro hop
    unfold Comparator.apply
    rw [hop, hu.isNumber, hv.isNumber, ho]
    cases op with
    | equal | notEqual => cases hop
    | _ => rfl
  cases op with
  | equal => exact congrArg Value.bool hbeq
  | notEqual => exact congrArg (fun b ↦ Value.bool !b) hbeq
  | _ => exact hordered rfl

theorem exists_order (hu : u.IsNumeric) (hv : v.IsNumeric) :
    ∃ o, u.compare v = some o ∧ v.compare u = some o.swap ∧ (o = .eq ↔ (u == v) = true) ∧
      ∀ op : Comparator, op.apply u v = .bool (op.holds o) := by
  obtain ⟨x, hux, hx⟩ := hu
  obtain ⟨y, hvy, hy⟩ := hv
  obtain ⟨o, ho, hswap, heq, -⟩ := compare_of_toFloat? hux hx hvy hy
  exact ⟨o, ho, hswap, heq, apply_of_compare ⟨x, hux, hx⟩ ⟨y, hvy, hy⟩ ho heq⟩

theorem lessEqual_iff (hu : u.IsNumeric) (hv : v.IsNumeric) :
    Comparator.lessEqual.apply u v = .bool true ↔ u.compare v ≠ some .gt := by
  obtain ⟨o, ho, -, -, hop⟩ := exists_order hu hv
  rw [hop, ho, bool.injEq, Option.some_inj.ne]
  exact bne_iff_ne

/-- Of two numbers one is less, or they are equal, or the other one is less. -/
theorem existsUnique_apply (hu : u.IsNumeric) (hv : v.IsNumeric) :
    ∃! op, op ∈ [Comparator.less, .equal, .greater] ∧ op.apply u v = .bool true := by
  obtain ⟨o, -, -, -, hop⟩ := exists_order hu hv
  have hholds : ∃ op ∈ [Comparator.less, .equal, .greater], op.holds o = true ∧
      ∀ op' ∈ [Comparator.less, .equal, .greater], op'.holds o = true → op' = op := by
    cases o <;> decide
  obtain ⟨op, hmem, hholds, hunique⟩ := hholds
  refine ⟨op, ⟨hmem, (hop op).trans (congrArg bool hholds)⟩, ?_⟩
  rintro op' ⟨hmem', hop'⟩
  exact hunique op' hmem' (bool.inj ((hop op').symm.trans hop'))

theorem isNumeric_int (n : Int64) : (int n).IsNumeric := ⟨_, rfl, isNaN_ofInt64 n⟩

theorem isNumeric_float_ofInt64 (n : Int64) : (float (ofInt64 n)).IsNumeric :=
  ⟨_, rfl, isNaN_ofInt64 n⟩

end PathQuery.Value
