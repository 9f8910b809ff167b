import PathQuery.Number.Numeral

namespace PathQuery.Number

abbrev digits (n : Nat) : List Char := Nat.toDigits 10 n

theorem isDigit_of_mem {n : Nat} {c : Char} (h : c ∈ digits n) : isDigit c = true := by
  have hc := Nat.isDigit_of_mem_toDigits (by decide) (by decide) h
  simp only [Char.isDigit, Bool.and_eq_true, decide_eq_true_eq] at hc
  simp only [isDigit, Bool.and_eq_true, decide_eq_true_eq]
  exact hc

theorem all_isDigit (n : Nat) : (digits n).all isDigit = true :=
  List.all_eq_true.2 fun _ ↦ isDigit_of_mem

theorem ofDigits_digits (n : Nat) : ofDigits (digits n) = n := Nat.ofDigitChars_ten_toDigits

theorem digits_of_zero {n : Nat} {ds : List Char} (h : digits n = '0' :: ds) : n = 0 ∧ ds = [] := by
  induction n using Nat.strongRecOn generalizing ds with
  | ind n ih =>
    by_cases hn : n < 10
    · rw [digits, Nat.toDigits_of_lt_base hn] at h
      obtain ⟨hd, rfl⟩ := List.cons.inj h
      refine ⟨?_, rfl⟩
      have : ∀ m < 10, m.digitChar = '0' → m = 0 := by decide
      exact this n hn hd
    · rw [digits, Nat.toDigits_of_base_le (by decide) (Nat.le_of_not_lt hn)] at h
      cases hfront : Nat.toDigits 10 (n / 10) with
      | nil => exact absurd hfront Nat.toDigits_ne_nil
      | cons d ds' =>
        rw [hfront] at h
        obtain ⟨rfl, -⟩ := List.cons.inj h
        have := (ih (n / 10) (by omega) hfront).1
        omega

theorem toInt64?_toInt (n : Int64) : toInt64? n.toInt = some n := by
  rw [toInt64?, if_pos ⟨Int64.minValue_le_toInt n, Int64.toInt_le n⟩, Int64.ofInt_toInt]

variable {n : Int64}

theorem toList_toString_of_nonneg (h : 0 ≤ n.toInt) :
    (toString n.toInt).toList = digits n.toInt.toNat := by
  rw [Int.toString_eq_repr, Int.repr_eq_if, if_pos h, Nat.toList_repr]

theorem toList_toString_of_neg (h : n.toInt < 0) :
    (toString n.toInt).toList = '-' :: digits (-n.toInt).toNat := by
  rw [Int.toString_eq_repr, Int.repr_eq_if, if_neg (Int.not_le.2 h), String.toList_append,
    Nat.toList_repr]
  rfl

theorem splitSign_digits (n : Nat) : splitSign (digits n) = (false, digits n) := by
  have hsign : ∀ c ∈ digits n, c ≠ '-' ∧ c ≠ '+' := by
    intro c hc
    have := isDigit_of_mem hc
    constructor <;> rintro rfl <;> cases this
  cases hds : digits n with
  | nil => rfl
  | cons d ds =>
    obtain ⟨hminus, hplus⟩ := hsign d (hds ▸ List.mem_cons_self)
    unfold splitSign
    split
    · next heq => exact absurd (List.cons.inj heq).1 hminus
    · next heq => exact absurd (List.cons.inj heq).1 hplus
    · rfl

theorem readInt64?_of_splitSign {cs : List Char} {negative : Bool} {k : Nat}
    (h : splitSign cs = (negative, digits k)) :
    readInt64? cs = toInt64? (if negative then -(k : Int) else k) := by
  rw [readInt64?, h]
  dsimp only
  rw [if_pos ⟨Nat.toDigits_ne_nil, all_isDigit k⟩, ofDigits_digits]

theorem readInt64?_toString (n : Int64) : readInt64? (toString n.toInt).toList = some n := by
  obtain h | h := Int.lt_or_le n.toInt 0
  · rw [toList_toString_of_neg h, readInt64?_of_splitSign rfl, if_pos rfl,
      Int.toNat_of_nonneg (by omega), Int.neg_neg, toInt64?_toInt]
  · rw [toList_toString_of_nonneg h, readInt64?_of_splitSign (splitSign_digits _),
      if_neg Bool.false_ne_true, Int.toNat_of_nonneg h, toInt64?_toInt]

end PathQuery.Number
