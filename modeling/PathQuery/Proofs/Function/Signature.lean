import Mathlib.Data.List.Basic
import PathQuery.Function.Call

namespace PathQuery

def ArgType.isPlain : ArgType → Bool
  | number => true
  | string => true
  | numberArray => true
  | stringArray => true
  | _ => false

namespace Signature

variable {s : Signature} {args : List Arg} {fault : ArgumentFault}

theorem checkTypes_ok {i : Nat} (h : s.checkTypes i args = .ok ()) (j : Nat)
    (hj : j < args.length) : (s.accepted (i + j)).any (·.accepts args[j]) = true := by
  induction args generalizing i j with
  | nil => simp at hj
  | cons arg args ih =>
    rw [checkTypes] at h
    split at h
    · next haccepts =>
      cases j with
      | zero => exact haccepts
      | succ j =>
        have := ih h j (by simpa using hj)
        rwa [Nat.add_right_comm] at this
    · cases h

theorem check_ok (h : s.check args = .ok ()) :
    s.checkArity args.length = .ok () ∧ s.checkTypes 0 args = .ok () := by
  rw [check] at h
  cases harity : s.checkArity args.length with
  | error fault => rw [harity] at h; cases h
  | ok => rw [harity] at h; exact ⟨rfl, h⟩

theorem length_of_check_fixed {params : List (List ArgType)}
    (h : (fixed params).check args = .ok ()) : args.length = params.length := by
  have harity := (check_ok h).1
  by_contra hne
  have hcount : args.length ≠ (fixed params).params.length := hne
  rw [checkArity, if_neg (by simp [fixed]), if_pos hcount] at harity
  cases harity

theorem check_fixed_two {ts us : List ArgType} (h : (fixed [ts, us]).check args = .ok ()) :
    ∃ a b, args = [a, b] ∧ ts.any (·.accepts a) = true ∧ us.any (·.accepts b) = true := by
  obtain ⟨a, b, rfl⟩ := List.length_eq_two.1 (length_of_check_fixed h)
  exact ⟨a, b, rfl, checkTypes_ok (check_ok h).2 0 (by simp),
    checkTypes_ok (check_ok h).2 1 (by simp)⟩

theorem check_fixed_one {ts : List ArgType} {a : Arg} (h : ts.any (·.accepts a) = true) :
    (fixed [ts]).check [a] = .ok () := if_pos h

/-- A signature of plain types admits each argument for one of them. -/
theorem exists_isPlain (hs : (s.params.all (·.all ArgType.isPlain)) = true)
    (h : s.check args = .ok ()) (i : Nat) (hi : i < args.length) :
    ∃ t : ArgType, t.isPlain = true ∧ t.accepts args[i] = true := by
  have haccepts := checkTypes_ok (check_ok h).2 i hi
  obtain ⟨t, ht, haccept⟩ := List.any_eq_true.1 haccepts
  refine ⟨t, ?_, haccept⟩
  rw [accepted, List.getD_eq_getElem?_getD] at ht
  cases hparam : s.params[min (0 + i) (s.params.length - 1)]? with
  | none => rw [hparam] at ht; cases ht
  | some ts =>
    rw [hparam] at ht
    exact List.all_eq_true.1 (List.all_eq_true.1 hs ts (List.mem_of_getElem? hparam)) t ht

theorem checkTypes_error {i : Nat} (h : s.checkTypes i args = .error fault) :
    ∃ (j : Nat) (hj : j < args.length), (s.accepted (i + j)).any (·.accepts args[j]) = false ∧
      fault = .wrongType (i + j) (s.accepted (i + j)) args[j].typeName := by
  induction args generalizing i with
  | nil => cases h
  | cons arg args ih =>
    rw [checkTypes] at h
    split at h
    · obtain ⟨j, hj, hreject, hfault⟩ := ih h
      rw [Nat.add_right_comm] at hreject hfault
      exact ⟨j + 1, Nat.succ_lt_succ hj, hreject, hfault⟩
    · next hreject =>
      cases h
      exact ⟨0, Nat.succ_pos _, Bool.eq_false_iff.2 hreject, rfl⟩

theorem checkArity_error {count : Nat} (h : s.checkArity count = .error fault) :
    fault = .tooFew s.params.length count ∨ fault = .wrongCount s.params.length count := by
  simp only [checkArity] at h
  split at h
  · split at h
    · cases h
      exact .inl rfl
    · cases h
  · split at h
    · cases h
      exact .inr rfl
    · cases h

end Signature

end PathQuery
