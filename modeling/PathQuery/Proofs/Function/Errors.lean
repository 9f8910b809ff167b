import PathQuery.Proofs.Function.Signature
import PathQuery.Proofs.Function.UniqueKeys

namespace PathQuery

namespace Eval

variable {α β : Type} {P Q : EvalError → Prop} {m : Except EvalError α}
  {f : α → Except EvalError β}

def FailsOnly (P : EvalError → Prop) (m : Except EvalError α) : Prop := ∀ x, m = .error x → P x

namespace FailsOnly

theorem ok (a : α) : FailsOnly P (.ok a) := nofun

theorem error {x : EvalError} (h : P x) : FailsOnly P (.error x : Except EvalError α) := by
  rintro _ ⟨⟩
  exact h

theorem bind (hm : FailsOnly P m) (hf : ∀ a, m = .ok a → FailsOnly P (f a)) :
    FailsOnly P (m >>= f) := by
  cases m with
  | error x => exact .error (hm x rfl)
  | ok a => exact hf a rfl

theorem map {g : α → β} (hm : FailsOnly P m) : FailsOnly P (do return g (← m)) :=
  hm.bind fun _ _ ↦ .ok _

theorem mono (hm : FailsOnly P m) (h : ∀ x, P x → Q x) : FailsOnly Q m :=
  fun x hx ↦ h x (hm x hx)

theorem mapM {run : α → Except EvalError β} (h : ∀ a, FailsOnly P (run a)) (items : List α) :
    FailsOnly P (items.mapM run) := by
  induction items with
  | nil => exact .ok []
  | cons a items ih =>
    rw [List.mapM_cons]
    exact (h a).bind fun _ _ ↦ ih.bind fun _ _ ↦ .ok _

end FailsOnly

end Eval

open Eval

namespace Builtin

def ordersByKey : Builtin → Bool
  | maxBy => true
  | minBy => true
  | sortBy => true
  | _ => false

/-- The errors of a call with the given number of arguments: the number or the type of an argument
is not what the signature says, or a key that items are ordered by is neither a number nor a string
or not of the kind of the first key. -/
inductive Raises (f : Builtin) (count : Nat) : EvalError → Prop
  | arity {fault : ArgumentFault} :
    f.signature.checkArity count = .error fault → Raises f count (.badArguments f.name fault)
  | type {i : Nat} {arg : Arg} :
    f.signature.checkArity count = .ok () → i < count →
    (f.signature.accepted i).any (·.accepts arg) = false →
    Raises f count (.badArguments f.name (.wrongType i (f.signature.accepted i) arg.typeName))
  | badKey {got : Kind} :
    f.ordersByKey = true → got ≠ .number → got ≠ .string → Raises f count (.badKey f got)
  | mixedKeys {first got : Kind} :
    f.ordersByKey = true → first = .number ∧ got = .string ∨ first = .string ∧ got = .number →
    Raises f count (.mixedKeys f first got)

variable {f : Builtin} {args : List Arg} {count : Nat} {x : EvalError} {P : EvalError → Prop}

/-- None of these errors is a reference without a function to take it, a name without a function or
an argument that was admitted as a reference and is none. -/
theorem Raises.ne (h : f.Raises count x) : x ≠ .strayReference ∧
    ∀ name position, x ≠ .badArguments name .unknownFunction ∧
      x ≠ .badArguments name (.notReference position) := by
  cases h with
  | arity harity =>
    obtain rfl | rfl := Signature.checkArity_error harity <;> simp
  | type => simp
  | badKey => simp
  | mixedKeys => simp

theorem raises_of_check {fault : ArgumentFault} (h : f.signature.check args = .error fault) :
    f.Raises args.length (.badArguments f.name fault) := by
  cases harity : f.signature.checkArity args.length with
  | error fault' =>
    rw [Signature.check, harity] at h
    cases h
    exact .arity harity
  | ok =>
    rw [Signature.check, harity] at h
    obtain ⟨j, hj, hreject, rfl⟩ := Signature.checkTypes_error h
    rw [Nat.zero_add] at hreject ⊢
    exact .type harity hj hreject

end Builtin

namespace Keyed

variable {f : Builtin} {count : Nat} {run : Reference} {P : EvalError → Prop}

theorem failsOnly_checkKey (hf : f.ordersByKey = true) {first : Option Kind}
    (hfirst : ∀ k, first = some k → k = .number ∨ k = .string) (key : Value) :
    FailsOnly (f.Raises count) (checkKey f first key) := by
  cases key with
  | int | float | string =>
    cases first with
    | none => exact .ok ()
    | some k =>
      obtain rfl | rfl := hfirst k rfl <;>
        first | exact .ok () | exact .error (.mixedKeys hf (by simp [Value.kind]))
  | _ => exact .error (.badKey hf (by simp [Value.kind]) (by simp [Value.kind]))

theorem kind_of_checkKey {first : Option Kind} {key : Value} (h : checkKey f first key = .ok ()) :
    key.kind = .number ∨ key.kind = .string := by
  cases key with
  | int | float => exact .inl rfl
  | string => exact .inr rfl
  | _ => cases h

theorem failsOnly_ofItems (hf : f.ordersByKey = true) (hrun : ∀ v, FailsOnly P (run v))
    (hP : ∀ x, f.Raises count x → P x) (items : List Value) {first : Option Kind}
    (hfirst : ∀ k, first = some k → k = .number ∨ k = .string) :
    FailsOnly P (ofItems f run first items) := by
  induction items generalizing first with
  | nil => exact .ok []
  | cons item items ih =>
    rw [ofItems]
    refine (hrun item).bind fun key _ ↦ ?_
    refine ((failsOnly_checkKey hf hfirst key).mono hP).bind fun _ hkey ↦ ?_
    refine (ih fun k hk ↦ ?_).bind fun _ _ ↦ .ok _
    cases first with
    | none =>
      cases hk
      exact kind_of_checkKey hkey
    | some k' => exact hfirst k hk

end Keyed

def Arg.FailsOnly (P : EvalError → Prop) : Arg → Prop
  | value _ => True
  | reference run => ∀ v, Eval.FailsOnly P (run v)

theorem ArgType.accepts_reference {a : Arg} (h : [reference].any (·.accepts a) = true) :
    ∃ run, a = .reference run := by
  cases a with
  | value v => cases h
  | reference run => exact ⟨run, rfl⟩

namespace Builtin

variable {f : Builtin} {args : List Arg} {P : EvalError → Prop}

/-- A call fails when its arguments are not admitted, when keys have no order, or when a reference
fails on an item. -/
theorem failsOnly_call (hargs : ∀ a ∈ args, a.FailsOnly P)
    (hP : ∀ x, f.Raises args.length x → P x) : FailsOnly P (f.call args) := by
  rw [call]
  split
  · next hcheck => exact .error (hP _ (raises_of_check hcheck))
  · next hcheck =>
    cases f with
    | map =>
      obtain ⟨a, b, rfl, ha, -⟩ := Signature.check_fixed_two hcheck
      obtain ⟨run, rfl⟩ := ArgType.accepts_reference ha
      exact (FailsOnly.mapM (hargs _ List.mem_cons_self) _).map
    | maxBy | minBy | sortBy =>
      obtain ⟨a, b, rfl, -, hb⟩ := Signature.check_fixed_two hcheck
      obtain ⟨run, rfl⟩ := ArgType.accepts_reference hb
      have hrun : (Arg.reference run).FailsOnly P :=
        hargs _ (List.mem_cons_of_mem _ List.mem_cons_self)
      refine FailsOnly.map (Keyed.failsOnly_ofItems rfl hrun hP _ ?_)
      simp
    | _ => exact .ok _

end Builtin

end PathQuery
