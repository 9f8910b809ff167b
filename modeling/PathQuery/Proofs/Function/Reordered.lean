import PathQuery.Proofs.Function.Signature
import PathQuery.Proofs.Function.UniqueKeys
import PathQuery.Proofs.Value.Reordered

namespace PathQuery

namespace Eval

variable {α β γ δ : Type} {R : α → β → Prop} {S : γ → δ → Prop} {m : Except EvalError α}
  {m' : Except EvalError β} {f : α → Except EvalError γ} {f' : β → Except EvalError δ}

inductive Alike (R : α → β → Prop) : Except EvalError α → Except EvalError β → Prop
  | ok {a : α} {b : β} : R a b → Alike R (.ok a) (.ok b)
  | error (x : EvalError) : Alike R (.error x) (.error x)

namespace Alike

theorem bind (hm : Alike R m m') (hf : ∀ a b, R a b → Alike S (f a) (f' b)) :
    Alike S (m >>= f) (m' >>= f') := by
  cases hm with
  | error x => exact .error x
  | ok h => exact hf _ _ h

theorem map {g : α → γ} {g' : β → δ} (hm : Alike R m m') (hg : ∀ a b, R a b → S (g a) (g' b)) :
    Alike S (do return g (← m)) (do return g' (← m')) :=
  hm.bind fun a b h ↦ .ok (hg a b h)

theorem exists_ok {a : α} (hm : Alike R m m') (h : m = .ok a) : ∃ b, m' = .ok b ∧ R a b := by
  cases hm with
  | error x => cases h
  | ok hab => exact ⟨_, rfl, Except.ok.inj h ▸ hab⟩

theorem mapM {as : List α} {bs : List β} (h : List.Forall₂ R as bs)
    (hf : ∀ a b, R a b → Alike S (f a) (f' b)) :
    Alike (List.Forall₂ S) (as.mapM f) (bs.mapM f') := by
  induction h with
  | nil => exact .ok .nil
  | cons hab _ ih =>
    rw [List.mapM_cons, List.mapM_cons]
    exact (hf _ _ hab).bind fun _ _ hc ↦ ih.map fun _ _ hcs ↦ .cons hc hcs

end Alike

end Eval

open Eval Value

/-- Values that differ in the order of entries alone, or references that make of such values the
same error or values that again differ in it alone. -/
inductive Arg.Reordered : Arg → Arg → Prop
  | value {v w : Value} : v.Reordered w → Reordered (value v) (value w)
  | reference {run run' : Reference} :
    (∀ v w, v.Reordered w → Alike Value.Reordered (run v) (run' w)) →
    Reordered (reference run) (reference run')

variable {a b : Arg} {args args' : List Arg} {v w v' w' : Value} {as bs : List Value}
  {run run' : Reference}

theorem Value.all_eq_of_kind {p : Value → Bool} (hp : ∀ v w : Value, v.kind = w.kind → p v = p w)
    (h : List.Forall₂ Value.Reordered as bs) : as.all p = bs.all p := by
  induction h with
  | nil => rfl
  | cons hab _ ih => rw [List.all_cons, List.all_cons, hp _ _ hab.kind_eq, ih]

namespace ArgType

theorem acceptsValue_eq (t : ArgType) (h : v.Reordered w) :
    t.acceptsValue v = t.acceptsValue w := by
  cases t with
  | number => exact isNumber_eq_of_kind h.kind_eq
  | string => exact isString_eq_of_kind h.kind_eq
  | array => rw [acceptsValue, acceptsValue, h.kind_eq]
  | object => rw [acceptsValue, acceptsValue, h.kind_eq]
  | numberArray =>
    cases h with
    | array h => exact all_eq_of_kind (fun _ _ ↦ isNumber_eq_of_kind) h
    | _ => rfl
  | stringArray =>
    cases h with
    | array h => exact all_eq_of_kind (fun _ _ ↦ isString_eq_of_kind) h
    | _ => rfl
  | any => rfl
  | reference => rfl

theorem accepts_eq (t : ArgType) (h : a.Reordered b) : t.accepts a = t.accepts b := by
  cases h with
  | value h => exact acceptsValue_eq t h
  | reference => rfl

theorem eq_of_all {p : Value → Bool} (hp : ∀ a b : Value, a.Reordered b → p a = true → a = b)
    (h : List.Forall₂ Value.Reordered as bs) (hall : as.all p = true) :
    as = bs := by
  induction h with
  | nil => rfl
  | cons hab _ ih =>
    rw [List.all_cons, Bool.and_eq_true] at hall
    rw [hp _ _ hab hall.1, ih hall.2]

theorem eq_of_isPlain {t : ArgType} (ht : t.isPlain = true) (haccept : t.accepts a = true)
    (h : a.Reordered b) : a = b := by
  have hnumber (v w : Value) (h : v.Reordered w) (hv : v.isNumber = true) : v = w := by
    cases h <;> first | rfl | cases hv
  have hstring (v w : Value) (h : v.Reordered w) (hv : v.isString = true) : v = w := by
    cases h <;> first | rfl | cases hv
  cases h with
  | reference =>
    cases t with
    | number | string | numberArray | stringArray => cases haccept
    | _ => cases ht
  | value h =>
    refine congrArg Arg.value ?_
    cases t with
    | number => exact hnumber _ _ h haccept
    | string => exact hstring _ _ h haccept
    | numberArray =>
      cases h with
      | array h => exact congrArg Value.array (eq_of_all hnumber h haccept)
      | _ => cases haccept
    | stringArray =>
      cases h with
      | array h => exact congrArg Value.array (eq_of_all hstring h haccept)
      | _ => cases haccept
    | _ => cases ht

end ArgType

theorem Arg.Reordered.typeName_eq (h : a.Reordered b) : a.typeName = b.typeName := by
  cases h with
  | value h => exact congrArg Kind.name h.kind_eq
  | reference => rfl

namespace Signature

theorem checkTypes_eq (s : Signature) (i : Nat) (h : List.Forall₂ Arg.Reordered args args') :
    s.checkTypes i args = s.checkTypes i args' := by
  induction h generalizing i with
  | nil => rfl
  | @cons a b as bs hab _ ih =>
    have haccepts : (fun t : ArgType ↦ t.accepts a) = (·.accepts b) :=
      funext fun t ↦ t.accepts_eq hab
    rw [checkTypes, checkTypes, haccepts, ih, hab.typeName_eq]

theorem check_eq (s : Signature) (h : List.Forall₂ Arg.Reordered args args') :
    s.check args = s.check args' := by
  rw [check, check, h.length_eq, checkTypes_eq s 0 h]

theorem eq_of_isPlain {s : Signature} (hs : (s.params.all (·.all ArgType.isPlain)) = true)
    (hcheck : s.check args = .ok ()) (h : List.Forall₂ Arg.Reordered args args') :
    args = args' := by
  refine List.ext_getElem h.length_eq fun i hi hi' ↦ ?_
  obtain ⟨t, ht, haccept⟩ := exists_isPlain hs hcheck i hi
  exact ArgType.eq_of_isPlain ht haccept (h.get hi hi')

end Signature

namespace Args

variable (h : List.Forall₂ Arg.Reordered args args')
include h

theorem reordered_value (i : Nat) :
    ((Args.mk args).value i).Reordered ((Args.mk args').value i) := by
  have hi := forall₂_getElem? h i
  rw [value, value]
  dsimp only
  generalize args[i]? = o at hi
  generalize args'[i]? = o' at hi
  cases hi with
  | none => exact .null
  | some hab =>
    cases hab with
    | value h => exact h
    | reference => exact .null

theorem reordered_array (i : Nat) :
    List.Forall₂ Value.Reordered ((Args.mk args).array i) ((Args.mk args').array i) := by
  have hi := reordered_value h i
  unfold array
  generalize (Args.mk args).value i = v at hi ⊢
  generalize (Args.mk args').value i = w at hi ⊢
  cases hi with
  | array h => exact h
  | _ => exact .nil

theorem reordered_values :
    List.Forall₂ Value.Reordered (Args.mk args).values (Args.mk args').values := by
  refine List.rel_filterMap (fun a b hab ↦ ?_) h
  cases hab with
  | value h => exact .some h
  | reference => exact .none

theorem alike_reference (f : Builtin) (i : Nat) :
    Alike (fun run run' ↦ ∀ v w : Value, v.Reordered w → Alike Value.Reordered (run v) (run' w))
      ((Args.mk args).reference f i) ((Args.mk args').reference f i) := by
  have hi := forall₂_getElem? h i
  rw [reference, reference]
  dsimp only
  generalize args[i]? = o at hi
  generalize args'[i]? = o' at hi
  cases hi with
  | none => exact .error _
  | some hab =>
    cases hab with
    | value => exact .error _
    | reference h => exact .ok h

end Args

namespace Value.Reordered

theorem contains_eq (h : v.Reordered v') (h' : w.Reordered w') :
    v.contains w = v'.contains w' := by
  cases h with
  | @array as bs h =>
    change as.any (· == w) = bs.any (· == w')
    induction h with
    | nil => rfl
    | cons hab _ ih => rw [List.any_cons, List.any_cons, hab.beq_eq h', ih]
  | string => cases h' <;> rfl
  | _ => rfl

theorem valueLength_eq (h : v.Reordered w) : v.length = w.length := by
  cases v with
  | array as =>
    cases h with
    | array h => exact congrArg (fun n ↦ Value.int (Int64.ofNat n)) h.length_eq
  | object as =>
    cases w with
    | object bs => exact congrArg (fun n ↦ Value.int (Int64.ofNat n)) h.length_eq
    | _ => cases h
  | _ => rw [h.eq_of_kind (by simp [kind]) (by simp [kind])]

theorem reverse (h : v.Reordered w) : v.reverse.Reordered w.reverse := by
  cases h with
  | array h => exact .array (List.rel_reverse h)
  | string => exact .string _
  | _ => exact .null

theorem toArray (h : v.Reordered w) : v.toArray.Reordered w.toArray := by
  by_cases hv : v.kind = .array
  · cases h with
    | array h => exact .array h
    | _ => cases hv
  · rw [toArray_of_kind hv, toArray_of_kind (h.kind_eq ▸ hv)]
    exact .array (.cons h .nil)

theorem toNumber_eq (h : v.Reordered w) : v.toNumber = w.toNumber := by
  cases h <;> rfl

theorem lookup_reverse (h : v.Reordered w) (name : String) :
    Option.Rel Value.Reordered ((v.object?.getD []).reverse.lookup name)
      ((w.object?.getD []).reverse.lookup name) := by
  cases h with
  | @object as bs has hbs h =>
    change Option.Rel _ (as.reverse.lookup name) (bs.reverse.lookup name)
    rw [Entries.lookup_reverse has, Entries.lookup_reverse hbs]
    exact h name
  | _ => exact .none

/-- In whatever order the objects have their entries, the last of them that has a key gives its
value. -/
theorem merge (h : List.Forall₂ Value.Reordered as bs) :
    (Value.merge as).Reordered (Value.merge bs) := by
  refine .ofPairs fun name ↦ ?_
  induction h with
  | nil => exact .none
  | cons hab _ ih =>
    rw [List.flatMap_cons, List.flatMap_cons, List.reverse_append, List.reverse_append,
      List.lookup_append, List.lookup_append]
    exact rel_or ih (hab.lookup_reverse name)

theorem firstNotNull (h : List.Forall₂ Value.Reordered as bs) :
    (Value.firstNotNull as).Reordered (Value.firstNotNull bs) := by
  induction h with
  | nil => exact .null
  | @cons a b as bs hab _ ih =>
    rw [Value.firstNotNull, Value.firstNotNull, List.find?_cons, List.find?_cons, hab.isNull_eq]
    cases b.isNull with
    | true => exact ih
    | false => exact hab

end Value.Reordered

namespace Keyed

structure Reordered (k l : Keyed) : Prop where
  key : k.key.Reordered l.key
  item : k.item.Reordered l.item

variable {ks ls : List Keyed}

/-- Sorting that takes related elements for the same moves them to the same places. -/
theorem forall₂_mergeSort {α : Type} {R : α → α → Prop} {le : α → α → Bool} {as bs : List α}
    (hle : ∀ a b a' b', R a a' → R b b' → le a b = le a' b') (h : List.Forall₂ R as bs) :
    List.Forall₂ R (as.mergeSort le) (bs.mergeSort le) := by
  -- Both lists are sides of one list of pairs, which is sorted by its left sides.
  obtain ⟨hlength, hzip⟩ := List.forall₂_iff_zip.1 h
  let pairs := (as.zip bs).mergeSort fun p q ↦ le p.1 q.1
  have hpair : ∀ p ∈ as.zip bs, R p.1 p.2 := fun p hp ↦ hzip hp
  have has : pairs.map Prod.fst = as.mergeSort le := by
    rw [List.map_mergeSort (s := le) fun _ _ _ _ ↦ rfl, List.map_fst_zip hlength.le]
  have hbs : pairs.map Prod.snd = bs.mergeSort le := by
    rw [List.map_mergeSort (s := le) fun p hp q hq ↦ hle _ _ _ _ (hpair p hp) (hpair q hq),
      List.map_snd_zip hlength.ge]
  rw [← has, ← hbs]
  refine List.forall₂_map_left_iff.2 (List.forall₂_map_right_iff.2 (List.forall₂_same.2 ?_))
  exact fun p hp ↦ hpair p ((List.mergeSort_perm _ _).mem_iff.1 hp)

theorem reordered_sort (h : List.Forall₂ Reordered ks ls) :
    (Value.array (sort ks)).Reordered (.array (sort ls)) := by
  have hle (k l k' l' : Keyed) (hk : k.Reordered k') (hl : l.Reordered l') :
      notAfter k l = notAfter k' l' := by
    rw [notAfter, notAfter, hk.key.compare_eq hl.key]
  exact .array (List.rel_map (fun _ _ hkl ↦ hkl.item) (forall₂_mergeSort hle h))

theorem reordered_extreme (want : Ordering) (h : List.Forall₂ Reordered ks ls) :
    (extreme want ks).Reordered (extreme want ls) := by
  unfold extreme
  refine Value.Reordered.getD_null (rel_map (R := Reordered) (fun _ _ hkl ↦ hkl.item) ?_)
  refine List.rel_foldl (P := Option.Rel Reordered) (fun best best' hbest k l hkl ↦ ?_) .none h
  cases hbest with
  | none => exact .some hkl
  | some hbest =>
    dsimp only
    rw [hkl.key.compare_eq hbest.key]
    split
    · exact .some hkl
    · exact .some hbest

theorem checkKey_eq (f : Builtin) (first : Option Kind) (h : v.Reordered w) :
    checkKey f first v = checkKey f first w := by
  rw [checkKey.eq_def, checkKey.eq_def, isNumber_eq_of_kind h.kind_eq,
    isString_eq_of_kind h.kind_eq, h.kind_eq]

theorem alike_ofItems (f : Builtin) {run run' : Reference}
    (hrun : ∀ v w : Value, v.Reordered w → Alike Value.Reordered (run v) (run' w))
    (h : List.Forall₂ Value.Reordered as bs) (first : Option Kind) :
    Alike (List.Forall₂ Reordered) (ofItems f run first as) (ofItems f run' first bs) := by
  induction h generalizing first with
  | nil => exact .ok .nil
  | cons hab _ ih =>
    rw [ofItems, ofItems]
    refine (hrun _ _ hab).bind fun key key' hkey ↦ ?_
    rw [checkKey_eq f first hkey, hkey.kind_eq]
    cases checkKey f first key' with
    | error x => exact .error x
    | ok => exact (ih _).map fun _ _ hrest ↦ .cons ⟨hkey, hab⟩ hrest

end Keyed

theorem Arg.Reordered.uniqueKeys (h : a.Reordered b) : a.UniqueKeys := by
  cases h with
  | value h => exact h.uniqueKeys
  | reference h =>
    intro v w hv hw
    obtain ⟨w', -, hww⟩ := (h v v hv.reordered).exists_ok hw
    exact hww.uniqueKeys

namespace Builtin

variable {f : Builtin}

def readsOrder : Builtin → Bool
  | keys => true
  | toText => true
  | values => true
  | _ => false

/-- A function that does not read the order of entries hands it on at most. -/
theorem alike_call (hf : f.readsOrder = false) (h : List.Forall₂ Arg.Reordered args args') :
    Alike Value.Reordered (f.call args) (f.call args') := by
  cases hcheck : f.signature.check args with
  | error fault =>
    rw [call, call, ← Signature.check_eq _ h, hcheck]
    exact .error _
  | ok =>
    have hplain (hs : (f.signature.params.all (·.all ArgType.isPlain)) = true) :
        Alike Value.Reordered (f.call args) (f.call args') := by
      obtain rfl := Signature.eq_of_isPlain hs hcheck h
      have hunique : ∀ a ∈ args, a.UniqueKeys :=
        fun a ha ↦ (List.forall₂_same.1 h a ha).uniqueKeys
      cases hcall : f.call args with
      | error x => exact .error x
      | ok v => exact .ok (uniqueKeys_call hunique hcall).reordered
    rw [call, call, ← Signature.check_eq _ h, hcheck] at hplain ⊢
    have hitems := Args.reordered_array h
    have harg := Args.reordered_value h 0
    cases f with
    | keys | toText | values => cases hf
    | contains =>
      refine .ok ?_
      rw [harg.contains_eq (Args.reordered_value h 1)]
      exact .bool _
    | length =>
      refine .ok ?_
      rw [harg.valueLength_eq]
      exact (uniqueKeys_length _).reordered
    | map =>
      exact (Args.alike_reference h _ 0).bind fun run run' hrun ↦
        (Alike.mapM (hitems 1) hrun).map fun _ _ ↦ .array
    | maxBy | minBy =>
      exact (Args.alike_reference h _ 1).bind fun run run' hrun ↦
        (Keyed.alike_ofItems _ hrun (hitems 0) none).map fun _ _ ↦ Keyed.reordered_extreme _
    | sortBy =>
      exact (Args.alike_reference h _ 1).bind fun run run' hrun ↦
        (Keyed.alike_ofItems _ hrun (hitems 0) none).map fun _ _ ↦ Keyed.reordered_sort
    | merge => exact .ok (Reordered.merge (Args.reordered_values h))
    | notNull => exact .ok (Reordered.firstNotNull (Args.reordered_values h))
    | reverse => exact .ok harg.reverse
    | toArray => exact .ok harg.toArray
    | toNumber =>
      refine .ok ?_
      rw [harg.toNumber_eq]
      exact (uniqueKeys_toNumber _).reordered
    | type =>
      refine .ok ?_
      rw [harg.kind_eq]
      exact .string _
    | _ => exact hplain rfl

end Builtin

end PathQuery
