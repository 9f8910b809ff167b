import PathQuery.Function.Call
import PathQuery.Proofs.Value.Transfer

namespace PathQuery

open Value

variable {f : Builtin} {v : Value} {vs : List Value}

/-- A computation with a second step gives a result just if both steps do. -/
theorem Eval.bind_eq_ok {ε α β : Type} {m : Except ε α} {f : α → Except ε β} {b : β} :
    (m >>= f) = .ok b ↔ ∃ a, m = .ok a ∧ f a = .ok b := by
  cases m with
  | error e => exact iff_of_false nofun nofun
  | ok a =>
    constructor
    · intro h
      exact ⟨a, rfl, h⟩
    · rintro ⟨a', ha, h⟩
      cases ha
      exact h

namespace Value

theorem uniqueKeys_absolute (v : Value) : v.absolute.UniqueKeys := by
  cases v with
  | int n =>
    rw [absolute]
    split
    · exact .float _
    · exact .int _
  | float x => exact .float _
  | _ => exact .null

theorem uniqueKeys_rounded (round : Number.Binary → Int) (v : Value) :
    (v.rounded round).UniqueKeys := by
  cases v with
  | int n => exact .int n
  | float x =>
    rw [rounded]
    split
    · exact .int _
    · exact .float x
  | _ => exact .null

theorem uniqueKeys_sum (items : List Value) : (sum items).UniqueKeys := by
  rw [sum]
  split
  · exact .int _
  · split
    · exact .float _
    · exact .float _

theorem uniqueKeys_average (items : List Value) : (average items).UniqueKeys := by
  rw [average]
  split
  · exact .null
  · split
    · exact .float _
    · exact .float _

theorem uniqueKeys_toNumber (v : Value) : v.toNumber.UniqueKeys := by
  cases v with
  | int n => exact .int n
  | float x => exact .float x
  | string s =>
    rw [toNumber]
    split
    · exact .int _
    · split
      · split
        · exact .float _
        · exact .null
      · exact .null
  | _ => exact .null

theorem uniqueKeys_keys (v : Value) : v.keys.UniqueKeys := by
  cases v with
  | object entries =>
    refine .array fun w hw ↦ ?_
    obtain ⟨e, _, rfl⟩ := List.mem_map.1 hw
    exact .string _
  | _ => exact .null

theorem uniqueKeys_length (v : Value) : v.length.UniqueKeys := by
  cases v <;> first | exact .int _ | exact .null

theorem UniqueKeys.values (h : v.UniqueKeys) : v.values.UniqueKeys := by
  cases v with
  | object entries =>
    refine .array fun w hw ↦ ?_
    obtain ⟨e, he, rfl⟩ := List.mem_map.1 hw
    exact h.of_entry he
  | _ => exact .null

theorem uniqueKeys_ofPairs {pairs : List (String × Value)} (h : ∀ e ∈ pairs, e.2.UniqueKeys) :
    (ofPairs pairs).UniqueKeys :=
  .object (Entries.nodup_keys_ofPairs pairs) fun e he ↦ h e (Entries.mem_of_mem_ofPairs he)

theorem uniqueKeys_merge (h : ∀ v ∈ vs, v.UniqueKeys) : (merge vs).UniqueKeys := by
  refine uniqueKeys_ofPairs fun e he ↦ ?_
  obtain ⟨v, hv, he⟩ := List.mem_flatMap.1 he
  cases v with
  | object entries => exact (h _ hv).of_entry he
  | _ => cases he

theorem uniqueKeys_firstNotNull (h : ∀ v ∈ vs, v.UniqueKeys) : (firstNotNull vs).UniqueKeys := by
  rw [firstNotNull]
  cases hv : vs.find? fun v ↦ !v.isNull with
  | none => exact .null
  | some v => exact h v (List.mem_of_find?_eq_some hv)

theorem UniqueKeys.reverse (h : v.UniqueKeys) : v.reverse.UniqueKeys := by
  cases v with
  | array items => exact .array fun w hw ↦ h.of_mem (List.mem_reverse.1 hw)
  | string s => exact .string _
  | _ => exact .null

theorem toArray_of_kind (h : v.kind ≠ .array) : v.toArray = .array [v] := by
  cases v with
  | array items => exact absurd rfl h
  | _ => rfl

theorem UniqueKeys.toArray (h : v.UniqueKeys) : v.toArray.UniqueKeys := by
  by_cases hk : v.kind = .array
  · cases v with
    | array items => exact h
    | _ => cases hk
  · rw [toArray_of_kind hk]
    exact .array fun w hw ↦ List.mem_singleton.1 hw ▸ h

end Value

namespace Keyed

theorem mem_of_foldl {better : Keyed → Keyed → Bool} {items : List Keyed} {best : Option Keyed}
    {k : Keyed} (h : items.foldl (fun best k ↦
      match best with
      | none => some k
      | some b => if better k b then some k else some b) best = some k) :
    best = some k ∨ k ∈ items := by
  induction items generalizing best with
  | nil => exact .inl h
  | cons k' items ih =>
    obtain hbest | hmem := ih h
    · cases best with
      | none => exact .inr (Option.some.inj hbest ▸ List.mem_cons_self)
      | some b =>
        dsimp only at hbest
        split at hbest
        · exact .inr (Option.some.inj hbest ▸ List.mem_cons_self)
        · exact .inl hbest
    · exact .inr (List.mem_cons_of_mem _ hmem)

theorem extreme_mem (want : Ordering) (items : List Keyed) :
    extreme want items = .null ∨ ∃ k ∈ items, extreme want items = k.item := by
  unfold extreme
  dsimp only
  cases hbest : items.foldl _ none with
  | none => exact .inl rfl
  | some k => exact .inr ⟨k, (mem_of_foldl hbest).resolve_left (by simp), rfl⟩

theorem mem_sort {items : List Keyed} (h : v ∈ sort items) : ∃ k ∈ items, v = k.item := by
  obtain ⟨k, hk, rfl⟩ := List.mem_map.1 h
  exact ⟨k, (List.mergeSort_perm items notAfter).mem_iff.1 hk, rfl⟩

end Keyed

namespace Keyed

theorem item_mem_of_ofItems {run : Reference} {first : Option Kind} {items : List Value}
    {ks : List Keyed} (h : ofItems f run first items = .ok ks) : ∀ k ∈ ks, k.item ∈ items := by
  induction items generalizing first ks with
  | nil =>
    cases h
    nofun
  | cons item items ih =>
    rw [ofItems] at h
    obtain ⟨key, -, h⟩ := Eval.bind_eq_ok.1 h
    obtain ⟨-, -, h⟩ := Eval.bind_eq_ok.1 h
    obtain ⟨rest, hrest, h⟩ := Eval.bind_eq_ok.1 h
    cases h
    exact List.forall_mem_cons.2
      ⟨List.mem_cons_self, fun k hk ↦ List.mem_cons_of_mem _ (ih hrest k hk)⟩

end Keyed

def Arg.UniqueKeys : Arg → Prop
  | value v => v.UniqueKeys
  | reference run => ∀ v w : Value, v.UniqueKeys → run v = .ok w → w.UniqueKeys

namespace Args

variable {args : List Arg}

theorem uniqueKeys_value (h : ∀ a ∈ args, a.UniqueKeys) (i : Nat) :
    ((Args.mk args).value i).UniqueKeys := by
  rw [Args.value]
  split
  · next v hv => exact h _ (List.mem_of_getElem? hv)
  · exact .null

theorem uniqueKeys_array (h : ∀ a ∈ args, a.UniqueKeys) (i : Nat) :
    ∀ v ∈ (Args.mk args).array i, v.UniqueKeys := by
  have hi := uniqueKeys_value h i
  intro v hv
  rw [Args.array] at hv
  cases ha : (Args.mk args).value i with
  | array items =>
    rw [ha] at hv hi
    exact hi.of_mem hv
  | _ => rw [ha] at hv; cases hv

theorem uniqueKeys_values (h : ∀ a ∈ args, a.UniqueKeys) :
    ∀ v ∈ (Args.mk args).values, v.UniqueKeys := by
  intro v hv
  obtain ⟨a, ha, hv⟩ := List.mem_filterMap.1 hv
  cases a with
  | value w =>
    cases hv
    exact h _ ha
  | reference => cases hv

theorem uniqueKeys_reference (h : ∀ a ∈ args, a.UniqueKeys) {i : Nat} {run : Reference}
    (hrun : (Args.mk args).reference f i = .ok run) : (Arg.reference run).UniqueKeys := by
  rw [Args.reference] at hrun
  split at hrun
  · next hi =>
    cases hrun
    exact h _ (List.mem_of_getElem? hi)
  · cases hrun

end Args

namespace Builtin

theorem mem_of_mapM {run : Reference} {items ws : List Value} (h : items.mapM run = .ok ws) :
    ∀ w ∈ ws, ∃ v ∈ items, run v = .ok w := by
  induction items generalizing ws with
  | nil =>
    cases h
    nofun
  | cons v items ih =>
    rw [List.mapM_cons] at h
    obtain ⟨w, hw, h⟩ := Eval.bind_eq_ok.1 h
    obtain ⟨rest, hrest, h⟩ := Eval.bind_eq_ok.1 h
    cases h
    refine List.forall_mem_cons.2 ⟨⟨v, List.mem_cons_self, hw⟩, fun w hw ↦ ?_⟩
    obtain ⟨v, hv, hw⟩ := ih hrest w hw
    exact ⟨v, List.mem_cons_of_mem _ hv, hw⟩

variable {args : List Arg}

theorem uniqueKeys_extreme {ks : List Keyed} (h : ∀ k ∈ ks, k.item.UniqueKeys) (want : Ordering) :
    (Keyed.extreme want ks).UniqueKeys := by
  obtain hnull | ⟨k, hk, hitem⟩ := Keyed.extreme_mem want ks
  · rw [hnull]
    exact .null
  · rw [hitem]
    exact h k hk

theorem uniqueKeys_sort {ks : List Keyed} (h : ∀ k ∈ ks, k.item.UniqueKeys) :
    (Value.array (Keyed.sort ks)).UniqueKeys := by
  refine .array fun w hw ↦ ?_
  obtain ⟨k, hk, rfl⟩ := Keyed.mem_sort hw
  exact h k hk

/-- A function makes no object with a key twice. -/
theorem uniqueKeys_call (hargs : ∀ a ∈ args, a.UniqueKeys) (h : f.call args = .ok v) :
    v.UniqueKeys := by
  rw [call] at h
  split at h
  · cases h
  · have harg := Args.uniqueKeys_value hargs
    have hitems : ∀ k ∈ ((Args.mk args).array 0).map Keyed.ofItem, k.item.UniqueKeys := by
      intro k hk
      obtain ⟨w, hw, rfl⟩ := List.mem_map.1 hk
      exact Args.uniqueKeys_array hargs 0 w hw
    have hkeyed {run : Reference} {ks : List Keyed}
        (hks : Keyed.ofItems f run none ((Args.mk args).array 0) = .ok ks) :
        ∀ k ∈ ks, k.item.UniqueKeys :=
      fun k hk ↦ Args.uniqueKeys_array hargs 0 _ (Keyed.item_mem_of_ofItems hks k hk)
    cases f with
    | map =>
      obtain ⟨run, hrun, h⟩ := Eval.bind_eq_ok.1 h
      obtain ⟨ws, hws, h⟩ := Eval.bind_eq_ok.1 h
      cases h
      refine .array fun w hw ↦ ?_
      obtain ⟨u, hu, hw⟩ := mem_of_mapM hws w hw
      exact Args.uniqueKeys_reference hargs hrun u w (Args.uniqueKeys_array hargs 1 u hu) hw
    | maxBy | minBy =>
      obtain ⟨run, -, h⟩ := Eval.bind_eq_ok.1 h
      obtain ⟨ks, hks, h⟩ := Eval.bind_eq_ok.1 h
      cases h
      exact uniqueKeys_extreme (hkeyed hks) _
    | sortBy =>
      obtain ⟨run, -, h⟩ := Eval.bind_eq_ok.1 h
      obtain ⟨ks, hks, h⟩ := Eval.bind_eq_ok.1 h
      cases h
      exact uniqueKeys_sort (hkeyed hks)
    | abs => cases h; exact uniqueKeys_absolute _
    | avg => cases h; exact uniqueKeys_average _
    | ceil | floor => cases h; exact uniqueKeys_rounded _ _
    | contains | endsWith | startsWith => cases h; exact .bool _
    | join | type => cases h; exact .string _
    | keys => cases h; exact uniqueKeys_keys _
    | length => cases h; exact uniqueKeys_length _
    | max | min => cases h; exact uniqueKeys_extreme hitems _
    | merge => cases h; exact uniqueKeys_merge (Args.uniqueKeys_values hargs)
    | notNull => cases h; exact uniqueKeys_firstNotNull (Args.uniqueKeys_values hargs)
    | reverse => cases h; exact (harg 0).reverse
    | sort => cases h; exact uniqueKeys_sort hitems
    | sum => cases h; exact uniqueKeys_sum _
    | toArray => cases h; exact (harg 0).toArray
    | toNumber => cases h; exact uniqueKeys_toNumber _
    | toText =>
      cases h
      cases (Args.mk args).value 0 <;> exact .string _
    | values => cases h; exact (harg 0).values

end Builtin

end PathQuery
