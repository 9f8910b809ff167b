import PathQuery.Proofs.Accessor.Meaning
import PathQuery.Proofs.Eval.Compositional
import PathQuery.Proofs.Function.Transfer

namespace PathQuery

open Value

/-- The optional document stands for the value; both an absent one and null stand for null. -/
def Means (o : Option Json) (v : Value) : Prop := o.getD .null = v.toJson

namespace Means

variable {o p : Option Json} {v w : Value}

theorem some (v : Value) : Means (some v.toJson) v := rfl

theorem none : Means none .null := rfl

theorem eq_of_isNull (h : Means o v) (hv : v.isNull = true) : o = .none ∨ o = .some .null := by
  cases v with
  | null =>
    cases o with
    | none => exact .inl rfl
    | some j => exact .inr (congrArg Option.some h)
  | _ => cases hv

theorem eq_some (h : Means o v) (hv : v.Survives) (hnull : v.isNull = false) :
    o = .some v.toJson := by
  cases o with
  | none =>
    have hjson : Json.null = v.toJson := h
    rw [Survives, ← hjson, hnull] at hv
    cases hv
  | some j => exact congrArg Option.some h

theorem toValue_eq (h : Means o v) : Support.toValue o = v.throughJson := by
  rw [throughJson, ← show o.getD .null = v.toJson from h, Support.toValue]
  cases o <;> rfl

theorem ofValue (h : w.toJson = v.toJson) : Means (Support.ofValue w) v := by
  rw [Means, ← h, Support.ofValue]
  cases w <;> rfl

theorem array {os : List (Option Json)} {vs : List Value} (h : List.Forall₂ Means os vs) :
    Means (.some (.array (os.map (·.getD .null)))) (.array vs) := by
  have hjsons : os.map (·.getD .null) = vs.map toJson := by
    induction h with
    | nil => rfl
    | cons h _ ih => rw [List.map_cons, List.map_cons, ih, h]
  rw [hjsons, Means, toJson_array]
  rfl

theorem map_toValue {os : List (Option Json)} {vs : List Value} (h : List.Forall₂ Means os vs) :
    (os.map fun o ↦ Arg.value (Support.toValue o)) = (vs.map throughJson).map .value := by
  induction h with
  | nil => rfl
  | cons h _ ih => rw [List.map_cons, List.map_cons, List.map_cons, ih, h.toValue_eq]

theorem isTruthyValue_toJson (hv : v.Survives) :
    Support.isTruthyValue v.toJson = v.isTruthy := by
  cases v with
  | float x =>
    rw [hv.toJson_float]
    rfl
  | array items =>
    rw [toJson_array, Support.isTruthyValue, List.isEmpty_map]
    rfl
  | object entries =>
    rw [toJson_object, Support.isTruthyValue, List.isEmpty_map, Entries.isEmpty_sortPairs]
    rfl
  | _ => rfl

theorem isTruthy_eq (h : Means o v) (hv : v.Survives) : Support.isTruthy o = v.isTruthy := by
  cases hnull : v.isNull with
  | true =>
    cases v with
    | null => obtain rfl | rfl := h.eq_of_isNull rfl <;> rfl
    | _ => cases hnull
  | false =>
    rw [h.eq_some hv hnull]
    exact isTruthyValue_toJson hv

theorem filter_notNull (h : Means o v) (hv : v.Survives) :
    o.filter Code.notNull = if v.isNull then .none else .some v.toJson := by
  cases hnull : v.isNull with
  | true => obtain rfl | rfl := h.eq_of_isNull hnull <;> rfl
  | false =>
    rw [h.eq_some hv hnull, Option.filter, Code.notNull, hv, hnull]
    rfl

theorem filter_truthy (h : Means o v) (hv : v.Survives) :
    o.filter Support.isTruthyValue = if v.isTruthy then .some v.toJson else .none := by
  have htruthy := h.isTruthy_eq hv
  cases o with
  | none =>
    rw [← htruthy]
    rfl
  | some j =>
    rw [← htruthy, ← show j = v.toJson from h]
    rfl

theorem flatten (h : Means o v) : Means (Support.flatten o) v.flatten := by
  refine ofValue ?_
  rw [h.toValue_eq]
  cases v with
  | array items =>
    refine (congrArg toJson ?_).trans (toJson_throughJson (Value.flatten (.array items)))
    rw [throughJson_array, Value.flatten, Value.flatten, throughJson_array, List.flatMap_map,
      List.map_flatMap]
    refine congrArg Value.array (List.flatMap_congr fun c _ ↦ ?_)
    rw [array?_throughJson]
    cases c.array? <;> rfl
  | object entries => rw [throughJson_object]; rfl
  | float x =>
    by_cases hx : x.isFinite = true
    · rw [throughJson_float hx]
    · rw [throughJson, toJson, if_neg hx]
      rfl
  | int n => rw [throughJson_int]
  | _ => rfl

theorem objectValues (h : Means o v) (horder : v.Ascending) :
    Means (Support.objectValues o) v.values := by
  cases v with
  | object entries =>
    rw [h.eq_some rfl rfl, toJson_object, Entries.Ascending.sortPairs_eq horder, Means,
      Value.values, toJson_array, List.map_map]
    exact congrArg Json.array (List.map_map ..)
  | float x =>
    cases o with
    | none => rfl
    | some j =>
      rw [show j = (float x).toJson from h, toJson]
      split <;> rfl
  | null => obtain rfl | rfl := h.eq_of_isNull rfl <;> rfl
  | array items =>
    rw [h.eq_some rfl rfl, toJson_array]
    rfl
  | _ => rw [h.eq_some rfl rfl]; rfl

theorem compare (op : Comparator) (h : Means o v) (h' : Means p w) (hv : v.Finite) (hw : w.Finite)
    (hv' : v.UniqueKeys) (hw' : w.UniqueKeys) :
    Means (Support.compare op.text o p) (op.apply v w) := by
  have hop : Comparator.ofText? op.text = .some op := by cases op <;> rfl
  rw [Support.compare, hop]
  refine ofValue ?_
  rw [h.toValue_eq, h'.toValue_eq,
    (reordered_throughJson hv hv').apply_eq op (reordered_throughJson hw hw')]

theorem field (name : String) (hv : v.UniqueKeys) :
    Means (DataNode.field? v.toJson name) ((v.entries.lookup name).getD .null) := by
  cases v with
  | object entries =>
    have hlookup : DataNode.field? (object entries).toJson name =
        (entries.lookup name).map Value.toJson := by
      rw [toJson_object, ← Entries.lookup_reverse hv.nodup, ← Entries.lookup_sortPairs,
        ← Entries.lookup_map]
      rfl
    rw [hlookup, Value.entries]
    cases entries.lookup name <;> rfl
  | float x =>
    rw [toJson]
    split <;> rfl
  | _ => rfl

theorem array?_toJson (v : Value) :
    v.toJson.array? = v.array?.map fun items ↦ items.map Value.toJson := by
  cases v with
  | array => rw [toJson_array]; rfl
  | object => rw [toJson_object]; rfl
  | float x =>
    rw [toJson]
    split <;> rfl
  | _ => rfl

theorem index (i : Int64) (v : Value) :
    Means (Support.index v.toJson i) ((v.array?.bind fun items ↦
      (Slice.resolveIndex items.length i).bind (items[·]?)).getD .null) := by
  rw [Support.index, array?_toJson]
  cases v with
  | array items =>
    change Means (do
      let n ← Slice.resolveIndex (items.map Value.toJson).length i
      let item ← (items.map Value.toJson)[n]?
      if item.isNull then .none else .some item) _
    rw [List.length_map, array?, Option.bind_some]
    cases Slice.resolveIndex items.length i with
    | none => rfl
    | some n =>
      change Means (do
        let item ← (items.map Value.toJson)[n]?
        if item.isNull then .none else .some item) (items[n]?.getD .null)
      rw [List.getElem?_map]
      cases items[n]? with
      | none => rfl
      | some w =>
        change Means (if w.toJson.isNull then .none else .some w.toJson) w
        split
        · next hnull =>
          cases hj : w.toJson with
          | null => exact hj.symm
          | _ => rw [hj] at hnull; cases hnull
        · exact .some w
  | _ => rfl

theorem slice (start stop step : Option Int64) (v : Value) :
    Means (Support.slice v.toJson start stop step) ((v.array?.map fun items ↦
      Value.array ((Slice.positions items.length start stop step).filterMap (items[·]?))).getD
        .null) := by
  rw [Support.slice, array?_toJson]
  cases v with
  | array items =>
    change Json.array _ = Value.toJson (Value.array _)
    rw [toJson_array, List.length_map, List.map_filterMap]
    refine congrArg Json.array (congrArg (List.filterMap · _) (funext fun n ↦ ?_))
    exact List.getElem?_map ..
  | _ => rfl

end Means

end PathQuery
