import PathQuery.Proofs.Function.Reordered

namespace PathQuery

variable {f : Builtin} {v : Value} {vs : List Value}

namespace Value

def Ascending : Value → Prop
  | object entries => Entries.Ascending entries
  | _ => True

inductive Sorted : Value → Prop
  | scalar {v : Value} : v.kind ≠ .array → v.kind ≠ .object → Sorted v
  | array {items : List Value} : (∀ v ∈ items, Sorted v) → Sorted (array items)
  | object {entries : List (String × Value)} :
      Entries.Ascending entries → (∀ e ∈ entries, Sorted e.2) → Sorted (object entries)

theorem Finite.throughJson_of_sorted (h : v.Sorted) (hv : v.Finite) : v.throughJson = v := by
  induction h with
  | scalar harray hobject => exact hv.throughJson_eq_self harray hobject
  | array _ ih =>
    rw [throughJson_array]
    exact congrArg Value.array ((List.map_congr_left fun v hmem ↦ ih v hmem (hv.of_mem hmem)).trans
      (List.map_id _))
  | object horder _ ih =>
    rw [throughJson_object, horder.sortPairs_eq]
    exact congrArg Value.object ((List.map_congr_left fun e he ↦
      congrArg (Prod.mk e.1) (ih e he (hv.of_entry he))).trans (List.map_id _))

end Value

open Value

namespace Builtin

/-- The function reads no order of keys from the values, or they stand in ascending order. -/
def OrderKept : Builtin → List Value → Prop
  | keys, vs => ∀ v ∈ vs, v.Ascending
  | values, vs => ∀ v ∈ vs, v.Ascending
  | toText, vs => ∀ v ∈ vs, v.Sorted
  | _, _ => True

theorem keys_throughJson (h : v.Ascending) (hv : v.Finite) : v.throughJson.keys = v.keys := by
  cases v with
  | object entries =>
    rw [throughJson_object, Entries.Ascending.sortPairs_eq h]
    exact congrArg Value.array (by rw [List.map_map]; rfl)
  | array items => rw [throughJson_array]; rfl
  | _ => rw [hv.throughJson_eq_self (by simp [kind]) (by simp [kind])]

theorem values_throughJson (h : v.Ascending) (hv : v.Finite) :
    v.throughJson.values.toJson = v.values.toJson := by
  cases v with
  | object entries =>
    rw [throughJson_object, Entries.Ascending.sortPairs_eq h, Value.values, Value.values,
      toJson_array, toJson_array, List.map_map, List.map_map, List.map_map]
    exact congrArg Json.array (List.map_congr_left fun e _ ↦ toJson_throughJson e.2)
  | array items => rw [throughJson_array]; rfl
  | _ => rw [hv.throughJson_eq_self (by simp [kind]) (by simp [kind])]

/-- A function that reads its first argument alone keeps what it does to it. -/
theorem run_value {g : Value → Value} (hrun : ∀ args, f.run args = .ok (g (args.value 0)))
    (hg : ∀ v ∈ vs, (g v.throughJson).toJson = (g v).toJson) (h : f.run ⟨vs.map .value⟩ = .ok v) :
    ∃ w, f.run ⟨(vs.map throughJson).map .value⟩ = .ok w ∧ w.toJson = v.toJson := by
  rw [hrun] at h
  cases h
  refine ⟨_, hrun _, ?_⟩
  cases vs with
  | nil => rfl
  | cons v vs => exact hg v List.mem_cons_self

/-- What a call gives does not change on the way through JSON, if no order of keys is read. -/
theorem call_throughJson (hvs : ∀ v ∈ vs, v.Finite) (hvs' : ∀ v ∈ vs, v.UniqueKeys)
    (horder : f.OrderKept vs) (h : f.call (vs.map .value) = .ok v) :
    ∃ w, f.call ((vs.map throughJson).map .value) = .ok w ∧ w.toJson = v.toJson := by
  have hargs : List.Forall₂ Arg.Reordered (vs.map .value) ((vs.map throughJson).map .value) := by
    rw [List.map_map]
    refine List.forall₂_map_left_iff.2 (List.forall₂_map_right_iff.2 (List.forall₂_same.2 ?_))
    exact fun v hv ↦ .value (reordered_throughJson (hvs v hv) (hvs' v hv))
  cases hf : f.readsOrder with
  | false =>
    obtain ⟨w, hw, hvw⟩ := (alike_call hf hargs).exists_ok h
    exact ⟨w, hw, hvw.toJson_eq.symm⟩
  | true =>
    rw [call, ← f.signature.check_eq hargs]
    rw [call] at h
    split at h
    · cases h
    · cases f with
      | keys =>
        exact run_value (fun _ ↦ rfl)
          (fun v hv ↦ congrArg toJson (keys_throughJson (horder v hv) (hvs v hv))) h
      | toText =>
        refine run_value (fun _ ↦ rfl) (fun v hv ↦ ?_) h
        rw [Finite.throughJson_of_sorted (horder v hv) (hvs v hv)]
      | values =>
        exact run_value (fun _ ↦ rfl) (fun v hv ↦ values_throughJson (horder v hv) (hvs v hv)) h
      | _ => cases hf

end Builtin

end PathQuery
