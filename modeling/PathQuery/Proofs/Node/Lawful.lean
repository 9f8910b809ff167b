import PathQuery.Node.Instances
import PathQuery.Proofs.Entries

namespace PathQuery

namespace DataNode

variable {N : Type} [DataNode N]

/-- The answers of a node fit its kind: those of an array describe one sequence, those of an object
one set of entries with different keys, and a scalar gives its content. -/
structure Consistent (n : N) : Prop where
  length_array : kind n = .array → length n = (items n).length
  item_array : kind n = .array → ∀ i, item? n i = (items n)[i]?
  keys_object : kind n = .object → (Entries.keys (entries n)).Nodup
  length_object : kind n = .object → length n = (entries n).length
  field_object : kind n = .object → ∀ name, field? n name = (entries n).lookup name
  field_other : kind n ≠ .object → ∀ name, field? n name = none
  number : kind n = .number → (int? n).isSome ∨ (float? n).isSome
  bool : kind n = .boolean → (bool? n).isSome
  string : kind n = .string → (string? n).isSome

/-- A node is lawful when its answers fit its kind and its children are lawful. -/
inductive Lawful : N → Prop
  | mk {n : N} (consistent : Consistent n) (items : kind n = .array → ∀ c ∈ items n, Lawful c)
      (entries : kind n = .object → ∀ e ∈ entries n, Lawful e.2) : Lawful n

variable {n : N}

theorem Lawful.consistent (h : Lawful n) : Consistent n := by
  cases h
  assumption

theorem Lawful.of_mem_items (h : Lawful n) (hk : kind n = .array) {c : N} (hc : c ∈ items n) :
    Lawful c := by
  cases h with
  | mk _ items _ => exact items hk c hc

theorem Lawful.of_mem_entries (h : Lawful n) (hk : kind n = .object) {e : String × N}
    (he : e ∈ entries n) : Lawful e.2 := by
  cases h with
  | mk _ _ entries => exact entries hk e he

theorem Lawful.of_item (h : Lawful n) (hk : kind n = .array) {i : Nat} {c : N}
    (hc : item? n i = some c) : Lawful c := by
  rw [h.consistent.item_array hk] at hc
  exact h.of_mem_items hk (List.mem_of_getElem? hc)

theorem Lawful.of_field (h : Lawful n) {name : String} {c : N} (hc : field? n name = some c) :
    Lawful c := by
  by_cases hk : kind n = .object
  · rw [h.consistent.field_object hk] at hc
    exact h.of_mem_entries hk (Entries.mem_of_lookup hc)
  · rw [h.consistent.field_other hk] at hc
    exact absurd hc (by simp)

theorem Lawful.of_scalar (ha : kind n ≠ .array) (ho : kind n ≠ .object)
    (hf : ∀ name, field? n name = none)
    (hnumber : kind n = .number → (int? n).isSome ∨ (float? n).isSome)
    (hbool : kind n = .boolean → (bool? n).isSome)
    (hstring : kind n = .string → (string? n).isSome) : Lawful n := by
  refine .mk ?_ (fun h ↦ absurd h ha) (fun h ↦ absurd h ho)
  exact
    { length_array := fun h ↦ absurd h ha
      item_array := fun h ↦ absurd h ha
      keys_object := fun h ↦ absurd h ho
      length_object := fun h ↦ absurd h ho
      field_object := fun h ↦ absurd h ho
      field_other := fun _ ↦ hf
      number := hnumber
      bool := hbool
      string := hstring }

end DataNode

namespace Value

open DataNode

inductive UniqueKeys : Value → Prop
  | null : UniqueKeys null
  | bool (b : Bool) : UniqueKeys (bool b)
  | int (n : Int64) : UniqueKeys (int n)
  | float (x : Float) : UniqueKeys (float x)
  | string (s : String) : UniqueKeys (string s)
  | array {items : List Value} : (∀ v ∈ items, UniqueKeys v) → UniqueKeys (array items)
  | object {entries : List (String × Value)} :
      (Entries.keys entries).Nodup → (∀ e ∈ entries, UniqueKeys e.2) → UniqueKeys (object entries)

theorem UniqueKeys.lawful {v : Value} (h : UniqueKeys v) : Lawful v := by
  induction h with
  | null | bool | int | float | string =>
    apply Lawful.of_scalar <;> simp [DataNode.kind, kind, field?, entries, DataNode.bool?,
      DataNode.int?, DataNode.float?, DataNode.string?, toFloat?, string?]
  | array _ ih =>
    refine ⟨⟨fun _ ↦ rfl, fun _ _ ↦ rfl, ?_, ?_, ?_, fun _ _ ↦ rfl, ?_, ?_, ?_⟩, fun _ ↦ ih, ?_⟩
    all_goals exact fun h ↦ nomatch h
  | object hkeys _ ih =>
    refine ⟨⟨?_, ?_, fun _ ↦ hkeys, fun _ ↦ rfl, fun _ _ ↦ rfl, fun h ↦ absurd rfl h, ?_, ?_, ?_⟩,
      ?_, fun _ ↦ ih⟩
    all_goals exact fun h ↦ nomatch h

theorem UniqueKeys.ofNode_eq {v : Value} (h : UniqueKeys v) : ofNode v = v := by
  induction h with
  | null | bool | int | float | string => rfl
  | array _ ih =>
    rw [Value.ofNode_eq]
    exact congrArg Value.array ((List.map_congr_left ih).trans (List.map_id _))
  | @object entries hkeys _ ih =>
    rw [Value.ofNode_eq]
    have hmap : entries.map (fun e ↦ (e.1, ofNode e.2)) = entries :=
      (List.map_congr_left fun e he ↦ congrArg (Prod.mk e.1) (ih e he)).trans (List.map_id _)
    exact congrArg Value.object
      ((congrArg Entries.ofPairs hmap).trans (Entries.ofPairs_of_nodup hkeys))

/-- A copy has unique keys, whatever the node answers. -/
theorem uniqueKeys_ofNode {N : Type} [DataNode N] (n : N) : UniqueKeys (ofNode n) := by
  induction h : DataNode.depth n using Nat.strongRecOn generalizing n with
  | ind d ih =>
    rw [Value.ofNode_eq]
    split
    · exact .null
    · exact .bool _
    · split
      · exact .int _
      · cases float? n with
        | none => exact .null
        | some x => exact .float x
    · exact .string _
    · refine .array fun v hv ↦ ?_
      obtain ⟨c, hc, rfl⟩ := List.mem_map.1 hv
      exact ih _ (h ▸ depth_item hc) c rfl
    · refine .object (Entries.nodup_keys_ofPairs _) fun e he ↦ ?_
      obtain ⟨e', he', rfl⟩ := List.mem_map.1 (Entries.mem_of_mem_ofPairs he)
      exact ih _ (h ▸ depth_entry he') e'.2 rfl

end Value

namespace Json

open DataNode

theorem induction {motive : Json → Prop} (null : motive null) (bool : ∀ b, motive (bool b))
    (number : ∀ n, motive (number n)) (string : ∀ s, motive (string s))
    (array : ∀ items, (∀ j ∈ items, motive j) → motive (array items))
    (object : ∀ entries, (∀ e ∈ entries, motive e.2) → motive (object entries)) (j : Json) :
    motive j := by
  induction h : DataNode.depth j using Nat.strongRecOn generalizing j with
  | ind d ih =>
    cases j with
    | null => exact null
    | bool b => exact bool b
    | number n => exact number n
    | string s => exact string s
    | array items => exact array items fun c hc ↦ ih _ (h ▸ depth_item hc) c rfl
    | object entries => exact object entries fun e he ↦ ih _ (h ▸ depth_entry he) e.2 rfl

inductive UniqueKeys : Json → Prop
  | null : UniqueKeys null
  | bool (b : Bool) : UniqueKeys (bool b)
  | number (n : JsonNumber) : UniqueKeys (number n)
  | string (s : String) : UniqueKeys (string s)
  | array {items : List Json} : (∀ j ∈ items, UniqueKeys j) → UniqueKeys (array items)
  | object {entries : List (String × Json)} :
      (Entries.keys entries).Nodup → (∀ e ∈ entries, UniqueKeys e.2) → UniqueKeys (object entries)

theorem UniqueKeys.lawful {j : Json} (h : UniqueKeys j) : Lawful j := by
  induction h with
  | null | bool | number | string =>
    apply Lawful.of_scalar <;> simp [DataNode.kind, kind, field?, entries, DataNode.bool?,
      DataNode.int?, DataNode.float?, DataNode.string?]
  | array _ ih =>
    refine ⟨⟨fun _ ↦ rfl, fun _ _ ↦ rfl, ?_, ?_, ?_, fun _ _ ↦ rfl, ?_, ?_, ?_⟩, fun _ ↦ ih, ?_⟩
    all_goals exact fun h ↦ nomatch h
  | object hkeys _ ih =>
    refine ⟨⟨?_, ?_, fun _ ↦ hkeys, fun _ ↦ rfl, fun _ _ ↦ rfl, fun h ↦ absurd rfl h, ?_, ?_, ?_⟩,
      ?_, fun _ ↦ ih⟩
    all_goals exact fun h ↦ nomatch h

end Json

namespace Value

theorem ofJsonItems_eq (items : List Json) : ofJsonItems items = items.map ofJson := by
  induction items with
  | nil => rfl
  | cons j items ih => rw [ofJsonItems, ih, List.map_cons]

theorem ofJsonEntries_eq (entries : List (String × Json)) :
    ofJsonEntries entries = entries.map fun e ↦ (e.1, ofJson e.2) := by
  induction entries with
  | nil => rfl
  | cons e entries ih => rw [ofJsonEntries, ih, List.map_cons]

theorem ofNode_eq_ofJson (j : Json) : ofNode j = ofJson j := by
  induction j using Json.induction with
  | null | bool | string =>
    rw [Value.ofNode_eq]
    rfl
  | number n =>
    rw [Value.ofNode_eq]
    simp only [DataNode.kind, Json.kind, DataNode.int?, ofJson, ofNumber, DataNode.float?]
    cases n.int64? <;> rfl
  | array items ih =>
    rw [Value.ofNode_eq, ofJson, ofJsonItems_eq]
    exact congrArg Value.array (List.map_congr_left ih)
  | object entries ih =>
    rw [Value.ofNode_eq, ofJson, ofJsonEntries_eq]
    exact congrArg ofPairs (List.map_congr_left fun e he ↦ congrArg (Prod.mk e.1) (ih e he))

end Value

end PathQuery
