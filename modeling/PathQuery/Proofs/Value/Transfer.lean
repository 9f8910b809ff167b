import PathQuery.Eval.Comparison
import PathQuery.Proofs.Entries.Sorted
import PathQuery.Proofs.Node.Lawful

namespace PathQuery

namespace Value

mutual

/-- What holds of the children of an array or object and so of it holds of every value. -/
theorem induction {motive : Value → Prop} (null : motive null) (bool : ∀ b, motive (bool b))
    (int : ∀ n, motive (int n)) (float : ∀ x, motive (float x)) (string : ∀ s, motive (string s))
    (array : ∀ items, (∀ v ∈ items, motive v) → motive (array items))
    (object : ∀ entries, (∀ e ∈ entries, motive e.2) → motive (object entries)) :
    (v : Value) → motive v
  | .null => null
  | .bool b => bool b
  | .int n => int n
  | .float x => float x
  | .string s => string s
  | .array items => array items (inductionItems null bool int float string array object items)
  | .object entries =>
    object entries (inductionEntries null bool int float string array object entries)
termination_by structural v => v

theorem inductionItems {motive : Value → Prop} (null : motive null) (bool : ∀ b, motive (bool b))
    (int : ∀ n, motive (int n)) (float : ∀ x, motive (float x)) (string : ∀ s, motive (string s))
    (array : ∀ items, (∀ v ∈ items, motive v) → motive (array items))
    (object : ∀ entries, (∀ e ∈ entries, motive e.2) → motive (object entries)) :
    (vs : List Value) → ∀ v ∈ vs, motive v
  | [] => by simp
  | v :: vs => List.forall_mem_cons.2 ⟨induction null bool int float string array object v,
      inductionItems null bool int float string array object vs⟩
termination_by structural vs => vs

theorem inductionEntries {motive : Value → Prop} (null : motive null) (bool : ∀ b, motive (bool b))
    (int : ∀ n, motive (int n)) (float : ∀ x, motive (float x)) (string : ∀ s, motive (string s))
    (array : ∀ items, (∀ v ∈ items, motive v) → motive (array items))
    (object : ∀ entries, (∀ e ∈ entries, motive e.2) → motive (object entries)) :
    (es : List (String × Value)) → ∀ e ∈ es, motive e.2
  | [] => by simp
  | (_, v) :: es => List.forall_mem_cons.2 ⟨induction null bool int float string array object v,
      inductionEntries null bool int float string array object es⟩
termination_by structural es => es

end

inductive Finite : Value → Prop
  | null : Finite null
  | bool (b : Bool) : Finite (bool b)
  | int (n : Int64) : Finite (int n)
  | float {x : Float} : x.isFinite = true → Finite (float x)
  | string (s : String) : Finite (string s)
  | array {items : List Value} : (∀ v ∈ items, Finite v) → Finite (array items)
  | object {entries : List (String × Value)} :
      (∀ e ∈ entries, Finite e.2) → Finite (object entries)

theorem Finite.of_mem {items : List Value} (h : Finite (.array items)) {v : Value}
    (hv : v ∈ items) : Finite v := by
  cases h with
  | array h => exact h v hv

theorem Finite.of_entry {entries : List (String × Value)} (h : Finite (.object entries))
    {e : String × Value} (he : e ∈ entries) : Finite e.2 := by
  cases h with
  | object h => exact h e he

theorem UniqueKeys.of_mem {items : List Value} (h : UniqueKeys (.array items)) {v : Value}
    (hv : v ∈ items) : UniqueKeys v := by
  cases h with
  | array h => exact h v hv

theorem UniqueKeys.nodup {entries : List (String × Value)} (h : UniqueKeys (.object entries)) :
    (Entries.keys entries).Nodup := by
  cases h with
  | object h _ => exact h

theorem UniqueKeys.of_entry {entries : List (String × Value)} (h : UniqueKeys (.object entries))
    {e : String × Value} (he : e ∈ entries) : UniqueKeys e.2 := by
  cases h with
  | object _ h => exact h e he

theorem toJsonItems_eq (vs : List Value) : toJsonItems vs = vs.map toJson := by
  induction vs with
  | nil => rfl
  | cons v vs ih => rw [toJsonItems, ih, List.map_cons]

theorem toJsonEntries_eq (entries : List (String × Value)) :
    toJsonEntries entries = entries.map fun e ↦ (e.1, toJson e.2) := by
  induction entries with
  | nil => rfl
  | cons e entries ih => rw [toJsonEntries, ih, List.map_cons]

theorem toJson_array (items : List Value) : (array items).toJson = .array (items.map toJson) := by
  rw [toJson, toJsonItems_eq]

theorem toJson_object (entries : List (String × Value)) :
    (object entries).toJson =
      .object ((Entries.sortPairs entries).map fun e ↦ (e.1, toJson e.2)) := by
  rw [toJson, toJsonEntries_eq, Entries.sortPairs_map]

theorem int64_ofInt64 (n : Int64) : (JsonNumber.ofInt64 n).int64? = some n := by
  rw [JsonNumber.ofInt64]
  split
  · next h =>
    have hle := n.toInt_lt
    have hlt : n.toInt.toNat < UInt64.size := by
      simp only [UInt64.size]
      omega
    have htoNat : (UInt64.ofNat n.toInt.toNat).toNat = n.toInt.toNat := UInt64.toNat_ofNat_of_lt hlt
    rw [JsonNumber.int64?, htoNat, Number.toInt64?, if_pos, Int.toNat_of_nonneg h,
      Int64.ofInt_toInt]
    rw [Int.toNat_of_nonneg h]
    exact ⟨n.le_toInt, n.toInt_le⟩
  · rfl

/-- The value with each object's keys in ascending order, which is what is left of it where it is
made a document and read back. -/
def throughJson (v : Value) : Value := ofJson v.toJson

theorem throughJson_int (n : Int64) : throughJson (int n) = int n := by
  change ofNumber _ = _
  rw [ofNumber, int64_ofInt64]

theorem throughJson_float {x : Float} (h : x.isFinite = true) :
    throughJson (float x) = float x := by
  rw [throughJson, toJson, if_pos h]
  rfl

theorem throughJson_array (items : List Value) :
    throughJson (array items) = array (items.map throughJson) := by
  rw [throughJson, toJson_array, ofJson, ofJsonItems_eq, List.map_map]
  rfl

theorem throughJson_object (entries : List (String × Value)) :
    throughJson (object entries) =
      object ((Entries.sortPairs entries).map fun e ↦ (e.1, throughJson e.2)) := by
  rw [throughJson, toJson_object, ofJson, ofJsonEntries_eq, ofPairs, List.map_map]
  exact congrArg object (Entries.ofPairs_of_nodup
    (Entries.ascending_map (f := throughJson) (Entries.ascending_sortPairs entries)).nodup)

theorem array?_throughJson (v : Value) :
    v.throughJson.array? = v.array?.map fun items ↦ items.map throughJson := by
  cases v with
  | array items => rw [throughJson_array]; rfl
  | object entries => rw [throughJson_object]; rfl
  | int n => rw [throughJson_int]; rfl
  | float x =>
    rw [throughJson, toJson]
    split <;> rfl
  | _ => rfl

theorem toJson_throughJson (v : Value) : v.throughJson.toJson = v.toJson := by
  induction v using Value.induction with
  | null | bool | string => rfl
  | int n => rw [throughJson_int]
  | float x =>
    by_cases hx : x.isFinite = true
    · rw [throughJson_float hx]
    · rw [throughJson, toJson, if_neg hx]
      rfl
  | array items ih =>
    rw [throughJson_array, toJson_array, toJson_array, List.map_map]
    exact congrArg Json.array (List.map_congr_left ih)
  | object entries ih =>
    rw [throughJson_object, toJson_object, toJson_object,
      (Entries.ascending_map (Entries.ascending_sortPairs entries)).sortPairs_eq, List.map_map]
    refine congrArg Json.object (List.map_congr_left fun e he ↦ congrArg (Prod.mk e.1) (ih e ?_))
    exact Entries.mem_of_mem_sortPairs he

theorem toJson_ofPairs (pairs : List (String × Value)) :
    (ofPairs pairs).toJson =
      .object (Entries.sortPairs (pairs.map fun e ↦ (e.1, e.2.toJson))) := by
  rw [ofPairs, toJson_object, Entries.sortPairs_ofPairs, Entries.sortPairs_map]

variable {v w : Value}

def Survives (v : Value) : Prop := v.toJson.isNull = v.isNull

theorem Survives.toJson_float {x : Float} (h : (float x).Survives) :
    (float x).toJson = .number (.float x) := by
  rw [Survives, toJson] at h
  rw [toJson]
  split
  · rfl
  · next hx => rw [if_neg hx] at h; cases h

theorem Finite.throughJson_eq_self (h : v.Finite) (harray : v.kind ≠ .array)
    (hobject : v.kind ≠ .object) : v.throughJson = v := by
  cases h with
  | float h => exact throughJson_float h
  | int n => exact throughJson_int n
  | array | object => contradiction
  | _ => rfl

theorem isNull_eq_of_kind (h : v.kind = w.kind) : v.isNull = w.isNull := by
  cases v <;> cases w <;> first | rfl | cases h

theorem isNumber_eq_of_kind (h : v.kind = w.kind) : v.isNumber = w.isNumber := by
  cases v <;> cases w <;> first | rfl | cases h

theorem isString_eq_of_kind (h : v.kind = w.kind) : v.isString = w.isString := by
  cases v <;> cases w <;> first | rfl | cases h

theorem beqItems_eq (as bs : List Value) : beqItems as bs = (as == bs) := by
  induction as generalizing bs with
  | nil => cases bs <;> rfl
  | cons a as ih =>
    cases bs with
    | nil => rfl
    | cons b bs => rw [beqItems, ih]; rfl

theorem beqEntries_eq (as bs : List (String × Value)) :
    beqEntries as bs = as.all fun e ↦ (bs.lookup e.1).any fun b ↦ e.2 == b := by
  induction as with
  | nil => rfl
  | cons e as ih =>
    rw [beqEntries, List.all_cons]
    cases bs.lookup e.1 with
    | none => rfl
    | some b => rw [ih]; rfl

end Value

open Value

/-- A document as it is held: its numbers are in the forms that the reader makes, every integer is
one of the signed 64-bit ones, and the keys of each object stand in ascending order. -/
inductive Json.Fits : Json → Prop
  | null : Fits null
  | bool (b : Bool) : Fits (bool b)
  | natural {n : UInt64} : n.toNat < 2 ^ 63 → Fits (number (.natural n))
  | negative {n : Int64} : n.toInt < 0 → Fits (number (.negative n))
  | float {x : Float} : x.isFinite = true → Fits (number (.float x))
  | string (s : String) : Fits (string s)
  | array {items : List Json} : (∀ j ∈ items, Fits j) → Fits (array items)
  | object {entries : List (String × Json)} :
      Entries.Ascending entries → (∀ e ∈ entries, Fits e.2) → Fits (object entries)

theorem Value.uniqueKeys_ofJson (j : Json) : (ofJson j).UniqueKeys := by
  rw [← ofNode_eq_ofJson]
  exact uniqueKeys_ofNode j

theorem Json.Fits.uniqueKeys {j : Json} (h : j.Fits) : j.UniqueKeys := by
  induction h with
  | object horder _ ih => exact .object horder.nodup ih
  | array _ ih => exact .array ih
  | null => exact .null
  | bool b => exact .bool b
  | string s => exact .string s
  | natural | negative | float => exact .number _

theorem Value.toJson_ofJson_array (items : List Json) :
    (ofJson (.array items)).toJson = .array (items.map fun j ↦ (ofJson j).toJson) := by
  rw [ofJson, ofJsonItems_eq, toJson_array, List.map_map]
  rfl

theorem Value.toJson_ofJson_object {entries : List (String × Json)}
    (h : Entries.Ascending entries) :
    (ofJson (.object entries)).toJson =
      .object (entries.map fun e ↦ (e.1, (ofJson e.2).toJson)) := by
  rw [ofJson, ofJsonEntries_eq, ofPairs,
    Entries.ofPairs_of_nodup (Entries.ascending_map h).nodup, toJson_object,
    (Entries.ascending_map h).sortPairs_eq, List.map_map]
  rfl

theorem Json.Fits.toJson_ofJson {j : Json} (h : j.Fits) : (ofJson j).toJson = j := by
  induction h with
  | null | bool | string => rfl
  | @natural n hn =>
    have hint : (JsonNumber.natural n).int64? = some (Int64.ofInt n.toNat) := by
      have hmin : Int64.minValue.toInt ≤ n.toNat := by
        have : Int64.minValue.toInt ≤ 0 := by decide
        omega
      have hmax : (n.toNat : Int) ≤ Int64.maxValue.toInt := by
        have : Int64.maxValue.toInt = 2 ^ 63 - 1 := by decide
        omega
      exact if_pos ⟨hmin, hmax⟩
    have htoInt : (Int64.ofInt n.toNat).toInt = n.toNat :=
      Int64.toInt_ofInt_of_le (by omega) (by omega)
    rw [ofJson, ofNumber, hint]
    change Json.number (.ofInt64 _) = _
    rw [JsonNumber.ofInt64, htoInt, if_pos (Int.natCast_nonneg _), Int.toNat_natCast,
      UInt64.ofNat_toNat]
  | @negative n hn =>
    change Json.number (.ofInt64 n) = _
    rw [JsonNumber.ofInt64, if_neg (Int.not_le.2 hn)]
  | @float x hx =>
    change (Value.float x).toJson = _
    rw [toJson, if_pos hx]
  | array _ ih =>
    rw [toJson_ofJson_array]
    exact congrArg Json.array ((List.map_congr_left ih).trans (List.map_id _))
  | object horder _ ih =>
    rw [toJson_ofJson_object horder]
    exact congrArg Json.object ((List.map_congr_left fun e he ↦
      congrArg (Prod.mk e.1) (ih e he)).trans (List.map_id _))

end PathQuery
