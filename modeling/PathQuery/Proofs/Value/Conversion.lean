import PathQuery.Proofs.Eval.Representation
import PathQuery.Proofs.Number.Nearest
import PathQuery.Proofs.Value.Equality

namespace PathQuery

namespace JsonNumber

/-- The number as it comes back from a value: an integer that is above the signed 64-bit ones is
the nearest float, and every other number is what it was. -/
def narrowed : JsonNumber → JsonNumber
  | natural n => if n.toNat < 2 ^ 63 then natural n else float (Float.ofNat n.toNat)
  | n => n

theorem int64?_natural_of_le {n : UInt64} (h : 2 ^ 63 ≤ n.toNat) : (natural n).int64? = none := by
  have hmax : Int64.maxValue.toInt = 2 ^ 63 - 1 := by decide
  refine if_neg fun hword ↦ ?_
  omega

theorem isFinite_ofNat {n : UInt64} (h : n.toNat ≠ 0) : (Float.ofNat n.toNat).isFinite = true := by
  change (Float.ofNat n.toNat).toModel.unpack.isFinite = true
  rw [Number.unpack_ofNat h n.toNat_lt]
  rfl

end JsonNumber

namespace Json

/-- A document as it can be held: an integer has 64 bits, signed where it is below zero, no float
is infinite or a NaN, and the keys of each object stand in ascending order. -/
inductive Held : Json → Prop
  | null : Held null
  | bool (b : Bool) : Held (bool b)
  | natural (n : UInt64) : Held (number (.natural n))
  | negative {n : Int64} : n.toInt < 0 → Held (number (.negative n))
  | float {x : Float} : x.isFinite = true → Held (number (.float x))
  | string (s : String) : Held (string s)
  | array {items : List Json} : (∀ j ∈ items, Held j) → Held (array items)
  | object {entries : List (String × Json)} :
      Entries.Ascending entries → (∀ e ∈ entries, Held e.2) → Held (object entries)

mutual

/-- The document with each of its numbers as it comes back from a value. -/
def narrowed : Json → Json
  | null => null
  | bool b => bool b
  | number n => number n.narrowed
  | string s => string s
  | array items => array (narrowedItems items)
  | object entries => object (narrowedEntries entries)
termination_by structural j => j

def narrowedItems : List Json → List Json
  | [] => []
  | j :: js => narrowed j :: narrowedItems js
termination_by structural js => js

def narrowedEntries : List (String × Json) → List (String × Json)
  | [] => []
  | (k, j) :: es => (k, narrowed j) :: narrowedEntries es
termination_by structural es => es

end

theorem narrowedItems_eq (items : List Json) : narrowedItems items = items.map narrowed := by
  induction items with
  | nil => rfl
  | cons j items ih => rw [narrowedItems, ih, List.map_cons]

theorem narrowedEntries_eq (entries : List (String × Json)) :
    narrowedEntries entries = entries.map fun e ↦ (e.1, e.2.narrowed) := by
  induction entries with
  | nil => rfl
  | cons e entries ih => rw [narrowedEntries, ih, List.map_cons]

/-- A document comes back from the value that is made of it with its numbers narrowed. -/
theorem Held.toJson_ofJson {d : Json} (h : d.Held) : (Value.ofJson d).toJson = d.narrowed := by
  induction h with
  | null | bool | string => rfl
  | natural n =>
    obtain hlt | hle := Nat.lt_or_ge n.toNat (2 ^ 63)
    · rw [(Fits.natural hlt).toJson_ofJson, narrowed, JsonNumber.narrowed, if_pos hlt]
    · have hfinite := JsonNumber.isFinite_ofNat (n := n) (by omega)
      rw [Value.ofJson, Value.ofNumber, JsonNumber.int64?_natural_of_le hle, narrowed,
        JsonNumber.narrowed, if_neg (Nat.not_lt.2 hle)]
      exact if_pos hfinite
  | negative hn => exact (Fits.negative hn).toJson_ofJson
  | float hx => exact (Fits.float hx).toJson_ofJson
  | array _ ih =>
    rw [Value.toJson_ofJson_array, narrowed, narrowedItems_eq]
    exact congrArg Json.array (List.map_congr_left ih)
  | object horder _ ih =>
    rw [Value.toJson_ofJson_object horder, narrowed, narrowedEntries_eq]
    exact congrArg Json.object (List.map_congr_left fun e he ↦ congrArg (Prod.mk e.1) (ih e he))

theorem eq_of_map_eq_self {α : Type} {f : α → α} {as : List α} (h : as.map f = as) :
    ∀ a ∈ as, f a = a :=
  List.map_eq_map_iff.1 (h.trans (List.map_id as).symm)

/-- Nothing of a document is lost if and only if its integers are signed 64-bit ones. -/
theorem Held.narrowed_eq_self_iff {d : Json} (h : d.Held) : d.narrowed = d ↔ d.Fits := by
  induction h with
  | null => exact iff_of_true rfl .null
  | bool b => exact iff_of_true rfl (.bool b)
  | natural n =>
    rw [narrowed, JsonNumber.narrowed]
    obtain hlt | hle := Nat.lt_or_ge n.toNat (2 ^ 63)
    · rw [if_pos hlt]
      exact iff_of_true rfl (.natural hlt)
    · rw [if_neg (Nat.not_lt.2 hle)]
      refine iff_of_false nofun fun hfits ↦ ?_
      cases hfits with
      | natural hlt => omega
  | negative hn => exact iff_of_true rfl (.negative hn)
  | float hx => exact iff_of_true rfl (.float hx)
  | string s => exact iff_of_true rfl (.string s)
  | array _ ih =>
    rw [narrowed, narrowedItems_eq, array.injEq]
    constructor
    · exact fun hself ↦ .array fun j hj ↦ (ih j hj).1 (eq_of_map_eq_self hself j hj)
    · intro hfits
      cases hfits with
      | array hfits =>
        exact (List.map_congr_left fun j hj ↦ (ih j hj).2 (hfits j hj)).trans (List.map_id _)
  | object horder _ ih =>
    rw [narrowed, narrowedEntries_eq, object.injEq]
    constructor
    · refine fun hself ↦ .object horder fun e he ↦ (ih e he).1 ?_
      exact congrArg Prod.snd (eq_of_map_eq_self hself e he)
    · intro hfits
      cases hfits with
      | object _ hfits =>
        exact (List.map_congr_left fun e he ↦
          congrArg (Prod.mk e.1) ((ih e he).2 (hfits e he))).trans (List.map_id _)

end Json

namespace Value

/-- What a value is after it was made a document is equal to it. -/
theorem throughJson_beq {v : Value} (hv : v.UniqueKeys) (hfinite : v.Finite) :
    (v.throughJson == v) = true := by
  rw [(reordered_throughJson hfinite hv).symm.beq_eq hv.reordered]
  exact hfinite.beq_self hv

end Value

open Value

/-- A search for the document itself gives what comes back of it. -/
theorem search_self (d : Json) : search "@" d = .ok (ofJson d).toJson := by
  have hcompiled : compiled "@" = .ok ⟨"@", .currentNode⟩ := by cbv
  rw [search, hcompiled]
  change (Query.search ⟨"@", .currentNode⟩ d).mapError QueryError.eval = _
  rw [Query.search, Query.evaluateNode, Expr.evaluate_currentNode]
  rfl

/-- Of a document the integers above the signed 64-bit ones are not kept, which become floats, and
of a value the order in which its objects have their keys; everything else is what it was. -/
theorem convert_there_and_back :
    (∀ d : Json, d.Held →
      (ofJson d).toJson = d.narrowed ∧ search "@" d = .ok d.narrowed ∧
      (d.narrowed = d ↔ d.Fits)) ∧
    (∀ v : Value, v.UniqueKeys → v.Finite →
      (ofJson v.toJson == v) = true ∧ v.Reordered (ofJson v.toJson) ∧
      ofJson (ofJson v.toJson).toJson = ofJson v.toJson) := by
  constructor
  · intro d hd
    refine ⟨hd.toJson_ofJson, ?_, hd.narrowed_eq_self_iff⟩
    rw [search_self, hd.toJson_ofJson]
  · intro v hv hfinite
    exact ⟨throughJson_beq hv hfinite, reordered_throughJson hfinite hv,
      congrArg ofJson (toJson_throughJson v)⟩

def aroundSigned : Json :=
  .array [.number (.natural 9223372036854775808), .number (.natural 9223372036854775807)]

def descending : Value := .object [("b", .int 1), ("a", .array [.float (Float.ofNat 1)])]

theorem convert_there_and_back_around_signed :
    aroundSigned.Held ∧
    search "@" aroundSigned = .ok (.array [.number (.float (Float.ofNat 9223372036854775808)),
      .number (.natural 9223372036854775807)]) ∧
    descending.UniqueKeys ∧ descending.Finite ∧ (ofJson descending.toJson == descending) = true ∧
    ofJson (ofJson descending.toJson).toJson = ofJson descending.toJson := by
  have hd : aroundSigned.Held := by
    refine .array (List.forall_mem_cons.2 ⟨.natural _, ?_⟩)
    exact List.forall_mem_singleton.2 (.natural _)
  have hv : descending.UniqueKeys := by
    refine .object (by decide) (List.forall_mem_cons.2 ⟨.int 1, ?_⟩)
    exact List.forall_mem_singleton.2 (.array (List.forall_mem_singleton.2 (.float _)))
  have hfinite : descending.Finite := by
    refine .object (List.forall_mem_cons.2 ⟨.int 1, List.forall_mem_singleton.2 (.array ?_)⟩)
    exact List.forall_mem_singleton.2 (.float (by decide))
  obtain ⟨-, hsearch, -⟩ := convert_there_and_back.1 aroundSigned hd
  obtain ⟨hequal, -, hagain⟩ := convert_there_and_back.2 descending hv hfinite
  exact ⟨hd, hsearch, hv, hfinite, hequal, hagain⟩

/-- The greatest integer that a document holds comes back as a float. -/
theorem not_all_searched_back :
    ¬ ∀ d : Json, d.Held → (ofJson d).toJson = d ∧ search "@" d = .ok d := by
  intro h
  have hheld : (Json.number (.natural 18446744073709551615)).Held := .natural _
  have hback := (h _ hheld).1
  rw [hheld.toJson_ofJson] at hback
  cases hback

end PathQuery
