import PathQuery.Json.Basic
import PathQuery.Node.Basic

namespace PathQuery

namespace Value

mutual

def depth : Value → Nat
  | array items => depthItems items + 1
  | object entries => depthEntries entries + 1
  | _ => 0
termination_by structural v => v

def depthItems : List Value → Nat
  | [] => 0
  | v :: vs => max (depth v) (depthItems vs)
termination_by structural vs => vs

def depthEntries : List (String × Value) → Nat
  | [] => 0
  | (_, v) :: es => max (depth v) (depthEntries es)
termination_by structural es => es

end

theorem depthItems_le_iff {vs : List Value} {n : Nat} :
    depthItems vs ≤ n ↔ ∀ v ∈ vs, v.depth ≤ n :=
  DataNode.greatest_le_iff rfl fun _ _ ↦ rfl

theorem depthEntries_le_iff {es : List (String × Value)} {n : Nat} :
    depthEntries es ≤ n ↔ ∀ e ∈ es, e.2.depth ≤ n :=
  DataNode.greatest_le_iff rfl fun _ _ ↦ rfl

def items : Value → List Value
  | array items => items
  | _ => []

def entries : Value → List (String × Value)
  | object entries => entries
  | _ => []

instance : DataNode Value where
  kind := kind
  field? v name := v.entries.lookup name
  item? v i := v.items[i]?
  length
    | string s => s.length
    | array items => items.length
    | object entries => entries.length
    | _ => 0
  items := items
  entries := entries
  bool?
    | bool b => some b
    | _ => none
  int?
    | int n => some n
    | _ => none
  float? := toFloat?
  string? := string?
  depth := depth
  depth_item {n c} h := by
    cases n with
    | array items => exact Nat.lt_succ_of_le (depthItems_le_iff.1 (Nat.le_refl _) c h)
    | _ => simp [items] at h
  depth_entry {n e} h := by
    cases n with
    | object entries => exact Nat.lt_succ_of_le (depthEntries_le_iff.1 (Nat.le_refl _) e h)
    | _ => simp [entries] at h

end Value

namespace Json

mutual

def depth : Json → Nat
  | array items => depthItems items + 1
  | object entries => depthEntries entries + 1
  | _ => 0
termination_by structural j => j

def depthItems : List Json → Nat
  | [] => 0
  | j :: js => max (depth j) (depthItems js)
termination_by structural js => js

def depthEntries : List (String × Json) → Nat
  | [] => 0
  | (_, j) :: es => max (depth j) (depthEntries es)
termination_by structural es => es

end

theorem depthItems_le_iff {js : List Json} {n : Nat} :
    depthItems js ≤ n ↔ ∀ j ∈ js, j.depth ≤ n :=
  DataNode.greatest_le_iff rfl fun _ _ ↦ rfl

theorem depthEntries_le_iff {es : List (String × Json)} {n : Nat} :
    depthEntries es ≤ n ↔ ∀ e ∈ es, e.2.depth ≤ n :=
  DataNode.greatest_le_iff rfl fun _ _ ↦ rfl

def items : Json → List Json
  | array items => items
  | _ => []

def entries : Json → List (String × Json)
  | object entries => entries
  | _ => []

instance : DataNode Json where
  kind := kind
  field? j name := j.entries.lookup name
  item? j i := j.items[i]?
  length
    | string s => s.length
    | array items => items.length
    | object entries => entries.length
    | _ => 0
  items := items
  entries := entries
  bool?
    | bool b => some b
    | _ => none
  int?
    | number n => n.int64?
    | _ => none
  float?
    | number n => some n.toFloat
    | _ => none
  string?
    | string s => some s
    | _ => none
  depth := depth
  depth_item {n c} h := by
    cases n with
    | array items => exact Nat.lt_succ_of_le (depthItems_le_iff.1 (Nat.le_refl _) c h)
    | _ => simp [items] at h
  depth_entry {n e} h := by
    cases n with
    | object entries => exact Nat.lt_succ_of_le (depthEntries_le_iff.1 (Nat.le_refl _) e h)
    | _ => simp [entries] at h

end Json

end PathQuery
