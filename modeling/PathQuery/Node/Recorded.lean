import PathQuery.Node.Basic

namespace PathQuery

/-- A node by its answers, which need not fit together. -/
inductive Recorded where
  | mk (kind : Kind) (bool? : Option Bool) (int? : Option Int64) (float? : Option Float)
    (string? : Option String) (length? : Option Nat) (items : List Recorded)
    (entries : List (String × Recorded))

namespace Recorded

def items : Recorded → List Recorded
  | mk _ _ _ _ _ _ items _ => items

def entries : Recorded → List (String × Recorded)
  | mk _ _ _ _ _ _ _ entries => entries

mutual

def depth : Recorded → Nat
  | mk _ _ _ _ _ _ items entries => max (depthItems items) (depthEntries entries) + 1
termination_by structural r => r

def depthItems : List Recorded → Nat
  | [] => 0
  | r :: rs => max (depth r) (depthItems rs)
termination_by structural rs => rs

def depthEntries : List (String × Recorded) → Nat
  | [] => 0
  | (_, r) :: es => max (depth r) (depthEntries es)
termination_by structural es => es

end

theorem depthItems_le_iff {rs : List Recorded} {n : Nat} :
    depthItems rs ≤ n ↔ ∀ r ∈ rs, r.depth ≤ n :=
  DataNode.greatest_le_iff rfl fun _ _ ↦ rfl

theorem depthEntries_le_iff {es : List (String × Recorded)} {n : Nat} :
    depthEntries es ≤ n ↔ ∀ e ∈ es, e.2.depth ≤ n :=
  DataNode.greatest_le_iff rfl fun _ _ ↦ rfl

instance : DataNode Recorded where
  kind | mk kind .. => kind
  field? r name := r.entries.lookup name
  item? r i := r.items[i]?
  length
    | mk _ _ _ _ _ length? items entries => length?.getD (items.length + entries.length)
  items := items
  entries := entries
  bool? | mk _ bool? .. => bool?
  int? | mk _ _ int? .. => int?
  float? | mk _ _ _ float? .. => float?
  string? | mk _ _ _ _ string? .. => string?
  depth := depth
  depth_item {n c} h := by
    cases n with
    | mk =>
      have := depthItems_le_iff.1 (Nat.le_refl _) c h
      simp only [depth, items] at *
      omega
  depth_entry {n e} h := by
    cases n with
    | mk =>
      have := depthEntries_le_iff.1 (Nat.le_refl _) e h
      simp only [depth, entries] at *
      omega

end Recorded

end PathQuery
