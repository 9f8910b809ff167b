import PathQuery.Value.Basic

namespace PathQuery

/-- Data that can be looked into: a shape, children by name and by position, and scalar contents.
Every answer stands for itself; nothing ties the answers to the kind. Children lie strictly less
deep than their parent, so that a node can be copied. -/
class DataNode (N : Type) where
  kind : N → Kind
  field? : N → String → Option N
  item? : N → Nat → Option N
  /-- The elements of an array, the entries of an object or the characters of a string, counted. -/
  length : N → Nat
  items : N → List N
  entries : N → List (String × N)
  bool? : N → Option Bool
  int? : N → Option Int64
  float? : N → Option Float
  string? : N → Option String
  depth : N → Nat
  depth_item : ∀ {n c : N}, c ∈ items n → depth c < depth n
  depth_entry : ∀ {n : N} {e : String × N}, e ∈ entries n → depth e.2 < depth n

namespace DataNode

/-- A count that takes the greatest of a list is bounded exactly by the bounds of its elements. -/
theorem greatest_le_iff {α : Type} {size : α → Nat} {greatest : List α → Nat}
    (hnil : greatest [] = 0) (hcons : ∀ a as, greatest (a :: as) = max (size a) (greatest as))
    {as : List α} {n : Nat} : greatest as ≤ n ↔ ∀ a ∈ as, size a ≤ n := by
  induction as with
  | nil => simp [hnil]
  | cons a as ih => rw [hcons, Nat.max_le, List.forall_mem_cons, ih]

variable {N : Type} [DataNode N]

def isNull (n : N) : Bool := kind n == .null

def isArray (n : N) : Bool := kind n == .array

def isObject (n : N) : Bool := kind n == .object

def values (n : N) : List N := (entries n).map Prod.snd

def isTruthy (n : N) : Bool :=
  match kind n with
  | .null => false
  | .boolean => (bool? n).getD false
  | .number => true
  | .string => (string? n).any fun s ↦ !s.isEmpty
  | .array => 0 < length n
  | .object => 0 < length n

end DataNode

namespace Value

open DataNode

variable {N : Type} [DataNode N]

def copy : Nat → N → Value
  | 0, _ => null
  | d + 1, n =>
    match DataNode.kind n with
    | .null => null
    | .boolean => bool ((bool? n).getD false)
    | .number =>
      match int? n with
      | some i => int i
      | none => ((float? n).map float).getD null
    | .string => string ((DataNode.string? n).getD "")
    | .array => array ((items n).map (copy d))
    | .object => ofPairs ((entries n).map fun e ↦ (e.1, copy d e.2))

def ofNode (n : N) : Value := copy (depth n + 1) n

theorem copy_of_depth_lt {d : Nat} {n : N} (h : depth n < d) : copy d n = ofNode n := by
  suffices key : ∀ d e (n : N), depth n < d → depth n < e → copy d n = copy e n from
    key d (depth n + 1) n h (Nat.lt_succ_self _)
  intro d
  induction d with
  | zero => intro e n h _; exact absurd h (Nat.not_lt_zero _)
  | succ d ih =>
    intro e n hd he
    cases e with
    | zero => exact absurd he (Nat.not_lt_zero _)
    | succ e =>
      simp only [copy]
      have below {c : N} (hc : depth c < depth n) : copy d c = copy e c :=
        ih e c (by omega) (by omega)
      cases DataNode.kind n with
      | array =>
        exact congrArg array (List.map_congr_left fun c hc ↦ below (depth_item hc))
      | object =>
        exact congrArg ofPairs (List.map_congr_left fun c hc ↦
          congrArg (Prod.mk c.1) (below (depth_entry hc)))
      | null => rfl
      | boolean => rfl
      | number => rfl
      | string => rfl

theorem ofNode_eq (n : N) : ofNode n =
    match DataNode.kind n with
    | .null => null
    | .boolean => bool ((bool? n).getD false)
    | .number =>
      match int? n with
      | some i => int i
      | none => ((float? n).map float).getD null
    | .string => string ((DataNode.string? n).getD "")
    | .array => array ((items n).map ofNode)
    | .object => ofPairs ((entries n).map fun e ↦ (e.1, ofNode e.2)) := by
  rw [ofNode, copy]
  cases DataNode.kind n with
  | array => exact congrArg array (List.map_congr_left fun c hc ↦ copy_of_depth_lt (depth_item hc))
  | object =>
    exact congrArg ofPairs (List.map_congr_left fun c hc ↦
      congrArg (Prod.mk c.1) (copy_of_depth_lt (depth_entry hc)))
  | null => rfl
  | boolean => rfl
  | number => rfl
  | string => rfl

end Value

end PathQuery
