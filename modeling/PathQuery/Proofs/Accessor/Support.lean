import PathQuery.Proofs.Accessor.Simulation
import PathQuery.Query

namespace PathQuery

open Value

variable {j : Json} {e left right : Expr} {o x y : Option Json} {u : Value}

theorem Json.Fits.survives (hj : j.Fits) : (ofJson j).Survives := by
  rw [Survives, hj.toJson_ofJson]
  cases j with
  | number k =>
    rw [ofJson, ofNumber]
    split <;> rfl
  | _ => rfl

theorem Json.Fits.ascending_ofJson (hj : j.Fits) : (ofJson j).Ascending := by
  cases hj with
  | object horder _ =>
    rw [ofJson, ofJsonEntries_eq, ofPairs,
      Entries.ofPairs_of_nodup (Entries.ascending_map horder).nodup]
    exact Entries.ascending_map horder
  | natural | negative | float =>
    rw [ofJson, ofNumber]
    split <;> trivial
  | _ => trivial

theorem Json.Fits.means (hj : j.Fits) : Means (some j) (ofJson j) := hj.toJson_ofJson.symm

theorem Expr.evaluate_eq_ofJson (e : Expr) (hj : j.Fits) :
    e.evaluate j = e.evaluate (ofJson j) := by
  rw [← ofNode_eq_ofJson, evaluate_ofNode e hj.uniqueKeys.lawful]

theorem Means.search (h : Means o u) (text : String) (he : e.evaluate j = .ok u) :
    (Query.mk text e).search j = .ok (o.getD .null) := by
  rw [Query.search, Query.evaluateNode, he, show o.getD .null = u.toJson from h]
  rfl

/-- On the document the tree gives the value that an operand of a support function stands for,
apart from the order of keys. -/
def Yields (e : Expr) (j : Json) (o : Option Json) : Prop :=
  ∃ u, e.evaluate j = .ok u ∧ u.Reordered (Support.toValue o)

namespace Support

variable (text : String)

theorem search_index (hj : j.Fits) (i : Int64) :
    (Query.mk text (.index i)).search j = .ok ((index j i).getD .null) := by
  have hmeans := Means.index i (ofJson j)
  rw [hj.toJson_ofJson] at hmeans
  refine hmeans.search text ?_
  rw [Expr.evaluate_eq_ofJson _ hj, Expr.evaluate_index i (uniqueKeys_ofJson j)]

theorem search_slice (hj : j.Fits) (start stop step : Option Int64) :
    (Query.mk text (.slice start stop step)).search j =
      .ok ((slice j start stop step).getD .null) := by
  have hmeans := Means.slice start stop step (ofJson j)
  rw [hj.toJson_ofJson] at hmeans
  refine hmeans.search text ?_
  rw [Expr.evaluate_eq_ofJson _ hj, Expr.evaluate_slice start stop step (uniqueKeys_ofJson j)]

theorem search_flatten (hj : j.Fits) :
    (Query.mk text (.flatten .currentNode)).search j = .ok ((flatten (some j)).getD .null) := by
  refine hj.means.flatten.search text ?_
  rw [Expr.evaluate_flatten _ hj.uniqueKeys.lawful, Expr.evaluate_currentNode]
  rfl

theorem search_objectValues (hj : j.Fits) :
    (Query.mk text (.objectValues .currentNode)).search j =
      .ok ((objectValues (some j)).getD .null) := by
  refine (hj.means.objectValues hj.ascending_ofJson).search text ?_
  rw [Expr.evaluate_objectValues _ hj.uniqueKeys.lawful, Expr.evaluate_currentNode]
  rfl

theorem search_not (hj : j.Fits) :
    (Query.mk text (.not .currentNode)).search j = .ok (.bool !isTruthy (some j)) := by
  refine (Means.some (.bool !isTruthy (some j))).search text ?_
  rw [Expr.evaluate_not _ hj.uniqueKeys.lawful, Expr.evaluate_currentNode,
    hj.means.isTruthy_eq hj.survives]
  rfl

theorem search_comparison (hj : j.Fits) (op : Comparator) (hx : Yields left j x)
    (hy : Yields right j y) :
    (Query.mk text (.comparison op left right)).search j =
      .ok ((compare op.text x y).getD .null) := by
  obtain ⟨u, hu, hx⟩ := hx
  obtain ⟨w, hw, hy⟩ := hy
  have hop : Comparator.ofText? op.text = some op := by cases op <;> rfl
  have hmeans : Means (compare op.text x y) (op.apply u w) := by
    rw [compare, hop, hx.apply_eq op hy]
    exact .ofValue rfl
  refine hmeans.search text ?_
  rw [Expr.evaluate_comparison op _ _ hj.uniqueKeys.lawful, hu, hw]
  rfl

theorem evalArgs_of_evaluate {es : List Expr} {args : List (Option Json)}
    (h : List.Forall₂ (fun e a ↦ e.evaluate j = .ok (toValue a)) es args) :
    Expr.evalArgs es j = .ok (args.map fun a ↦ .value (toValue a)) := by
  induction h with
  | nil => rfl
  | cons he _ ih =>
    rw [Expr.evalArgs_cons_of_ok he, ih]
    rfl

theorem search_functionCall (name : String) {es : List Expr} {args : List (Option Json)}
    (h : List.Forall₂ (fun e a ↦ e.evaluate j = .ok (toValue a)) es args) :
    match (Query.mk text (.functionCall name es)).search j with
    | .ok r => (call name args).getD .null = r
    | .error _ => call name args = none := by
  have hcall : (Expr.functionCall name es).evaluate j =
      Builtin.callByName name (args.map fun a ↦ .value (toValue a)) := by
    rw [Expr.evaluate_functionCall, evalArgs_of_evaluate h]
    rfl
  rw [call]
  cases hr : Builtin.callByName name (args.map fun a ↦ .value (toValue a)) with
  | ok v =>
    have hmeans : Means (ofValue v) v := .ofValue rfl
    rw [hmeans.search text (hcall.trans hr)]
  | error fault =>
    rw [Query.search, Query.evaluateNode, hcall, hr]
    rfl

/-- What the support functions of accessors give on a document, nothing standing for null, is what
a search gives with the trees they are called for. The operands of a comparison are only given up
to the order of their keys, which it does not see; the arguments of a call are given exactly. -/
theorem agrees_with_search (hj : j.Fits) (text : String) :
    (∀ i, (Query.mk text (.index i)).search j = .ok ((index j i).getD .null)) ∧
    (∀ start stop step, (Query.mk text (.slice start stop step)).search j =
      .ok ((slice j start stop step).getD .null)) ∧
    (Query.mk text (.flatten .currentNode)).search j = .ok ((flatten (some j)).getD .null) ∧
    (Query.mk text (.objectValues .currentNode)).search j =
      .ok ((objectValues (some j)).getD .null) ∧
    (Query.mk text (.not .currentNode)).search j = .ok (.bool !isTruthy (some j)) ∧
    (∀ op left right x y, Yields left j x → Yields right j y →
      (Query.mk text (.comparison op left right)).search j =
        .ok ((compare op.text x y).getD .null)) ∧
    (∀ name es args, List.Forall₂ (fun e a ↦ e.evaluate j = .ok (toValue a)) es args →
      match (Query.mk text (.functionCall name es)).search j with
      | .ok r => (call name args).getD .null = r
      | .error _ => call name args = none) :=
  ⟨search_index text hj, search_slice text hj, search_flatten text hj,
    search_objectValues text hj, search_not text hj,
    fun op _ _ _ _ hx hy ↦ search_comparison text hj op hx hy,
    fun name _ _ h ↦ search_functionCall text name h⟩

def innerEntries : Json := .object [("x", .number (.natural 1)), ("y", .bool true)]

def nestedEntries : Json := .object [("a", .null), ("b", innerEntries)]

def swappedEntries : Expr :=
  .multiSelectHash [("y", .literal (.bool true)), ("x", .literal (.int 1))]

theorem agrees_with_search_of_swapped :
    nestedEntries.Fits ∧
    Yields (.field "b") nestedEntries (some innerEntries) ∧
    Yields swappedEntries nestedEntries (some innerEntries) ∧
    (Query.mk "b == \x7by: `true`, x: `1`\x7d" (.comparison .equal (.field "b")
      swappedEntries)).search nestedEntries = .ok (.bool true) ∧
    (Query.mk "*" (.objectValues .currentNode)).search nestedEntries =
      .ok (.array [.null, innerEntries]) ∧
    Expr.currentNode.evaluate nestedEntries = .ok (toValue (some nestedEntries)) ∧
    (∃ fault, (Query.mk "abs(@)" (.functionCall "abs" [.currentNode])).search nestedEntries =
      .error fault) ∧
    call "abs" [some nestedEntries] = none := by
  have hinner : innerEntries.Fits := by
    refine .object (List.pairwise_pair.2 (by decide)) ?_
    exact List.forall_mem_cons.2 ⟨.natural (by decide), List.forall_mem_singleton.2 (.bool true)⟩
  have hfits : nestedEntries.Fits := by
    refine .object (List.pairwise_pair.2 (by decide)) ?_
    exact List.forall_mem_cons.2 ⟨.null, List.forall_mem_singleton.2 hinner⟩
  have hfield : Yields (.field "b") nestedEntries (some innerEntries) :=
    ⟨ofJson innerEntries, rfl, (uniqueKeys_ofJson _).reordered⟩
  have hswapped : Yields swappedEntries nestedEntries (some innerEntries) := by
    refine ⟨.object [("y", .bool true), ("x", .int 1)], rfl, Reordered.symm ?_⟩
    exact reordered_of_perm (uniqueKeys_ofJson innerEntries) (.swap ..)
  have hself : Expr.currentNode.evaluate nestedEntries = .ok (toValue (some nestedEntries)) :=
    Expr.evaluate_currentNode _
  obtain ⟨-, -, -, -, -, hcompare, -⟩ :=
    agrees_with_search hfits "b == \x7by: `true`, x: `1`\x7d"
  obtain ⟨-, -, -, hvalues, -⟩ := agrees_with_search hfits "*"
  obtain ⟨-, -, -, -, -, -, hcall⟩ := agrees_with_search hfits "abs(@)"
  have hequal := hcompare .equal _ _ _ _ hfield hswapped
  have hnone := hcall "abs" _ _ (.cons hself .nil)
  exact ⟨hfits, hfield, hswapped, hequal, hvalues, hself, ⟨_, rfl⟩, hnone⟩

end Support

end PathQuery
