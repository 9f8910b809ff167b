import PathQuery.Proofs.Eval.Copying
import PathQuery.Query

namespace PathQuery

open DataNode Selection Eval

variable {N : Type} [DataNode N]

namespace Expr

mutual

/-- A run on a lawful node and one on its copy meet the same results at the same places. -/
theorem eval_agrees : (e : Expr) → {n : N} → Lawful n → Agrees (e.eval n) (e.eval (Value.ofNode n))
  | field name, n, hn => by
    rw [eval, eval, field_ofNode hn]
    exact .ok (.ofNode? fun m hm ↦ hn.of_field hm)
  | index i, n, hn => .ok (item_agrees hn i)
  | slice start stop step, n, hn => by
    rw [eval, eval, slice_ofNode hn]
    exact .ok (.owned _)
  | flatten inner, n, hn => by
    refine (eval_agrees inner hn).bind fun s s' hs ↦ ?_
    rw [flatten_ofNode hs]
    exact .ok (.owned _)
  | objectValues inner, n, hn => by
    refine (eval_agrees inner hn).bind fun s s' hs ↦ ?_
    rw [objectValues_ofNode hs]
    exact .ok (.owned _)
  | subexpression left right, n, hn => by
    rw [eval_subexpression, eval_subexpression]
    refine (eval_agrees left hn).bind fun s s' hs ↦ ?_
    rw [hs.isNull_eq]
    split
    · exact .ok (.owned .null)
    · exact agrees_evalFrom (fun _ ↦ eval_agrees right) hs
  | pipe left right, n, hn => by
    rw [eval_pipe, eval_pipe]
    exact (eval_agrees left hn).bind fun s s' hs ↦ agrees_evalFrom (fun _ ↦ eval_agrees right) hs
  | projection source body, n, hn => by
    cases source with
    | objectValues inner =>
      refine (eval_agrees inner hn).bind fun s s' hs ↦ ?_
      rw [projectObject_ofNode (fun n _ ↦ agrees_always n) (fun _ ↦ eval_agrees body) hs]
      exact .owned _ id
    | _ => exact agrees_projection (fun _ h ↦ nomatch h) (eval_agrees _ hn) fun _ ↦ eval_agrees body
  | filterProjection source predicate body, n, hn => by
    refine (eval_agrees source hn).bind fun s s' hs ↦ ?_
    rw [projectArray_ofNode (fun _ ↦ eval_agrees predicate) (fun _ ↦ eval_agrees body) hs]
    exact .owned _ id
  | multiSelectList items, n, hn => by
    rw [eval, eval, isNull_ofNode hn, evalItems_ofNode items hn]
    split
    · exact .ok (.owned .null)
    · exact .owned _ Value.array
  | multiSelectHash pairs, n, hn => by
    rw [eval, eval, isNull_ofNode hn, evalPairs_ofNode pairs hn]
    split
    · exact .ok (.owned .null)
    · exact .owned _ Value.ofPairs
  | or left right, n, hn => by
    refine (eval_agrees left hn).bind fun s s' hs ↦ ?_
    rw [hs.isTruthy_eq]
    split
    · exact .ok hs
    · exact eval_agrees right hn
  | and left right, n, hn => by
    refine (eval_agrees left hn).bind fun s s' hs ↦ ?_
    rw [hs.isTruthy_eq]
    split
    · exact eval_agrees right hn
    · exact .ok hs
  | not inner, n, hn => by
    refine (eval_agrees inner hn).bind fun s s' hs ↦ ?_
    rw [hs.isTruthy_eq]
    exact .ok (.owned _)
  | comparison op left right, n, hn => by
    refine (eval_agrees left hn).bind fun s s' hs ↦ (eval_agrees right hn).bind fun t t' ht ↦ ?_
    rw [hs.toValue_eq, ht.toValue_eq]
    exact .ok (.owned _)
  | functionCall name args, n, hn => by
    rw [eval, eval, evalArgs_ofNode args hn]
    cases evalArgs args n with
    | error x => exact .error x
    | ok args => exact .owned (Builtin.callByName name args) id
  | expressionRef _, _, _ => .error .strayReference
  | currentNode, _, hn => .ok (.borrowed hn)
  | literal v, _, _ => .ok (.owned v)
termination_by structural e => e

theorem evalItems_ofNode : (es : List Expr) → {n : N} → Lawful n →
    evalItems es (Value.ofNode n) = evalItems es n
  | [], _, _ => rfl
  | e :: es, n, hn => by
    rw [evalItems, evalItems, evalItems_ofNode es hn]
    refine (eval_agrees e hn).bind_eq fun s s' hs ↦ ?_
    rw [hs.toValue_eq]
termination_by structural es => es

theorem evalPairs_ofNode : (ps : List (String × Expr)) → {n : N} → Lawful n →
    evalPairs ps (Value.ofNode n) = evalPairs ps n
  | [], _, _ => rfl
  | (key, e) :: ps, n, hn => by
    rw [evalPairs, evalPairs, evalPairs_ofNode ps hn]
    refine (eval_agrees e hn).bind_eq fun s s' hs ↦ ?_
    rw [hs.toValue_eq]
termination_by structural ps => ps

theorem evalArgs_ofNode : (es : List Expr) → {n : N} → Lawful n →
    evalArgs es (Value.ofNode n) = evalArgs es n
  | [], _, _ => rfl
  | e :: es, n, hn => by
    have hes := evalArgs_ofNode es hn
    cases e with
    | expressionRef inner => rw [evalArgs, evalArgs, hes]
    | _ => exact evalArgs_cons_ofNode (fun _ h ↦ nomatch h) (eval_agrees _ hn) hes
termination_by structural es => es

end

theorem evaluate_ofNode (e : Expr) {n : N} (hn : Lawful n) :
    e.evaluate (Value.ofNode n) = e.evaluate n := by
  refine (eval_agrees e hn).bind_eq fun s s' hs ↦ ?_
  rw [hs.toValue_eq]

theorem evaluate_currentNode (j : Json) : currentNode.evaluate j = .ok (Value.ofJson j) := by
  rw [← Value.ofNode_eq_ofJson]
  rfl

end Expr

theorem search_eq_evaluate_ofJson (text : String) {document : Json} (h : document.UniqueKeys) :
    search text document = (evaluate text (Value.ofJson document)).map Value.toJson := by
  rw [search, evaluate, evaluateNode]
  cases compiled text with
  | error x => rfl
  | ok q =>
    change (q.search document).mapError _ = ((q.evaluateNode _).mapError _).map _
    rw [Query.search, Query.evaluateNode, Query.evaluateNode, ← Value.ofNode_eq_ofJson,
      Expr.evaluate_ofNode q.expr h.lawful]
    cases q.expr.evaluate document <;> rfl

/-- How the data is represented makes no difference: evaluation on a lawful node and on its copy
gives the same value or error, values and documents are lawful, and searching a document is
evaluating the value it converts to. -/
theorem representation_independent :
    (∀ {N : Type} [DataNode N] (e : Expr) (n : N), Lawful n →
      e.evaluate n = e.evaluate (Value.ofNode n)) ∧
    (∀ v : Value, v.UniqueKeys → Lawful v ∧ Value.ofNode v = v) ∧
    (∀ document : Json, document.UniqueKeys → Lawful document ∧ ∀ text : String,
      search text document = (evaluate text (Value.ofJson document)).map Value.toJson) :=
  ⟨fun e _ hn ↦ (e.evaluate_ofNode hn).symm, fun _ h ↦ ⟨h.lawful, h.ofNode_eq⟩,
    fun _ h ↦ ⟨h.lawful, fun text ↦ search_eq_evaluate_ofJson text h⟩⟩

theorem representation_independent_of_records :
    (Json.array [.object [("a", .null)]]).UniqueKeys ∧
    (Value.array [.object [("a", .null)]]).UniqueKeys ∧
    (Expr.projection .currentNode (.field "a")).evaluate (Json.array [.object [("a", .null)]]) =
      (Expr.projection .currentNode (.field "a")).evaluate
        (Value.ofNode (Json.array [.object [("a", .null)]])) ∧
    Value.ofNode (Value.array [.object [("a", .null)]]) = .array [.object [("a", .null)]] ∧
    search "[*].a" (.array [.object [("a", .null)]]) =
      (evaluate "[*].a" (Value.ofJson (.array [.object [("a", .null)]]))).map Value.toJson := by
  have hj : (Json.array [.object [("a", .null)]]).UniqueKeys :=
    .array (by simpa using .object (by simp) (by simpa using .null))
  have hv : (Value.array [.object [("a", .null)]]).UniqueKeys :=
    .array (by simpa using .object (by simp) (by simpa using .null))
  obtain ⟨hcopy, hvalue, hdocument⟩ := representation_independent
  exact ⟨hj, hv, hcopy _ _ (hdocument _ hj).1, (hvalue _ hv).2, (hdocument _ hj).2 _⟩

end PathQuery
