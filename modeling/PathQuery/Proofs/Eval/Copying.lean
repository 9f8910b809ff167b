import PathQuery.Eval.Evaluator
import PathQuery.Proofs.Node.Lawful

namespace PathQuery

open DataNode

variable {N : Type} [DataNode N]

namespace DataNode

variable {n : N}

theorem kind_ofNode (h : Lawful n) : kind (Value.ofNode n) = kind n := by
  rw [Value.ofNode_eq]
  cases hk : kind n with
  | number =>
    cases hi : int? n with
    | some i => rfl
    | none =>
      obtain ⟨x, hx⟩ := Option.isSome_iff_exists.1
        ((h.consistent.number hk).resolve_left (by simp [hi]))
      simp only [hx]
      rfl
  | null | boolean | string | array | object => rfl

theorem isNull_ofNode (h : Lawful n) : isNull (Value.ofNode n) = isNull n := by
  rw [isNull, isNull, kind_ofNode h]

theorem isArray_ofNode (h : Lawful n) : isArray (Value.ofNode n) = isArray n := by
  rw [isArray, isArray, kind_ofNode h]

theorem isObject_ofNode (h : Lawful n) : isObject (Value.ofNode n) = isObject n := by
  rw [isObject, isObject, kind_ofNode h]

theorem ofNode_array (hk : kind n = .array) :
    Value.ofNode n = .array ((items n).map Value.ofNode) := by
  rw [Value.ofNode_eq, hk]

theorem ofNode_object (h : Lawful n) (hk : kind n = .object) :
    Value.ofNode n = .object ((entries n).map fun e ↦ (e.1, Value.ofNode e.2)) := by
  rw [Value.ofNode_eq, hk]
  refine congrArg Value.object (Entries.ofPairs_of_nodup ?_)
  rw [Entries.keys_map]
  exact h.consistent.keys_object hk

theorem items_ofNode (hk : kind n = .array) :
    items (Value.ofNode n) = (items n).map Value.ofNode := by
  rw [ofNode_array hk]
  rfl

theorem entries_ofNode (h : Lawful n) (hk : kind n = .object) :
    entries (Value.ofNode n) = (entries n).map fun e ↦ (e.1, Value.ofNode e.2) := by
  rw [ofNode_object h hk]
  rfl

theorem values_ofNode (h : Lawful n) (hk : kind n = .object) :
    values (Value.ofNode n) = (values n).map Value.ofNode := by
  rw [values, values, entries_ofNode h hk, List.map_map, List.map_map]
  rfl

theorem field_ofNode (h : Lawful n) (name : String) :
    field? (Value.ofNode n) name = (field? n name).map Value.ofNode := by
  have hv := (Value.uniqueKeys_ofNode n).lawful.consistent
  by_cases hk : kind n = .object
  · rw [hv.field_object (kind_ofNode h ▸ hk), entries_ofNode h hk, Entries.lookup_map,
      h.consistent.field_object hk]
  · rw [hv.field_other (kind_ofNode h ▸ hk), h.consistent.field_other hk, Option.map_none]

theorem length_ofNode (h : Lawful n) (hk : kind n = .array) :
    length (Value.ofNode n) = length n := by
  rw [ofNode_array hk, h.consistent.length_array hk]
  exact List.length_map _

theorem item_ofNode (h : Lawful n) (hk : kind n = .array) (i : Nat) :
    item? (Value.ofNode n) i = (item? n i).map Value.ofNode := by
  rw [ofNode_array hk, h.consistent.item_array hk]
  exact List.getElem?_map ..

theorem isTruthy_ofNode (h : Lawful n) : isTruthy (Value.ofNode n) = isTruthy n := by
  rw [isTruthy, isTruthy, kind_ofNode h]
  cases hk : kind n with
  | null | number => rfl
  | boolean => rw [Value.ofNode_eq, hk]; rfl
  | string =>
    obtain ⟨s, hs⟩ := Option.isSome_iff_exists.1 (h.consistent.string hk)
    rw [Value.ofNode_eq, hk, hs]
    rfl
  | array => rw [length_ofNode h hk]
  | object =>
    have hv := (Value.uniqueKeys_ofNode n).lawful.consistent
    rw [hv.length_object (kind_ofNode h ▸ hk), h.consistent.length_object hk, entries_ofNode h hk,
      List.length_map]

end DataNode

namespace Selection

inductive Copies : Selection N → Selection Value → Prop
  | borrowed {n : N} : Lawful n → Copies (borrowed n) (borrowed (Value.ofNode n))
  | owned (v : Value) : Copies (owned v) (owned v)

variable {s : Selection N} {s' : Selection Value}

theorem Copies.isNull_eq (h : Copies s s') : s'.isNull = s.isNull := by
  cases h with
  | borrowed h => exact isNull_ofNode h
  | owned v => rfl

theorem Copies.isTruthy_eq (h : Copies s s') : s'.isTruthy = s.isTruthy := by
  cases h with
  | borrowed h => exact isTruthy_ofNode h
  | owned v => rfl

theorem Copies.toValue_eq (h : Copies s s') : s'.toValue = s.toValue := by
  cases h with
  | borrowed h => exact (Value.uniqueKeys_ofNode _).ofNode_eq
  | owned v => rfl

theorem Copies.ofNode? {c : Option N} (h : ∀ n, c = some n → Lawful n) :
    Copies (ofNode? c) (Selection.ofNode? (c.map Value.ofNode)) := by
  cases c with
  | none => exact .owned .null
  | some n => exact .borrowed (h n rfl)

end Selection

namespace Expr

open Eval

def evalFrom (e : Expr) : Selection N → Except EvalError (Selection N)
  | .borrowed n => e.eval n
  | .owned v => return .owned (← e.eval v).toValue

theorem eval_pipe (left right : Expr) (n : N) :
    (pipe left right).eval n = left.eval n >>= right.evalFrom := by
  rw [eval]
  exact bind_congr fun s ↦ by cases s <;> rfl

theorem eval_subexpression (left right : Expr) (n : N) :
    (subexpression left right).eval n =
      left.eval n >>= fun s ↦ if s.isNull then .ok .null else right.evalFrom s := by
  rw [eval]
  exact bind_congr fun s ↦ by cases s <;> rfl

/-- A source that is no wildcard is evaluated as a whole before it is projected over. -/
theorem eval_projection_of_ne {source body : Expr} (h : ∀ inner, source ≠ objectValues inner)
    (n : N) : (projection source body).eval n = (do
      let s ← source.eval n
      return .owned
        (← projectArray always (fun m ↦ body.eval m) always (fun v ↦ body.eval v) s)) := by
  cases source with
  | objectValues inner => exact absurd rfl (h inner)
  | _ => rfl

theorem evalArgs_cons_of_ne {e : Expr} (h : ∀ inner, e ≠ expressionRef inner) (es : List Expr)
    (n : N) : evalArgs (e :: es) n = (do
      let s ← e.eval n
      let args ← evalArgs es n
      return .value s.toValue :: args) := by
  cases e with
  | expressionRef inner => exact absurd rfl (h inner)
  | _ => rfl

end Expr

namespace Eval

open Selection

inductive Agrees : Except EvalError (Selection N) → Except EvalError (Selection Value) → Prop
  | error (x : EvalError) : Agrees (.error x) (.error x)
  | ok {s : Selection N} {s' : Selection Value} : Copies s s' → Agrees (.ok s) (.ok s')

theorem Agrees.owned {α : Type} (r : Except EvalError α) (f : α → Value) :
    Agrees (N := N) (do return .owned (f (← r))) (do return .owned (f (← r))) := by
  cases r with
  | error x => exact .error x
  | ok a => exact .ok (.owned _)

/-- What comes of two agreeing outcomes by the same continuation. -/
theorem Agrees.bind_eq {α : Type} {r : Except EvalError (Selection N)}
    {r' : Except EvalError (Selection Value)} (h : Agrees r r')
    {f : Selection N → Except EvalError α} {f' : Selection Value → Except EvalError α}
    (hf : ∀ s s', Copies s s' → f' s' = f s) : r' >>= f' = r >>= f := by
  cases h with
  | error x => rfl
  | ok h => exact hf _ _ h

theorem Agrees.bind {r : Except EvalError (Selection N)} {r' : Except EvalError (Selection Value)}
    (h : Agrees r r') {f : Selection N → Except EvalError (Selection N)}
    {f' : Selection Value → Except EvalError (Selection Value)}
    (hf : ∀ s s', Copies s s' → Agrees (f s) (f' s')) : Agrees (r >>= f) (r' >>= f') := by
  cases h with
  | error x => exact .error x
  | ok h => exact hf _ _ h

theorem project_ofNode {test body : N → Except EvalError (Selection N)}
    {test' body' : Value → Except EvalError (Selection Value)} {ns : List N}
    (ht : ∀ n ∈ ns, Agrees (test n) (test' (Value.ofNode n)))
    (hb : ∀ n ∈ ns, Agrees (body n) (body' (Value.ofNode n))) :
    project test' body' (ns.map Value.ofNode) = project test body ns := by
  induction ns with
  | nil => rfl
  | cons n ns ih =>
    have hrest := ih (fun m hm ↦ ht m (List.mem_cons_of_mem _ hm))
      (fun m hm ↦ hb m (List.mem_cons_of_mem _ hm))
    rw [List.map_cons, project, project]
    refine (ht n List.mem_cons_self).bind_eq fun s s' hs ↦ ?_
    rw [hs.isTruthy_eq, hrest]
    refine ite_congr rfl (fun _ ↦ ?_) (fun _ ↦ rfl)
    refine (hb n List.mem_cons_self).bind_eq fun s s' hs ↦ ?_
    rw [hs.isNull_eq, hs.toValue_eq]

variable {test body : N → Except EvalError (Selection N)}
  {test' body' : Value → Except EvalError (Selection Value)}
  {s : Selection N} {s' : Selection Value}

theorem projectArray_ofNode (ht : ∀ n, Lawful n → Agrees (test n) (test' (Value.ofNode n)))
    (hb : ∀ n, Lawful n → Agrees (body n) (body' (Value.ofNode n))) (hs : Copies s s') :
    projectArray test' body' test' body' s' = projectArray test body test' body' s := by
  cases hs with
  | @borrowed n hn =>
    rw [projectArray, projectArray, isArray_ofNode hn]
    by_cases ha : isArray n
    · have hk : kind n = .array := beq_iff_eq.1 ha
      rw [if_pos ha, if_pos ha, items_ofNode hk,
        project_ofNode (fun m hm ↦ ht m (hn.of_mem_items hk hm))
          (fun m hm ↦ hb m (hn.of_mem_items hk hm))]
    · rw [if_neg ha, if_neg ha]
  | owned v => cases v <;> rfl

theorem projectObject_ofNode (ht : ∀ n, Lawful n → Agrees (test n) (test' (Value.ofNode n)))
    (hb : ∀ n, Lawful n → Agrees (body n) (body' (Value.ofNode n))) (hs : Copies s s') :
    projectObject test' body' test' body' s' = projectObject test body test' body' s := by
  cases hs with
  | @borrowed n hn =>
    rw [projectObject, projectObject, isObject_ofNode hn]
    by_cases ho : isObject n
    · have hk : kind n = .object := beq_iff_eq.1 ho
      have hmem {m : N} (hm : m ∈ values n) : Lawful m := by
        obtain ⟨e, he, rfl⟩ := List.mem_map.1 hm
        exact hn.of_mem_entries hk he
      rw [if_pos ho, if_pos ho, values_ofNode hn hk,
        project_ofNode (fun m hm ↦ ht m (hmem hm)) (fun m hm ↦ hb m (hmem hm))]
    · rw [if_neg ho, if_neg ho]
  | owned v => cases v <;> rfl

theorem agrees_always (n : N) : Agrees (always n) (always (Value.ofNode n)) :=
  .ok (.owned (.bool true))

theorem agrees_evalFrom {e : Expr}
    (he : ∀ n : N, Lawful n → Agrees (e.eval n) (e.eval (Value.ofNode n))) (hs : Copies s s') :
    Agrees (e.evalFrom s) (e.evalFrom s') := by
  cases hs with
  | borrowed hn => exact he _ hn
  | owned v => exact .owned (e.eval v) toValue

theorem agrees_projection {source body : Expr} {n : N}
    (hne : ∀ inner, source ≠ .objectValues inner)
    (hs : Agrees (source.eval n) (source.eval (Value.ofNode n)))
    (hb : ∀ n : N, Lawful n → Agrees (body.eval n) (body.eval (Value.ofNode n))) :
    Agrees ((Expr.projection source body).eval n)
      ((Expr.projection source body).eval (Value.ofNode n)) := by
  rw [Expr.eval_projection_of_ne hne, Expr.eval_projection_of_ne hne]
  refine hs.bind fun s s' hs ↦ ?_
  rw [projectArray_ofNode (fun n _ ↦ agrees_always n) hb hs]
  exact .owned _ id

theorem evalArgs_cons_ofNode {e : Expr} {es : List Expr} {n : N}
    (hne : ∀ inner, e ≠ .expressionRef inner)
    (he : Agrees (e.eval n) (e.eval (Value.ofNode n)))
    (hes : Expr.evalArgs es (Value.ofNode n) = Expr.evalArgs es n) :
    Expr.evalArgs (e :: es) (Value.ofNode n) = Expr.evalArgs (e :: es) n := by
  rw [Expr.evalArgs_cons_of_ne hne, Expr.evalArgs_cons_of_ne hne, hes]
  refine he.bind_eq fun s s' hs ↦ ?_
  rw [hs.toValue_eq]

theorem flatten_ofNode (hs : Copies s s') : s'.flatten = s.flatten := by
  cases hs with
  | @borrowed n hn =>
    rw [Selection.flatten, Selection.flatten, isArray_ofNode hn]
    by_cases ha : isArray n
    · have hk : kind n = .array := beq_iff_eq.1 ha
      rw [if_pos ha, if_pos ha, DataNode.flatten, DataNode.flatten, items_ofNode hk,
        List.flatMap_map]
      refine congrArg Value.array (List.flatMap_congr fun c hc ↦ ?_)
      have hc' := hn.of_mem_items hk hc
      rw [isArray_ofNode hc']
      by_cases hca : isArray c
      · have hck : kind c = .array := beq_iff_eq.1 hca
        rw [if_pos hca, if_pos hca, items_ofNode hck, List.map_map]
        exact List.map_congr_left fun v _ ↦ (Value.uniqueKeys_ofNode v).ofNode_eq
      · rw [if_neg hca, if_neg hca, (Value.uniqueKeys_ofNode c).ofNode_eq]
    · rw [if_neg ha, if_neg ha]
  | owned v => rfl

theorem objectValues_ofNode (hs : Copies s s') : s'.objectValues = s.objectValues := by
  cases hs with
  | @borrowed n hn =>
    rw [Selection.objectValues, Selection.objectValues, isObject_ofNode hn]
    by_cases ho : isObject n
    · rw [if_pos ho, if_pos ho, values_ofNode hn (beq_iff_eq.1 ho), List.map_map]
      exact congrArg Value.array
        (List.map_congr_left fun v _ ↦ (Value.uniqueKeys_ofNode v).ofNode_eq)
    · rw [if_neg ho, if_neg ho]
  | owned v => rfl

theorem item_agrees {n : N} (hn : Lawful n) (i : Int64) :
    Copies (DataNode.item n i) (DataNode.item (Value.ofNode n) i) := by
  rw [DataNode.item, DataNode.item, isArray_ofNode hn]
  by_cases ha : isArray n
  · have hk : kind n = .array := beq_iff_eq.1 ha
    rw [if_pos ha, if_pos ha, length_ofNode hn hk]
    cases Slice.resolveIndex (length n) i with
    | none => exact .owned .null
    | some j =>
      rw [Option.bind_some, Option.bind_some, item_ofNode hn hk]
      exact .ofNode? fun m hm ↦ hn.of_item hk hm
  · rw [if_neg ha, if_neg ha]
    exact .owned .null

theorem slice_ofNode {n : N} (hn : Lawful n) (start stop step : Option Int64) :
    DataNode.slice (Value.ofNode n) start stop step = DataNode.slice n start stop step := by
  rw [DataNode.slice, DataNode.slice, isArray_ofNode hn]
  by_cases ha : isArray n
  · have hk : kind n = .array := beq_iff_eq.1 ha
    rw [if_pos ha, if_pos ha, length_ofNode hn hk]
    have hitems : item? (Value.ofNode n) = fun i ↦ (item? n i).map Value.ofNode :=
      funext (item_ofNode hn hk)
    rw [hitems, ← List.map_filterMap, List.map_map]
    exact congrArg Value.array
      (List.map_congr_left fun v _ ↦ (Value.uniqueKeys_ofNode v).ofNode_eq)
  · rw [if_neg ha, if_neg ha]

end Eval

end PathQuery
