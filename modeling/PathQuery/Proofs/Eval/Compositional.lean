import PathQuery.Proofs.Eval.Representation
import PathQuery.Proofs.Function.UniqueKeys

namespace PathQuery

open DataNode Selection Eval

variable {N : Type} [DataNode N] {n : N}

theorem Value.isNull_eq (v : Value) : DataNode.isNull v = v.isNull := by cases v <;> rfl

theorem Value.isTruthy_eq {v : Value} : DataNode.isTruthy v = v.isTruthy := by
  cases v with
  | string s => rfl
  | array items => cases items <;> rfl
  | object entries => cases entries <;> rfl
  | _ => rfl

theorem Value.UniqueKeys.flatten {v : Value} (h : v.UniqueKeys) : v.flatten.UniqueKeys := by
  cases v with
  | array items =>
    refine .array fun w hw ↦ ?_
    obtain ⟨c, hc, hw⟩ := List.mem_flatMap.1 hw
    have hc := h.of_mem hc
    cases c with
    | array cs => exact hc.of_mem hw
    | _ => exact List.mem_singleton.1 hw ▸ hc
  | _ => exact .null

theorem Comparator.uniqueKeys_apply (op : Comparator) (v w : Value) :
    (op.apply v w).UniqueKeys := by
  unfold apply
  split
  · exact .null
  · split
    · exact .bool _
    · exact .bool _
    · split
      · exact .bool _
      · exact .null

namespace Selection

/-- A result that is a lawful node where it is one of the input. -/
def Sound : Selection N → Prop
  | borrowed n => Lawful n
  | owned _ => True

variable {s : Selection N}

theorem Sound.isNull_toValue (h : s.Sound) : s.toValue.isNull = s.isNull := by
  cases s with
  | borrowed n => rw [toValue, ← Value.isNull_eq]; exact isNull_ofNode h
  | owned v => rfl

theorem Sound.isTruthy_toValue (h : s.Sound) : s.toValue.isTruthy = s.isTruthy := by
  cases s with
  | borrowed n => rw [toValue, ← Value.isTruthy_eq]; exact isTruthy_ofNode h
  | owned v => rfl

theorem flatten_borrowed {v : Value} (h : v.UniqueKeys) :
    (borrowed v : Selection Value).flatten = v.flatten := by
  cases v with
  | array items =>
    change Value.array _ = Value.array _
    refine congrArg Value.array (List.flatMap_congr fun c hc ↦ ?_)
    have hc := h.of_mem hc
    cases c with
    | array cs =>
      exact (List.map_congr_left fun v hv ↦ (hc.of_mem hv).ofNode_eq).trans (List.map_id _)
    | _ => exact congrArg (fun v ↦ [v]) hc.ofNode_eq
  | _ => rfl

theorem objectValues_borrowed {v : Value} (h : v.UniqueKeys) :
    (borrowed v : Selection Value).objectValues = v.values := by
  cases v with
  | object entries =>
    change Value.array _ = Value.array _
    refine congrArg Value.array ((List.map_congr_left fun w hw ↦ ?_).trans (List.map_id _))
    obtain ⟨e, he, rfl⟩ := List.mem_map.1 hw
    exact (h.of_entry he).ofNode_eq
  | _ => rfl

theorem Sound.flatten_toValue (h : s.Sound) : s.toValue.flatten = s.flatten := by
  cases s with
  | borrowed n =>
    rw [toValue, ← flatten_borrowed (Value.uniqueKeys_ofNode n)]
    exact flatten_ofNode (.borrowed h)
  | owned v => rfl

theorem Sound.objectValues_toValue (h : s.Sound) : s.toValue.values = s.objectValues := by
  cases s with
  | borrowed n =>
    rw [toValue, ← objectValues_borrowed (Value.uniqueKeys_ofNode n)]
    exact objectValues_ofNode (.borrowed h)
  | owned v => rfl

end Selection

namespace Expr

theorem eval_sound {e : Expr} (hn : Lawful n) {s : Selection N} (h : e.eval n = .ok s) :
    s.Sound := by
  have hagrees := e.eval_agrees hn
  rw [h] at hagrees
  generalize e.eval (Value.ofNode n) = r at hagrees
  cases hagrees with
  | ok hs => cases hs with
    | borrowed hm => exact hm
    | owned v => trivial

/-- What is done with the value of an expression is done with what its evaluation gives. -/
theorem evaluate_bind {α : Type} (e : Expr) (hn : Lawful n)
    {f : Selection N → Except EvalError α} {g : Value → Except EvalError α}
    (hfg : ∀ s : Selection N, s.Sound → f s = g s.toValue) :
    e.eval n >>= f = e.evaluate n >>= g := by
  rw [evaluate]
  cases h : e.eval n with
  | error x => rfl
  | ok s => exact hfg s (eval_sound hn h)

theorem evaluate_eq (e : Expr) (n : N) : e.evaluate n = e.eval n >>= fun s ↦ .ok s.toValue := rfl

theorem evaluate_evalFrom (e : Expr) {s : Selection N} (hs : s.Sound) :
    (e.evalFrom s >>= fun s ↦ .ok s.toValue) = e.evaluate s.toValue := by
  cases s with
  | borrowed m => exact (e.evaluate_ofNode hs).symm
  | owned v =>
    rw [evalFrom, bind_assoc]
    rfl

theorem evaluate_current {v : Value} (hv : v.UniqueKeys) : currentNode.evaluate v = .ok v :=
  congrArg Except.ok hv.ofNode_eq

theorem evaluate_field (name : String) {v : Value} (hv : v.UniqueKeys) :
    (field name).evaluate v = .ok ((v.entries.lookup name).getD .null) := by
  rw [evaluate_eq, eval]
  change Except.ok (Selection.ofNode? (v.entries.lookup name)).toValue = _
  cases h : v.entries.lookup name with
  | none => rfl
  | some w =>
    have hw : w.UniqueKeys := by
      cases v with
      | object entries => exact hv.of_entry (Entries.mem_of_lookup h)
      | _ => cases h
    exact congrArg Except.ok hw.ofNode_eq

theorem evaluate_index (i : Int64) {v : Value} (hv : v.UniqueKeys) :
    (index i).evaluate v = .ok ((v.array?.bind fun items ↦
      (Slice.resolveIndex items.length i).bind (items[·]?)).getD .null) := by
  cases v with
  | array items =>
    rw [evaluate_eq, eval]
    change Except.ok (Selection.ofNode? ((Slice.resolveIndex items.length i).bind
      (items[·]?))).toValue = _
    rw [Value.array?, Option.bind_some]
    cases h : (Slice.resolveIndex items.length i).bind (items[·]?) with
    | none => rfl
    | some w =>
      obtain ⟨n, -, hn⟩ := Option.bind_eq_some_iff.1 h
      exact congrArg Except.ok (hv.of_mem (List.mem_of_getElem? hn)).ofNode_eq
  | _ => rfl

theorem evaluate_slice (start stop step : Option Int64) {v : Value} (hv : v.UniqueKeys) :
    (slice start stop step).evaluate v = .ok ((v.array?.map fun items ↦
      Value.array ((Slice.positions items.length start stop step).filterMap (items[·]?))).getD
        .null) := by
  cases v with
  | array items =>
    change Except.ok (Value.array (List.map _ _)) = Except.ok (Value.array _)
    refine congrArg (fun vs ↦ Except.ok (Value.array vs)) ((List.map_congr_left fun w hw ↦ ?_).trans
      (List.map_id _))
    obtain ⟨n, -, hn⟩ := List.mem_filterMap.1 hw
    exact (hv.of_mem (List.mem_of_getElem? hn)).ofNode_eq
  | _ => rfl

theorem evaluate_pipe (left right : Expr) (hn : Lawful n) :
    (pipe left right).evaluate n = left.evaluate n >>= fun u ↦ right.evaluate u := by
  rw [evaluate_eq, eval_pipe, bind_assoc]
  exact evaluate_bind left hn fun s hs ↦ evaluate_evalFrom right hs

theorem evaluate_subexpression (left right : Expr) (hn : Lawful n) :
    (subexpression left right).evaluate n =
      left.evaluate n >>= fun u ↦ if u.isNull then .ok .null else right.evaluate u := by
  rw [evaluate_eq, eval_subexpression, bind_assoc]
  refine evaluate_bind left hn fun s hs ↦ ?_
  rw [hs.isNull_toValue]
  split
  · rfl
  · exact evaluate_evalFrom right hs

theorem evaluate_flatten (inner : Expr) (hn : Lawful n) :
    (flatten inner).evaluate n = inner.evaluate n >>= fun u ↦ .ok u.flatten := by
  rw [evaluate_eq, eval, bind_assoc]
  exact evaluate_bind inner hn fun s hs ↦ congrArg Except.ok hs.flatten_toValue.symm

theorem evaluate_objectValues (inner : Expr) (hn : Lawful n) :
    (objectValues inner).evaluate n = inner.evaluate n >>= fun u ↦ .ok u.values := by
  rw [evaluate_eq, eval, bind_assoc]
  exact evaluate_bind inner hn fun s hs ↦ congrArg Except.ok hs.objectValues_toValue.symm

theorem evaluate_not (inner : Expr) (hn : Lawful n) :
    (not inner).evaluate n = inner.evaluate n >>= fun u ↦ .ok (.bool !u.isTruthy) := by
  rw [evaluate_eq, eval, bind_assoc]
  exact evaluate_bind inner hn fun s hs ↦
    congrArg (fun b ↦ Except.ok (Value.bool !b)) hs.isTruthy_toValue.symm

theorem evaluate_or (left right : Expr) (hn : Lawful n) :
    (or left right).evaluate n =
      left.evaluate n >>= fun u ↦ if u.isTruthy then .ok u else right.evaluate n := by
  rw [evaluate_eq, eval, bind_assoc]
  refine evaluate_bind left hn fun s hs ↦ ?_
  rw [hs.isTruthy_toValue]
  split <;> rfl

theorem evaluate_and (left right : Expr) (hn : Lawful n) :
    (and left right).evaluate n =
      left.evaluate n >>= fun u ↦ if u.isTruthy then right.evaluate n else .ok u := by
  rw [evaluate_eq, eval, bind_assoc]
  refine evaluate_bind left hn fun s hs ↦ ?_
  rw [hs.isTruthy_toValue]
  split <;> rfl

theorem evaluate_comparison (op : Comparator) (left right : Expr) (hn : Lawful n) :
    (comparison op left right).evaluate n =
      left.evaluate n >>= fun u ↦ right.evaluate n >>= fun w ↦ .ok (op.apply u w) := by
  rw [evaluate_eq, eval, bind_assoc]
  refine evaluate_bind left hn fun s hs ↦ ?_
  rw [bind_assoc]
  exact evaluate_bind right hn fun t ht ↦ rfl

theorem evaluate_multiSelectList (items : List Expr) (n : N) :
    (multiSelectList items).evaluate n =
      if DataNode.isNull n then .ok .null else evalItems items n >>= fun vs ↦ .ok (.array vs) := by
  rw [evaluate_eq, eval]
  split
  · rfl
  · rw [bind_assoc]; rfl

theorem evaluate_multiSelectHash (pairs : List (String × Expr)) (n : N) :
    (multiSelectHash pairs).evaluate n =
      if DataNode.isNull n then .ok .null
      else evalPairs pairs n >>= fun entries ↦ .ok (Value.ofPairs entries) := by
  rw [evaluate_eq, eval]
  split
  · rfl
  · rw [bind_assoc]; rfl

theorem evaluate_functionCall (name : String) (args : List Expr) (n : N) :
    (functionCall name args).evaluate n =
      evalArgs args n >>= fun args ↦ Builtin.callByName name args := by
  rw [evaluate_eq, eval, bind_assoc]
  refine bind_congr fun args ↦ ?_
  rw [bind_assoc]
  cases Builtin.callByName name args <;> rfl

theorem evalItems_cons (e : Expr) (es : List Expr) (n : N) :
    evalItems (e :: es) n =
      e.evaluate n >>= fun v ↦ evalItems es n >>= fun vs ↦ .ok (v :: vs) := by
  rw [evalItems, evaluate_eq, bind_assoc]
  rfl

theorem evalPairs_cons (key : String) (e : Expr) (ps : List (String × Expr)) (n : N) :
    evalPairs ((key, e) :: ps) n =
      e.evaluate n >>= fun v ↦ evalPairs ps n >>= fun entries ↦ .ok ((key, v) :: entries) := by
  rw [evalPairs, evaluate_eq, bind_assoc]
  rfl

theorem evalArgs_eq_evalItems {args : List Expr} (h : ∀ e ∈ args, ∀ inner, e ≠ expressionRef inner)
    (n : N) : evalArgs args n = evalItems args n >>= fun vs ↦ .ok (vs.map .value) := by
  induction args with
  | nil => rfl
  | cons e es ih =>
    rw [evalArgs_cons_of_ne (h e List.mem_cons_self),
      ih fun e he ↦ h e (List.mem_cons_of_mem _ he), evalItems_cons, evaluate_eq]
    simp only [bind_assoc]
    rfl

theorem evalArgs_cons_of_ok {e : Expr} {v : Value} (he : e.evaluate n = .ok v)
    (args : List Expr) :
    evalArgs (e :: args) n = evalArgs args n >>= fun args ↦ .ok (.value v :: args) := by
  rw [evaluate_eq] at he
  obtain ⟨s, hs, hv⟩ := Eval.bind_eq_ok.1 he
  cases hv
  have hne : ∀ inner, e ≠ expressionRef inner := by
    rintro inner rfl
    cases hs
  rw [evalArgs_cons_of_ne hne, hs]
  rfl

def keep (predicate body : Expr) : List Value → Except EvalError (List Value)
  | [] => .ok []
  | v :: vs => do
    if (← predicate.evaluate v).isTruthy then
      let u ← body.evaluate v
      let us ← keep predicate body vs
      return if u.isNull then us else u :: us
    else keep predicate body vs

def projected (predicate body : Expr) : Value → Except EvalError Value
  | .array items => return .array (← keep predicate body items)
  | _ => .ok .null

theorem project_eq_keep (predicate body : Expr) {ns : List N} (h : ∀ n ∈ ns, Lawful n) :
    project (fun m ↦ predicate.eval m) (fun m ↦ body.eval m) ns =
      keep predicate body (ns.map Value.ofNode) := by
  induction ns with
  | nil => rfl
  | cons n ns ih =>
    have hn := h n List.mem_cons_self
    rw [List.map_cons, project, keep, ih fun m hm ↦ h m (List.mem_cons_of_mem _ hm),
      evaluate_ofNode predicate hn, evaluate_ofNode body hn]
    refine evaluate_bind predicate hn fun s hs ↦ ?_
    rw [hs.isTruthy_toValue]
    split
    · refine evaluate_bind body hn fun t ht ↦ ?_
      rw [ht.isNull_toValue]
    · rfl

theorem keep_of_uniqueKeys (predicate body : Expr) {items : List Value}
    (h : (Value.array items).UniqueKeys) :
    project (fun m ↦ predicate.eval m) (fun m ↦ body.eval m) items =
      keep predicate body items := by
  rw [project_eq_keep predicate body fun v hv ↦ (h.of_mem hv).lawful]
  exact congrArg (keep predicate body)
    ((List.map_congr_left fun v hv ↦ (h.of_mem hv).ofNode_eq).trans (List.map_id _))

theorem projectArray_eq_projected (predicate body : Expr) {s : Selection N} (hs : s.Sound)
    (hu : s.toValue.UniqueKeys) :
    projectArray (fun m ↦ predicate.eval m) (fun m ↦ body.eval m)
      (fun v ↦ predicate.eval v) (fun v ↦ body.eval v) s = projected predicate body s.toValue := by
  cases s with
  | borrowed n =>
    rw [projectArray, toValue]
    by_cases ha : isArray n
    · have hk : kind n = .array := beq_iff_eq.1 ha
      rw [if_pos ha, ofNode_array hk, projected,
        project_eq_keep predicate body fun m hm ↦ Lawful.of_mem_items hs hk hm]
    · rw [if_neg ha, projected]
      intro items hitems
      have hk := kind_ofNode hs
      rw [hitems] at hk
      exact ha (beq_iff_eq.2 hk.symm)
  | owned v =>
    cases v with
    | array items => exact congrArg (· >>= _) (keep_of_uniqueKeys predicate body hu)
    | _ => rfl

theorem projectObject_eq_projected (predicate body : Expr) {s : Selection N} (hs : s.Sound)
    (hu : s.toValue.values.UniqueKeys) :
    projectObject (fun m ↦ predicate.eval m) (fun m ↦ body.eval m)
      (fun v ↦ predicate.eval v) (fun v ↦ body.eval v) s =
        projected predicate body s.toValue.values := by
  cases s with
  | borrowed n =>
    rw [projectObject, toValue]
    by_cases ho : isObject n
    · have hk : kind n = .object := beq_iff_eq.1 ho
      have hmem {m : N} (hm : m ∈ DataNode.values n) : Lawful m := by
        obtain ⟨e, he, rfl⟩ := List.mem_map.1 hm
        exact Lawful.of_mem_entries hs hk he
      rw [if_pos ho, ofNode_object hs hk, Value.values, projected,
        project_eq_keep predicate body fun m hm ↦ hmem hm, DataNode.values, List.map_map,
        List.map_map]
      rfl
    · rw [if_neg ho]
      have hk : kind (Value.ofNode n) ≠ .object := by
        rw [kind_ofNode hs]
        exact fun hk ↦ ho (beq_iff_eq.2 hk)
      cases hv : Value.ofNode n with
      | object entries => rw [hv] at hk; exact absurd rfl hk
      | _ => rfl
  | owned v =>
    cases v with
    | object entries =>
      exact congrArg (· >>= _) (keep_of_uniqueKeys predicate body hu)
    | _ => rfl

theorem evaluate_filterProjection (source predicate body : Expr) (hn : Lawful n)
    (hu : ∀ u, source.evaluate n = .ok u → u.UniqueKeys) :
    (filterProjection source predicate body).evaluate n =
      source.evaluate n >>= projected predicate body := by
  rw [evaluate_eq, evaluate_eq, eval, bind_assoc, bind_assoc]
  cases h : source.eval n with
  | error x => rfl
  | ok s =>
    have hs := hu s.toValue (by rw [evaluate_eq, h]; rfl)
    change (projectArray _ _ _ _ s >>= _) >>= _ = projected predicate body s.toValue
    rw [projectArray_eq_projected predicate body (eval_sound hn h) hs]
    cases projected predicate body s.toValue <;> rfl

/-- A projection without a predicate is one with a predicate that always holds. -/
theorem evaluate_projection (source body : Expr) (hn : Lawful n)
    (hu : ∀ u, source.evaluate n = .ok u → u.UniqueKeys) :
    (projection source body).evaluate n =
      source.evaluate n >>= projected (.literal (.bool true)) body := by
  by_cases hsource : ∃ inner, source = objectValues inner
  · obtain ⟨inner, rfl⟩ := hsource
    rw [evaluate_objectValues inner hn, evaluate_eq, evaluate_eq, eval]
    cases h : inner.eval n with
    | error x => rfl
    | ok s =>
      have hs := eval_sound hn h
      have hvalues := hu s.toValue.values (by
        rw [evaluate_objectValues inner hn, evaluate_eq, h]
        rfl)
      have hproject := projectObject_eq_projected (.literal (.bool true)) body hs hvalues
      change (projectObject always _ always _ s >>= _) >>= _ = projected _ body s.toValue.values
      change projectObject always _ always _ s = _ at hproject
      rw [hproject]
      cases projected (.literal (.bool true)) body s.toValue.values <;> rfl
  · rw [← evaluate_filterProjection source (.literal (.bool true)) body hn hu, evaluate_eq,
      evaluate_eq, eval_projection_of_ne (not_exists.mp hsource), eval]
    rfl

end Expr

end PathQuery
