import PathQuery.Proofs.Eval.Representation

namespace PathQuery

namespace DataNode

variable {N : Type} [DataNode N]

structure AgreeOn (names : List String) (n m : N) : Prop where
  isNull : isNull n = isNull m
  field {name : String} : name ∈ names → field? n name = field? m name

theorem AgreeOn.of_objects {names : List String} {n m : N} (hn : kind n = .object)
    (hm : kind m = .object) (h : ∀ name ∈ names, field? n name = field? m name) :
    AgreeOn names n m where
  isNull := by rw [DataNode.isNull, DataNode.isNull, hn, hm]
  field := h _

end DataNode

open DataNode

namespace Expr

/-- Expressions that look into their input only through fields, the names of which are among the
given ones. What is evaluated on a result, and what a function is given unevaluated, may be
anything. -/
inductive Confined (names : List String) : Expr → Prop
  | field {name : String} : name ∈ names → Confined names (field name)
  | literal (v : Value) : Confined names (literal v)
  | subexpression {left : Expr} (right : Expr) : Confined names left →
    Confined names (subexpression left right)
  | pipe {left : Expr} (right : Expr) : Confined names left → Confined names (pipe left right)
  | projection {source : Expr} (body : Expr) : Confined names source →
    Confined names (projection source body)
  | filterProjection {source : Expr} (predicate body : Expr) : Confined names source →
    Confined names (filterProjection source predicate body)
  | flatten {inner : Expr} : Confined names inner → Confined names (flatten inner)
  | objectValues {inner : Expr} : Confined names inner → Confined names (objectValues inner)
  | not {inner : Expr} : Confined names inner → Confined names (not inner)
  | or {left right : Expr} : Confined names left → Confined names right →
    Confined names (or left right)
  | and {left right : Expr} : Confined names left → Confined names right →
    Confined names (and left right)
  | comparison (op : Comparator) {left right : Expr} : Confined names left →
    Confined names right → Confined names (comparison op left right)
  | multiSelectList {items : List Expr} : (∀ e ∈ items, Confined names e) →
    Confined names (multiSelectList items)
  | multiSelectHash {pairs : List (String × Expr)} : (∀ p ∈ pairs, Confined names p.2) →
    Confined names (multiSelectHash pairs)
  | functionCall (name : String) {args : List Expr} :
    (∀ e ∈ args, (∀ inner, e ≠ expressionRef inner) → Confined names e) →
    Confined names (functionCall name args)

variable {names : List String} {N : Type} [DataNode N] {n m : N}

theorem eval_projection_congr {source body : Expr} (hne : ∀ inner, source ≠ objectValues inner)
    (h : source.eval n = source.eval m) :
    (projection source body).eval n = (projection source body).eval m := by
  rw [eval_projection_of_ne hne, eval_projection_of_ne hne, h]

mutual

/-- A confined expression takes the same steps on nodes that agree. -/
theorem eval_eq_of_agreeOn (h : AgreeOn names n m) : (e : Expr) → e.Confined names →
    e.eval n = e.eval m
  | field name, .field hname => by rw [eval, eval, h.field hname]
  | literal _, _ => rfl
  | subexpression left right, .subexpression _ hl => by
    rw [eval_subexpression, eval_subexpression, eval_eq_of_agreeOn h left hl]
  | pipe left right, .pipe _ hl => by
    rw [eval_pipe, eval_pipe, eval_eq_of_agreeOn h left hl]
  | projection source body, .projection _ hs => by
    cases source with
    | objectValues inner =>
      cases hs with
      | objectValues hi => rw [eval, eval, eval_eq_of_agreeOn h inner hi]
    | _ => exact eval_projection_congr (fun _ h ↦ nomatch h) (eval_eq_of_agreeOn h _ hs)
  | filterProjection source _ _, .filterProjection _ _ hs => by
    rw [eval, eval, eval_eq_of_agreeOn h source hs]
  | flatten inner, .flatten hi => by rw [eval, eval, eval_eq_of_agreeOn h inner hi]
  | objectValues inner, .objectValues hi => by rw [eval, eval, eval_eq_of_agreeOn h inner hi]
  | not inner, .not hi => by rw [eval, eval, eval_eq_of_agreeOn h inner hi]
  | or left right, .or hl hr => by
    rw [eval, eval, eval_eq_of_agreeOn h left hl, eval_eq_of_agreeOn h right hr]
  | and left right, .and hl hr => by
    rw [eval, eval, eval_eq_of_agreeOn h left hl, eval_eq_of_agreeOn h right hr]
  | comparison _ left right, .comparison _ hl hr => by
    rw [eval, eval, eval_eq_of_agreeOn h left hl, eval_eq_of_agreeOn h right hr]
  | multiSelectList items, .multiSelectList hitems => by
    rw [eval, eval, h.isNull, evalItems_eq_of_agreeOn h items hitems]
  | multiSelectHash pairs, .multiSelectHash hpairs => by
    rw [eval, eval, h.isNull, evalPairs_eq_of_agreeOn h pairs hpairs]
  | functionCall _ args, .functionCall _ hargs => by
    rw [eval, eval, evalArgs_eq_of_agreeOn h args hargs]
termination_by structural e => e

theorem evalItems_eq_of_agreeOn (h : AgreeOn names n m) : (es : List Expr) →
    (∀ e ∈ es, e.Confined names) → evalItems es n = evalItems es m
  | [], _ => rfl
  | e :: es, hes => by
    obtain ⟨he, hes⟩ := List.forall_mem_cons.1 hes
    rw [evalItems, evalItems, eval_eq_of_agreeOn h e he, evalItems_eq_of_agreeOn h es hes]
termination_by structural es => es

theorem evalPairs_eq_of_agreeOn (h : AgreeOn names n m) : (ps : List (String × Expr)) →
    (∀ p ∈ ps, p.2.Confined names) → evalPairs ps n = evalPairs ps m
  | [], _ => rfl
  | (key, e) :: ps, hps => by
    obtain ⟨he, hps⟩ := List.forall_mem_cons.1 hps
    rw [evalPairs, evalPairs, eval_eq_of_agreeOn h e he, evalPairs_eq_of_agreeOn h ps hps]
termination_by structural ps => ps

theorem evalArgs_eq_of_agreeOn (h : AgreeOn names n m) : (es : List Expr) →
    (∀ e ∈ es, (∀ inner, e ≠ expressionRef inner) → e.Confined names) →
    evalArgs es n = evalArgs es m
  | [], _ => rfl
  | e :: es, hes => by
    obtain ⟨he, hes⟩ := List.forall_mem_cons.1 hes
    have ih := evalArgs_eq_of_agreeOn h es hes
    by_cases href : ∃ inner, e = expressionRef inner
    · obtain ⟨inner, rfl⟩ := href
      rw [evalArgs, evalArgs, ih]
    · have hne := not_exists.mp href
      rw [evalArgs_cons_of_ne hne, evalArgs_cons_of_ne hne, eval_eq_of_agreeOn h e (he hne), ih]
termination_by structural es => es

end

/-- What a confined expression gives depends on the named fields of an object alone: on two objects
that have the same ones it evaluates to the same value or error, also where the objects are
represented in two ways. -/
theorem evaluate_confined {e : Expr} (he : e.Confined names) :
    (∀ {N : Type} [DataNode N] (n m : N), kind n = .object → kind m = .object →
      (∀ name ∈ names, field? n name = field? m name) → e.evaluate n = e.evaluate m) ∧
    ∀ {N M : Type} [DataNode N] [DataNode M] (n : N) (m : M), Lawful n → Lawful m →
      kind n = .object → kind m = .object →
      (∀ name ∈ names, (field? n name).map Value.ofNode = (field? m name).map Value.ofNode) →
      e.evaluate n = e.evaluate m := by
  have hsame {N : Type} [DataNode N] (n m : N) (hn : kind n = .object) (hm : kind m = .object)
      (h : ∀ name ∈ names, field? n name = field? m name) : e.evaluate n = e.evaluate m :=
    congrArg (· >>= _) (eval_eq_of_agreeOn (.of_objects hn hm h) e he)
  refine ⟨hsame, fun n m hn hm hkn hkm h ↦ ?_⟩
  rw [← e.evaluate_ofNode hn, ← e.evaluate_ofNode hm]
  refine hsame _ _ ((kind_ofNode hn).trans hkn) ((kind_ofNode hm).trans hkm) fun name hname ↦ ?_
  rw [field_ofNode hn, field_ofNode hm, h name hname]

/-- A call with a reference, on values and a document that differ in every other field. -/
theorem evaluate_confined_of_reference :
    (functionCall "max_by" [field "a", expressionRef (field "b")]).Confined ["a"] ∧
    Lawful (Value.object [("b", .null), ("a", .array [.object [("b", .string "x")]])]) ∧
    Lawful (Json.object [("a", .array [.object [("b", .string "x")]]), ("c", .bool true)]) ∧
    (functionCall "max_by" [field "a", expressionRef (field "b")]).evaluate
        (Value.object [("a", .array [.object [("b", .string "x")]])]) =
      .ok (.object [("b", .string "x")]) ∧
    (functionCall "max_by" [field "a", expressionRef (field "b")]).evaluate
        (Value.object [("b", .null), ("a", .array [.object [("b", .string "x")]])]) =
      .ok (.object [("b", .string "x")]) ∧
    (functionCall "max_by" [field "a", expressionRef (field "b")]).evaluate
        (Json.object [("a", .array [.object [("b", .string "x")]]), ("c", .bool true)]) =
      .ok (.object [("b", .string "x")]) := by
  have hconfined :
      (functionCall "max_by" [field "a", expressionRef (field "b")]).Confined ["a"] := by
    refine .functionCall _ (List.forall_mem_cons.2 ⟨fun _ ↦ .field List.mem_cons_self, ?_⟩)
    exact List.forall_mem_singleton.2 fun hne ↦ absurd rfl (hne _)
  have hvalue : (Value.object
      [("b", .null), ("a", .array [.object [("b", .string "x")]])]).UniqueKeys := by
    refine .object (by simp) (List.forall_mem_cons.2 ⟨.null, List.forall_mem_singleton.2 ?_⟩)
    exact .array (List.forall_mem_singleton.2 (.object (by simp) (by simpa using .string "x")))
  have hdocument : (Json.object
      [("a", .array [.object [("b", .string "x")]]), ("c", .bool true)]).UniqueKeys := by
    refine .object (by simp) (List.forall_mem_cons.2 ⟨?_, List.forall_mem_singleton.2 (.bool true)⟩)
    exact .array (List.forall_mem_singleton.2 (.object (by simp) (by simpa using .string "x")))
  have hsmall : (functionCall "max_by" [field "a", expressionRef (field "b")]).evaluate
      (Value.object [("a", .array [.object [("b", .string "x")]])]) =
        .ok (.object [("b", .string "x")]) := by rfl
  obtain ⟨hsame, hacross⟩ := evaluate_confined hconfined
  have hlarge := (hsame (Value.object [("b", .null), ("a", .array [.object [("b", .string "x")]])])
    (Value.object [("a", .array [.object [("b", .string "x")]])])
    rfl rfl (by simp; rfl)).trans hsmall
  refine ⟨hconfined, hvalue.lawful, hdocument.lawful, hsmall, hlarge, ?_⟩
  exact (hacross _ _ hdocument.lawful hvalue.lawful rfl rfl (by simp; rfl)).trans hlarge

end Expr

end PathQuery
