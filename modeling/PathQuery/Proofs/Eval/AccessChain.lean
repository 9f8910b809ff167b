import PathQuery.Proofs.Eval.UniqueKeys

namespace PathQuery

open DataNode Eval

variable {N : Type} [DataNode N] {n : N}

namespace Eval

/-- Projecting over the values of an object is projecting over the array of their copies. -/
theorem projectArray_objectValues (body : Expr) {s : Selection N} (hs : s.Sound) :
    projectArray always (fun v ↦ body.eval v) always (fun v ↦ body.eval v)
        (.borrowed s.objectValues : Selection Value) =
      projectObject always (fun m ↦ body.eval m) always (fun v ↦ body.eval v) s := by
  cases s with
  | borrowed n =>
    rw [Selection.objectValues, projectObject]
    by_cases ho : isObject n
    · have hk : kind n = .object := beq_iff_eq.1 ho
      have hmem {m : N} (hm : m ∈ values n) : Lawful m := by
        obtain ⟨e, he, rfl⟩ := List.mem_map.1 hm
        exact Lawful.of_mem_entries hs hk he
      rw [if_pos ho, if_pos ho]
      exact congrArg (· >>= _) (project_ofNode (fun m _ ↦ agrees_always m)
        fun m hm ↦ body.eval_agrees (hmem hm))
    · rw [if_neg ho, if_neg ho]
      rfl
  | owned v => cases v <;> rfl

/-- Two computations that give the same value or both fail, perhaps in different ways. -/
def SameValue {α : Type} (m m' : Except EvalError α) : Prop := ∀ a, m = .ok a ↔ m' = .ok a

namespace SameValue

variable {α β γ : Type} {m m' m'' : Except EvalError α}

theorem refl (m : Except EvalError α) : SameValue m m := fun _ ↦ Iff.rfl

theorem trans (h : SameValue m m') (h' : SameValue m' m'') : SameValue m m'' :=
  fun a ↦ (h a).trans (h' a)

theorem bind {f g : α → Except EvalError β} (h : SameValue m m')
    (hfg : ∀ a, SameValue (f a) (g a)) :
    SameValue (m >>= f) (m' >>= g) := by
  intro b
  rw [bind_eq_ok, bind_eq_ok]
  exact exists_congr fun a ↦ and_congr (h a) (hfg a b)

/-- Which of two computations comes first decides only about the error. -/
theorem swap (m : Except EvalError α) (m' : Except EvalError β)
    (f : α → β → Except EvalError γ) :
    SameValue (m >>= fun a ↦ m' >>= fun b ↦ f a b) (m' >>= fun b ↦ m >>= fun a ↦ f a b) := by
  cases m with
  | ok a => exact refl _
  | error x =>
    cases m' with
    | ok b => exact refl _
    | error y => exact fun _ ↦ ⟨nofun, nofun⟩

end SameValue

end Eval

namespace Expr

variable {x y z : Expr}

/-- The values of an object are projected over as the array that is built of them. -/
theorem evalFrom_objectValues (body : Expr) {s : Selection N} (hs : s.Sound) :
    (projection currentNode body).evalFrom (.owned s.objectValues : Selection N) =
      (do return .owned (← projectObject always (fun m ↦ body.eval m) always
        (fun v ↦ body.eval v) s)) := by
  have hne (inner : Expr) : currentNode ≠ objectValues inner := by
    intro h
    cases h
  rw [← projectArray_objectValues body hs, evalFrom, eval_projection_of_ne hne]
  change (projectArray always _ always _ _ >>= _) >>= _ = _
  cases projectArray always _ always _ (.borrowed s.objectValues : Selection Value) <;> rfl

/-- The way that projects over the entries of an object at once, without building the array of their
values, gives what building it and projecting over it gives. -/
theorem evaluate_wildcard (inner body : Expr) (hn : Lawful n) :
    (projection (objectValues inner) body).evaluate n =
      (pipe (objectValues inner) (projection currentNode body)).evaluate n := by
  refine congrArg (· >>= _) ?_
  rw [eval_pipe, eval, eval, bind_assoc]
  cases h : inner.eval n with
  | error x => rfl
  | ok s => exact (evalFrom_objectValues body (eval_sound hn h)).symm

theorem evaluate_wildcard_of_nested_body :
    Lawful (Json.object [("a", .array [.object [("b", .bool true)], .null]), ("c", .string "d")]) ∧
    (projection (objectValues currentNode) (projection currentNode (field "b"))).evaluate
        (Json.object [("a", .array [.object [("b", .bool true)], .null]), ("c", .string "d")]) =
      (pipe (objectValues currentNode) (projection currentNode
        (projection currentNode (field "b")))).evaluate
        (Json.object [("a", .array [.object [("b", .bool true)], .null]), ("c", .string "d")]) ∧
    (projection (objectValues currentNode) (projection currentNode (field "b"))).evaluate
        (Json.object [("a", .array [.object [("b", .bool true)], .null]), ("c", .string "d")]) =
      .ok (.array [.array [.bool true]]) := by
  have hitem : (Json.object [("b", .bool true)]).UniqueKeys :=
    .object (by simp) (by simpa using .bool true)
  have hdocument : (Json.object
      [("a", .array [.object [("b", .bool true)], .null]), ("c", .string "d")]).UniqueKeys :=
    .object (by simp) (by simpa using ⟨.array (by simpa using ⟨hitem, .null⟩), .string "d"⟩)
  exact ⟨hdocument.lawful, evaluate_wildcard _ _ hdocument.lawful, by rfl⟩

theorem keep_always (body : Expr) (v : Value) (vs : List Value) :
    keep (literal (.bool true)) body (v :: vs) = body.evaluate v >>= fun u ↦
      keep (literal (.bool true)) body vs >>= fun us ↦
        .ok (if u.isNull then us else u :: us) := rfl

/-- What passes two projections passes one that does both steps at each element. The elements are
met in another order then, so another of them may be the first to fail. -/
theorem keep_subexpression (y z : Expr) {vs : List Value} (hvs : ∀ v ∈ vs, v.UniqueKeys) :
    SameValue (keep (literal (.bool true)) y vs >>= keep (literal (.bool true)) z)
      (keep (literal (.bool true)) (subexpression y z) vs) := by
  induction vs with
  | nil => exact .refl _
  | cons v vs ih =>
    obtain ⟨hv, hvs⟩ := List.forall_mem_cons.1 hvs
    have ih := ih hvs
    rw [keep_always, keep_always, evaluate_subexpression y z hv.lawful, bind_assoc, bind_assoc]
    refine .bind (.refl _) fun u ↦ ?_
    rw [bind_assoc]
    cases hu : u.isNull with
    | true =>
      -- A null is dropped before the second step, and stays null through it.
      refine ih.trans ?_
      change SameValue _ (keep (literal (.bool true)) (subexpression y z) vs >>= pure)
      rw [bind_pure]
      exact .refl _
    | false =>
      have hswap := SameValue.swap (keep (literal (.bool true)) y vs) (z.evaluate u) fun us w ↦
        keep (literal (.bool true)) z us >>= fun ws ↦ .ok (if w.isNull then ws else w :: ws)
      refine hswap.trans (.bind (.refl _) fun w ↦ ?_)
      rw [← bind_assoc]
      exact ih.bind fun _ ↦ .refl _

theorem projected_subexpression (y z : Expr) {u : Value} (hu : u.UniqueKeys) :
    SameValue (projected (literal (.bool true)) y u >>= projected (literal (.bool true)) z)
      (projected (literal (.bool true)) (subexpression y z) u) := by
  cases u with
  | array items =>
    have hsteps : projected (literal (.bool true)) y (.array items) >>=
        projected (literal (.bool true)) z = (keep (literal (.bool true)) y items >>=
          keep (literal (.bool true)) z) >>= fun vs ↦ .ok (.array vs) := by
      rw [projected, bind_assoc, bind_assoc]
      rfl
    rw [hsteps]
    exact (keep_subexpression y z fun v hv ↦ hu.of_mem hv).bind fun _ ↦ .refl _
  | _ => exact .refl _

theorem evaluate_subexpression_assoc (y z : Expr) (hx : x.AllLiterals Value.UniqueKeys)
    (hn : Lawful n) :
    (subexpression (subexpression x y) z).evaluate n =
      (subexpression x (subexpression y z)).evaluate n := by
  rw [evaluate_subexpression _ z hn, evaluate_subexpression x y hn, evaluate_subexpression x _ hn,
    bind_assoc]
  cases hu : x.evaluate n with
  | error e => rfl
  | ok u =>
    change ((if u.isNull then Except.ok Value.null else y.evaluate u) >>= fun w ↦
        if w.isNull then Except.ok Value.null else z.evaluate w) =
      if u.isNull then Except.ok Value.null else (subexpression y z).evaluate u
    rw [evaluate_subexpression y z (uniqueKeys_evaluate hx hu).lawful]
    split <;> rfl

theorem evaluate_pipe_assoc (y z : Expr) (hx : x.AllLiterals Value.UniqueKeys) (hn : Lawful n) :
    (pipe (pipe x y) z).evaluate n = (pipe x (pipe y z)).evaluate n := by
  rw [evaluate_pipe _ z hn, evaluate_pipe x y hn, evaluate_pipe x _ hn, bind_assoc]
  cases hu : x.evaluate n with
  | error e => rfl
  | ok u => exact (evaluate_pipe y z (uniqueKeys_evaluate hx hu).lawful).symm

theorem evaluate_projection_projection (z : Expr) (hx : x.AllLiterals Value.UniqueKeys)
    (hy : y.AllLiterals Value.UniqueKeys) (hn : Lawful n) :
    SameValue ((projection (projection x y) z).evaluate n)
      ((projection x (subexpression y z)).evaluate n) := by
  have hprojection : (projection x y).AllLiterals Value.UniqueKeys := ⟨hx, hy⟩
  have hunique {u : Value} (hu : x.evaluate n = .ok u) : u.UniqueKeys := uniqueKeys_evaluate hx hu
  rw [evaluate_projection _ z hn fun u hu ↦ uniqueKeys_evaluate hprojection hu,
    evaluate_projection x y hn fun u hu ↦ hunique hu,
    evaluate_projection x _ hn fun u hu ↦ hunique hu, bind_assoc]
  cases hu : x.evaluate n with
  | error e => exact .refl (.error e)
  | ok u => exact projected_subexpression y z (hunique hu)

/-- Chains of steps can be grouped to the left or to the right: subexpressions and pipes evaluate
identically, and a projection of a projection gives the value of one projection that takes both
steps at each element, or both fail. -/
theorem evaluate_regrouped (z : Expr) (hx : x.AllLiterals Value.UniqueKeys)
    (hy : y.AllLiterals Value.UniqueKeys) (hn : Lawful n) :
    (subexpression (subexpression x y) z).evaluate n =
      (subexpression x (subexpression y z)).evaluate n ∧
    (pipe (pipe x y) z).evaluate n = (pipe x (pipe y z)).evaluate n ∧
    ∀ v, (projection (projection x y) z).evaluate n = .ok v ↔
      (projection x (subexpression y z)).evaluate n = .ok v :=
  ⟨evaluate_subexpression_assoc y z hx hn, evaluate_pipe_assoc y z hx hn,
    evaluate_projection_projection z hx hy hn⟩

/-- Of the elements, one gives no value at the first step and one none at the second. -/
theorem evaluate_regrouped_of_dropped_nulls :
    (field "a").AllLiterals Value.UniqueKeys ∧ (field "b").AllLiterals Value.UniqueKeys ∧
    Lawful (Value.object [("a", .array [.object [("b", .array [.int 1])], .object [("b", .int 2)],
      .int 3])]) ∧
    (projection (projection (field "a") (field "b")) (index 0)).evaluate
        (Value.object [("a", .array [.object [("b", .array [.int 1])], .object [("b", .int 2)],
          .int 3])]) = .ok (.array [.int 1]) ∧
    (projection (field "a") (subexpression (field "b") (index 0))).evaluate
        (Value.object [("a", .array [.object [("b", .array [.int 1])], .object [("b", .int 2)],
          .int 3])]) = .ok (.array [.int 1]) := by
  have hb {v : Value} (hv : v.UniqueKeys) : (Value.object [("b", v)]).UniqueKeys :=
    .object (by simp) (by simpa using hv)
  have hdata : (Value.object [("a", .array [.object [("b", .array [.int 1])],
      .object [("b", .int 2)], .int 3])]).UniqueKeys :=
    .object (by simp) (by simpa using .array (by
      simpa using ⟨hb (.array (by simpa using .int 1)), hb (.int 2), .int 3⟩))
  have hleft : (projection (projection (field "a") (field "b")) (index 0)).evaluate
      (Value.object [("a", .array [.object [("b", .array [.int 1])], .object [("b", .int 2)],
        .int 3])]) = .ok (.array [.int 1]) := by rfl
  have hregrouped := evaluate_regrouped (x := field "a") (y := field "b") (index 0) trivial trivial
    hdata.lawful
  exact ⟨trivial, trivial, hdata.lawful, hleft, (hregrouped.2.2 _).1 hleft⟩

/-- Of two projections, the first one fails at a later element before the second one fails at an
earlier element. -/
example :
    (projection (projection currentNode (functionCall "keys" [currentNode]))
        (functionCall "abs" [currentNode])).evaluate (Value.array [.object [], .null]) =
      .error (.badArguments "keys" (.wrongType 0 [.object] "null")) ∧
    (projection currentNode (subexpression (functionCall "keys" [currentNode])
        (functionCall "abs" [currentNode]))).evaluate (Value.array [.object [], .null]) =
      .error (.badArguments "abs" (.wrongType 0 [.number] "array")) := ⟨by rfl, by rfl⟩

end Expr

end PathQuery
