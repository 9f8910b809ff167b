import PathQuery.Proofs.Eval.Copying
import PathQuery.Proofs.Expr.WellFormed
import PathQuery.Proofs.Function.Errors

namespace PathQuery

open Eval

namespace Eval

variable {N : Type} [DataNode N] {P : EvalError → Prop}
  {test body : N → Except EvalError (Selection N)}
  {test' body' : Value → Except EvalError (Selection Value)}

namespace FailsOnly

omit [DataNode N] in
theorem always (n : N) : FailsOnly P (always n) := .ok _

theorem project (ht : ∀ n, FailsOnly P (test n)) (hb : ∀ n, FailsOnly P (body n)) (ns : List N) :
    FailsOnly P (project test body ns) := by
  induction ns with
  | nil => exact .ok []
  | cons n ns ih =>
    rw [Eval.project]
    refine (ht n).bind fun s _ ↦ ?_
    split
    · exact (hb n).bind fun _ _ ↦ ih.bind fun _ _ ↦ .ok _
    · exact ih

variable (ht : ∀ n, FailsOnly P (test n)) (hb : ∀ n, FailsOnly P (body n))
  (ht' : ∀ v, FailsOnly P (test' v)) (hb' : ∀ v, FailsOnly P (body' v))
include ht hb ht' hb'

theorem projectArray (s : Selection N) : FailsOnly P (projectArray test body test' body' s) := by
  cases s with
  | borrowed n =>
    rw [Eval.projectArray]
    split
    · exact (FailsOnly.project ht hb _).map
    · exact .ok _
  | owned v =>
    cases v with
    | array items => exact (FailsOnly.project ht' hb' items).map
    | _ => exact .ok _

theorem projectObject (s : Selection N) : FailsOnly P (projectObject test body test' body' s) := by
  cases s with
  | borrowed n =>
    rw [Eval.projectObject]
    split
    · exact (FailsOnly.project ht hb _).map
    · exact .ok _
  | owned v =>
    cases v with
    | object entries => exact (FailsOnly.project ht' hb' _).map
    | _ => exact .ok _

end FailsOnly

end Eval

namespace Expr

/-- The error is one of a call in the tree: of a function of the language, with as many arguments as
the call is written with. -/
def Raises (root : Expr) (x : EvalError) : Prop :=
  ∃ above name args f, NodeAt root above (functionCall name args) ∧
    Builtin.ofName? name = some f ∧ f.Raises args.length x

def Evaluated (root : Expr) (above : List (Expr × Place)) (e : Expr) : Prop :=
  NodeAt root above e ∧ ∀ inner, e = expressionRef inner →
    ∀ name args rest, above ≠ (functionCall name args, .argument) :: rest

variable {root e : Expr} {above : List (Expr × Place)} {N : Type} [DataNode N]
  {P : EvalError → Prop}

theorem Evaluated.part {y : Expr} {place : Place} (h : Evaluated root above e)
    (hy : (place, y) ∈ e.parts) (hplace : place ≠ .argument) :
    Evaluated root ((e, place) :: above) y := by
  refine ⟨.part h.1 hy, ?_⟩
  rintro inner - name args rest ⟨⟩
  exact hplace rfl

theorem failsOnly_evalFrom {M : Type} [DataNode M] (he : ∀ m : M, FailsOnly P (e.eval m))
    (hv : ∀ v : Value, FailsOnly P (e.eval v)) (s : Selection M) : FailsOnly P (e.evalFrom s) := by
  cases s with
  | borrowed m => exact he m
  | owned v => exact (hv v).map

theorem failsOnly_projection {source body : Expr} {n : N}
    (hne : ∀ inner, source ≠ objectValues inner) (hs : FailsOnly P (source.eval n))
    (hb : ∀ n : N, FailsOnly P (body.eval n)) (hv : ∀ v : Value, FailsOnly P (body.eval v)) :
    FailsOnly P ((projection source body).eval n) := by
  rw [eval_projection_of_ne hne]
  exact hs.bind fun s _ ↦ (FailsOnly.projectArray FailsOnly.always hb FailsOnly.always hv s).map

/-- The arguments of a call fail, when they are evaluated and when the function uses its references,
only with errors that `P` allows. -/
structure ArgumentsFailOnly (P : EvalError → Prop) (es : List Expr) (n : N) : Prop where
  evaluation : FailsOnly P (evalArgs es n)
  references {args : List Arg} : evalArgs es n = .ok args → ∀ a ∈ args, a.FailsOnly P

namespace ArgumentsFailOnly

variable {es : List Expr} {n : N}

theorem value (hne : ∀ inner, e ≠ expressionRef inner) (he : FailsOnly P (e.eval n))
    (hes : ArgumentsFailOnly P es n) : ArgumentsFailOnly P (e :: es) n where
  evaluation := by
    rw [evalArgs_cons_of_ne hne]
    exact he.bind fun _ _ ↦ hes.evaluation.map
  references h := by
    rw [evalArgs_cons_of_ne hne] at h
    obtain ⟨s, -, h⟩ := bind_eq_ok.1 h
    obtain ⟨args, hargs, h⟩ := bind_eq_ok.1 h
    cases h
    exact List.forall_mem_cons.2 ⟨trivial, hes.references hargs⟩

theorem reference (he : ∀ v : Value, FailsOnly P (e.eval v)) (hes : ArgumentsFailOnly P es n) :
    ArgumentsFailOnly P (expressionRef e :: es) n where
  evaluation := hes.evaluation.map
  references h := by
    obtain ⟨args, hargs, h⟩ := bind_eq_ok.1 h
    cases h
    exact List.forall_mem_cons.2 ⟨fun v ↦ (he v).map, hes.references hargs⟩

end ArgumentsFailOnly

theorem length_of_evalArgs {es : List Expr} {n : N} {args : List Arg}
    (h : evalArgs es n = .ok args) : args.length = es.length := by
  induction es generalizing args with
  | nil =>
    cases h
    rfl
  | cons e es ih =>
    have hlength (a : Arg) (rest : List Arg) (hrest : evalArgs es n = .ok rest) :
        (a :: rest).length = (e :: es).length := congrArg Nat.succ (ih hrest)
    by_cases he : ∃ inner, e = expressionRef inner
    · obtain ⟨inner, rfl⟩ := he
      obtain ⟨rest, hrest, h⟩ := bind_eq_ok.1 h
      cases h
      exact hlength _ rest hrest
    · rw [evalArgs_cons_of_ne (not_exists.mp he)] at h
      obtain ⟨s, -, h⟩ := bind_eq_ok.1 h
      obtain ⟨rest, hrest, h⟩ := bind_eq_ok.1 h
      cases h
      exact hlength _ rest hrest

mutual

/-- Evaluation ends, if in an error, in one of a call in the tree. -/
theorem failsOnly_eval (hroot : root.WellFormed) : (e : Expr) → {above : List (Expr × Place)} →
    Evaluated root above e → ∀ {N : Type} [DataNode N] (n : N),
      FailsOnly root.Raises (e.eval n)
  | field _, _, _, _, _, _ => .ok _
  | index _, _, _, _, _, _ => .ok _
  | slice .., _, _, _, _, _ => .ok _
  | flatten inner, _, h, _, _, n =>
    (failsOnly_eval hroot inner (h.part (.head _) nofun) n).map
  | objectValues inner, _, h, _, _, n =>
    (failsOnly_eval hroot inner (h.part (.head _) nofun) n).map
  | subexpression left right, _, h, _, _, n => by
    have hl := h.part (.head _) nofun
    have hr := h.part (.tail _ (.head _)) nofun
    rw [eval_subexpression]
    refine (failsOnly_eval hroot left hl n).bind fun s _ ↦ ?_
    split
    · exact .ok _
    · exact failsOnly_evalFrom (failsOnly_eval hroot right hr) (failsOnly_eval hroot right hr) s
  | pipe left right, _, h, _, _, n => by
    have hl := h.part (.head _) nofun
    have hr := h.part (.tail _ (.head _)) nofun
    rw [eval_pipe]
    refine (failsOnly_eval hroot left hl n).bind fun s _ ↦ ?_
    exact failsOnly_evalFrom (failsOnly_eval hroot right hr) (failsOnly_eval hroot right hr) s
  | projection source body, _, h, _, _, n => by
    have hs := h.part (.head _) nofun
    have hb := h.part (.tail _ (.head _)) nofun
    cases source with
    | objectValues inner =>
      have hi := hs.part (.head _) nofun
      refine (failsOnly_eval hroot inner hi n).bind fun s _ ↦ ?_
      exact (FailsOnly.projectObject FailsOnly.always (failsOnly_eval hroot body hb)
        FailsOnly.always (failsOnly_eval hroot body hb) s).map
    | _ =>
      exact failsOnly_projection (fun _ h ↦ nomatch h) (failsOnly_eval hroot _ hs n)
        (failsOnly_eval hroot body hb) (failsOnly_eval hroot body hb)
  | filterProjection source predicate body, _, h, _, _, n => by
    have hs := h.part (.head _) nofun
    have hp := h.part (.tail _ (.head _)) nofun
    have hb := h.part (.tail _ (.tail _ (.head _))) nofun
    refine (failsOnly_eval hroot source hs n).bind fun s _ ↦ ?_
    exact (FailsOnly.projectArray (failsOnly_eval hroot predicate hp) (failsOnly_eval hroot body hb)
      (failsOnly_eval hroot predicate hp) (failsOnly_eval hroot body hb) s).map
  | multiSelectList items, _, h, _, _, n => by
    rw [eval]
    split
    · exact .ok _
    · exact (failsOnly_evalItems hroot items
        (fun e he ↦ h.part (List.mem_map_of_mem he) nofun) n).map
  | multiSelectHash pairs, _, h, _, _, n => by
    rw [eval]
    split
    · exact .ok _
    · exact (failsOnly_evalPairs hroot pairs
        (fun p hp ↦ h.part (List.mem_map_of_mem hp) nofun) n).map
  | or left right, _, h, _, _, n => by
    refine (failsOnly_eval hroot left (h.part (.head _) nofun) n).bind fun s _ ↦ ?_
    split
    · exact .ok _
    · exact failsOnly_eval hroot right (h.part (.tail _ (.head _)) nofun) n
  | and left right, _, h, _, _, n => by
    refine (failsOnly_eval hroot left (h.part (.head _) nofun) n).bind fun s _ ↦ ?_
    split
    · exact failsOnly_eval hroot right (h.part (.tail _ (.head _)) nofun) n
    · exact .ok _
  | not inner, _, h, _, _, n => (failsOnly_eval hroot inner (h.part (.head _) nofun) n).map
  | comparison op left right, _, h, _, _, n =>
    (failsOnly_eval hroot left (h.part (.head _) nofun) n).bind fun _ _ ↦
      (failsOnly_eval hroot right (h.part (.tail _ (.head _)) nofun) n).map
  | functionCall name args, _, h, _, _, n => by
    have hargs := failsOnly_evalArgs hroot args
      (fun e he ↦ .part h.1 (List.mem_map_of_mem he)) n
    refine hargs.evaluation.bind fun as has ↦ FailsOnly.map ?_
    obtain ⟨f, hf⟩ := Option.isSome_iff_exists.1 (hroot.registered h.1)
    rw [Builtin.callByName, hf]
    refine Builtin.failsOnly_call (hargs.references has) fun x hx ↦ ?_
    exact ⟨_, name, args, f, h.1, hf, length_of_evalArgs has ▸ hx⟩
  | expressionRef inner, above, h, _, _, _ => by
    obtain ⟨name, args, rest, habove⟩ := hroot.reference h.1
    exact absurd habove (h.2 inner rfl name args rest)
  | currentNode, _, _, _, _, _ => .ok _
  | literal _, _, _, _, _, _ => .ok _
termination_by structural e => e

theorem failsOnly_evalItems (hroot : root.WellFormed) : (es : List Expr) →
    {above : List (Expr × Place)} → (∀ e ∈ es, Evaluated root above e) →
      ∀ {N : Type} [DataNode N] (n : N), FailsOnly root.Raises (evalItems es n)
  | [], _, _, _, _, _ => .ok []
  | e :: es, _, h, _, _, n => by
    obtain ⟨he, hes⟩ := List.forall_mem_cons.1 h
    exact (failsOnly_eval hroot e he n).bind fun _ _ ↦ (failsOnly_evalItems hroot es hes n).map
termination_by structural es => es

theorem failsOnly_evalPairs (hroot : root.WellFormed) : (ps : List (String × Expr)) →
    {above : List (Expr × Place)} → (∀ p ∈ ps, Evaluated root above p.2) →
      ∀ {N : Type} [DataNode N] (n : N), FailsOnly root.Raises (evalPairs ps n)
  | [], _, _, _, _, _ => .ok []
  | (key, e) :: ps, _, h, _, _, n => by
    obtain ⟨he, hps⟩ := List.forall_mem_cons.1 h
    exact (failsOnly_eval hroot e he n).bind fun _ _ ↦ (failsOnly_evalPairs hroot ps hps n).map
termination_by structural ps => ps

theorem failsOnly_evalArgs (hroot : root.WellFormed) : (es : List Expr) →
    {above : List (Expr × Place)} → (∀ e ∈ es, NodeAt root above e) →
      ∀ {N : Type} [DataNode N] (n : N), ArgumentsFailOnly root.Raises es n
  | [], _, _, _, _, _ => ⟨.ok [], by rintro _ ⟨⟩; exact nofun⟩
  | e :: es, _, h, _, _, n => by
    obtain ⟨he, hes⟩ := List.forall_mem_cons.1 h
    have hrest := failsOnly_evalArgs hroot es hes n
    cases e with
    | expressionRef inner =>
      have hinner : Evaluated root ((expressionRef inner, .inner) :: _) inner :=
        ⟨.part he (.head _), by rintro _ - _ _ _ ⟨⟩⟩
      exact .reference (failsOnly_eval hroot inner hinner) hrest
    | _ => exact .value (fun _ h ↦ nomatch h) (failsOnly_eval hroot _ ⟨he, nofun⟩ n) hrest
termination_by structural es => es

end

end Expr

namespace Query

variable {text : String} {q : Query}

/-- A query fails only at one of its calls: an argument is not what the function takes, or the keys
that it orders items by have no order. A query without calls gives a result on all data. -/
theorem error_of_evaluateNode (hq : compile text = .ok q) {N : Type} [DataNode N] (n : N) :
    (∀ x, q.evaluateNode n = .error x →
      (∃ above name args f, Expr.NodeAt q.expr above (.functionCall name args) ∧
        Builtin.ofName? name = some f ∧ f.Raises args.length x) ∧
      x ≠ .strayReference ∧ ∀ name position, x ≠ .badArguments name .unknownFunction ∧
        x ≠ .badArguments name (.notReference position)) ∧
    ((∀ above name args, ¬ Expr.NodeAt q.expr above (.functionCall name args)) →
      ∃ v, q.evaluateNode n = .ok v) := by
  have hevaluated : Expr.Evaluated q.expr [] q.expr := ⟨.root, nofun⟩
  have hfails : FailsOnly q.expr.Raises (q.evaluateNode n) :=
    (Expr.failsOnly_eval (wellFormed_of_compile hq) q.expr hevaluated n).map
  refine ⟨fun x hx ↦ ?_, fun hcalls ↦ ?_⟩
  · obtain ⟨above, name, args, f, hcall, hname, hf⟩ := hfails x hx
    exact ⟨⟨above, name, args, f, hcall, hname, hf⟩, hf.ne⟩
  · cases hv : q.evaluateNode n with
    | ok v => exact ⟨v, rfl⟩
    | error x =>
      obtain ⟨above, name, args, -, hcall, -⟩ := hfails x hv
      exact absurd hcall (hcalls above name args)

theorem error_of_evaluateNode_sortBy :
    compile "sort_by(@, &a)" = .ok ⟨"sort_by(@, &a)",
      .functionCall "sort_by" [.currentNode, .expressionRef (.field "a")]⟩ ∧
    (Query.mk "sort_by(@, &a)"
      (.functionCall "sort_by" [.currentNode, .expressionRef (.field "a")])).evaluateNode
        (Json.array [.object [("a", .number (.natural 1))], .object [("a", .string "x")]]) =
      .error (.mixedKeys .sortBy .number .string) ∧
    (∃ above name args f,
      Expr.NodeAt (.functionCall "sort_by" [.currentNode, .expressionRef (.field "a")]) above
        (.functionCall name args) ∧ Builtin.ofName? name = some f ∧
        f.Raises args.length (.mixedKeys .sortBy .number .string)) ∧
    compile "a" = .ok ⟨"a", .field "a"⟩ ∧
    ∃ v, (Query.mk "a" (.field "a")).evaluateNode (Json.bool true) = .ok v := by
  have htokens : Token.ofString "sort_by(@, &a)" = .ok
      [⟨.identifier "sort_by", "sort_by", 0⟩, ⟨.symbol .leftParen, "(", 7⟩,
        ⟨.symbol .current, "@", 8⟩, ⟨.symbol .comma, ",", 9⟩, ⟨.symbol .ampersand, "&", 11⟩,
        ⟨.identifier "a", "a", 12⟩, ⟨.symbol .rightParen, ")", 13⟩, ⟨.endOfInput, "", 14⟩] := rfl
  have hsort : compile "sort_by(@, &a)" = .ok ⟨"sort_by(@, &a)",
      .functionCall "sort_by" [.currentNode, .expressionRef (.field "a")]⟩ := by
    rw [compile_eq_of_tokens htokens]
    rfl
  have hfield : compile "a" = .ok ⟨"a", .field "a"⟩ := by cbv
  have hmixed : (Query.mk "sort_by(@, &a)"
      (.functionCall "sort_by" [.currentNode, .expressionRef (.field "a")])).evaluateNode
        (Json.array [.object [("a", .number (.natural 1))], .object [("a", .string "x")]]) =
      .error (.mixedKeys .sortBy .number .string) := rfl
  have hroot (above : List (Expr × Expr.Place)) (x : Expr)
      (h : Expr.NodeAt (.field "a") above x) : x = .field "a" := by
    induction h with
    | root => rfl
    | part _ hpart ih => cases ih ▸ hpart
  refine ⟨hsort, hmixed, ((error_of_evaluateNode hsort _).1 _ hmixed).1, hfield, ?_⟩
  refine (error_of_evaluateNode hfield _).2 fun above name args hcall ↦ ?_
  cases hroot above _ hcall

end Query

end PathQuery
