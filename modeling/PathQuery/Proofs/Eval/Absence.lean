import PathQuery.Node.Recorded
import PathQuery.Proofs.Eval.Copying

namespace PathQuery

namespace DataNode

variable {N : Type} [DataNode N] {n : N}

structure Absent (n : N) : Prop where
  kind : kind n = .null
  field (name : String) : field? n name = none

theorem absent_null : Absent Value.null := ⟨rfl, fun _ ↦ rfl⟩

theorem absent_jsonNull : Absent Json.null := ⟨rfl, fun _ ↦ rfl⟩

namespace Absent

variable (h : Absent n)
include h

theorem isNull : isNull n = true := by rw [DataNode.isNull, h.kind]; rfl

theorem isArray : isArray n = false := by rw [DataNode.isArray, h.kind]; rfl

theorem isObject : isObject n = false := by rw [DataNode.isObject, h.kind]; rfl

theorem isTruthy : isTruthy n = false := by rw [DataNode.isTruthy, h.kind]

theorem ofNode : Value.ofNode n = .null := by rw [Value.ofNode_eq, h.kind]

end Absent

end DataNode

open DataNode Eval

namespace Selection

variable {N : Type} [DataNode N] {s : Selection N}

inductive Absent : Selection N → Prop
  | borrowed {n : N} : DataNode.Absent n → Absent (borrowed n)
  | null : Absent null

namespace Absent

variable (h : Absent s)
include h

theorem isNull : s.isNull = true := by
  cases h with
  | borrowed h => exact h.isNull
  | null => rfl

theorem isTruthy : s.isTruthy = false := by
  cases h with
  | borrowed h => exact h.isTruthy
  | null => rfl

theorem toValue : s.toValue = .null := by
  cases h with
  | borrowed h => exact h.ofNode
  | null => rfl

theorem flatten : s.flatten = .null := by
  cases h with
  | borrowed h => rw [Selection.flatten, h.isArray]; rfl
  | null => rfl

theorem objectValues : s.objectValues = .null := by
  cases h with
  | borrowed h => rw [Selection.objectValues, h.isObject]; rfl
  | null => rfl

variable (test body : N → Except EvalError (Selection N))
  (test' body' : Value → Except EvalError (Selection Value))

/-- There are no elements, so neither the test nor the body is run. -/
theorem projectArray : projectArray test body test' body' s = .ok .null := by
  cases h with
  | borrowed h => rw [Eval.projectArray, h.isArray]; rfl
  | null => rfl

end Absent

/-- What has no values of entries is not projected over as an object. -/
theorem projectObject_of_objectValues (h : s.objectValues = .null)
    (test body : N → Except EvalError (Selection N))
    (test' body' : Value → Except EvalError (Selection Value)) :
    projectObject test body test' body' s = .ok .null := by
  cases s with
  | borrowed n =>
    rw [objectValues] at h
    split at h
    · cases h
    · next hobject => exact if_neg hobject
  | owned v =>
    cases v with
    | object entries => cases h
    | _ => rfl

end Selection

namespace Eval

variable {N : Type} [DataNode N] {m : Except EvalError (Selection N)}
  {f : Selection N → Except EvalError (Selection N)}

def Misses (m : Except EvalError (Selection N)) : Prop := ∃ s, m = .ok s ∧ s.Absent

theorem Misses.null : Misses (.ok .null : Except EvalError (Selection N)) := ⟨_, rfl, .null⟩

theorem Misses.bind (hm : Misses m) (hf : ∀ s, s.Absent → Misses (f s)) : Misses (m >>= f) := by
  obtain ⟨s, rfl, hs⟩ := hm
  exact hf s hs

theorem Misses.owned {g : Selection N → Except EvalError Value} (hm : Misses m)
    (hg : ∀ s, s.Absent → g s = .ok .null) :
    Misses (m >>= fun s ↦ g s >>= fun v ↦ (.ok (.owned v) : Except EvalError (Selection N))) := by
  refine hm.bind fun s hs ↦ ?_
  rw [hg s hs]
  exact .null

theorem Misses.of_owned {g : Selection N → Value}
    (h : Misses (m >>= fun s ↦ (.ok (.owned (g s)) : Except EvalError (Selection N)))) :
    ∃ s, m = .ok s ∧ g s = .null := by
  obtain ⟨t, ht, habsent⟩ := h
  cases m with
  | error x => cases ht
  | ok s =>
    refine ⟨s, rfl, ?_⟩
    rw [← habsent.toValue, ← Except.ok.inj ht]
    rfl

end Eval

namespace Expr

/-- Expressions that give null on null. What they would evaluate on a result that is there may be
anything. -/
inductive Strict : Expr → Prop
  | field (name : String) : Strict (field name)
  | index (i : Int64) : Strict (index i)
  | slice (start stop step : Option Int64) : Strict (slice start stop step)
  | currentNode : Strict currentNode
  | multiSelectList (items : List Expr) : Strict (multiSelectList items)
  | multiSelectHash (pairs : List (String × Expr)) : Strict (multiSelectHash pairs)
  | flatten {inner : Expr} : Strict inner → Strict (flatten inner)
  | objectValues {inner : Expr} : Strict inner → Strict (objectValues inner)
  | subexpression {left : Expr} (right : Expr) : Strict left → Strict (subexpression left right)
  | projection {source : Expr} (body : Expr) : Strict source → Strict (projection source body)
  | filterProjection {source : Expr} (predicate body : Expr) : Strict source →
    Strict (filterProjection source predicate body)
  | and {left : Expr} (right : Expr) : Strict left → Strict (and left right)
  | pipe {left right : Expr} : Strict left → Strict right → Strict (pipe left right)
  | or {left right : Expr} : Strict left → Strict right → Strict (or left right)

variable {N : Type} [DataNode N] {n : N} {e : Expr}

theorem misses_evalFrom {s : Selection N} (hs : s.Absent)
    (he : ∀ n : N, DataNode.Absent n → Misses (e.eval n)) (hv : Misses (e.eval Value.null)) :
    Misses (e.evalFrom s) := by
  cases hs with
  | borrowed hn => exact he _ hn
  | null =>
    obtain ⟨t, ht, habsent⟩ := hv
    refine ⟨.null, ?_, .null⟩
    change (e.eval Value.null >>= fun t ↦ Except.ok (Selection.owned t.toValue)) = _
    rw [ht]
    exact congrArg (fun v ↦ Except.ok (Selection.owned v)) habsent.toValue

theorem misses_projection {source body : Expr} (h : Misses (source.eval n)) :
    Misses ((projection source body).eval n) := by
  by_cases hwildcard : ∃ inner, source = objectValues inner
  · -- The values of the entries are not built on this way, but there would be none.
    obtain ⟨inner, rfl⟩ := hwildcard
    obtain ⟨s, hs, hnone⟩ := h.of_owned (g := Selection.objectValues)
    rw [eval, hs]
    refine ⟨.null, ?_, .null⟩
    exact congrArg (· >>= fun v ↦ Except.ok (Selection.owned v))
      (Selection.projectObject_of_objectValues hnone ..)
  · rw [eval_projection_of_ne (not_exists.mp hwildcard)]
    exact h.owned fun s hs ↦ hs.projectArray ..

/-- The node may be one of any data: behind a pipe it is a value that was built on the way. -/
theorem Strict.misses (h : e.Strict) {N : Type} [DataNode N] {n : N} (hn : Absent n) :
    Misses (e.eval n) := by
  induction h generalizing N with
  | field name =>
    rw [eval, hn.field name]
    exact .null
  | index i =>
    rw [eval, DataNode.item, hn.isArray]
    exact .null
  | slice start stop step =>
    rw [eval, DataNode.slice, hn.isArray]
    exact .null
  | currentNode => exact ⟨.borrowed n, rfl, .borrowed hn⟩
  | multiSelectList items =>
    rw [eval, if_pos hn.isNull]
    exact .null
  | multiSelectHash pairs =>
    rw [eval, if_pos hn.isNull]
    exact .null
  | flatten _ ih =>
    exact (ih hn).owned (g := fun s ↦ .ok s.flatten) fun s hs ↦ congrArg Except.ok hs.flatten
  | objectValues _ ih =>
    exact (ih hn).owned (g := fun s ↦ .ok s.objectValues)
      fun s hs ↦ congrArg Except.ok hs.objectValues
  | subexpression right _ ih =>
    rw [eval_subexpression]
    refine (ih hn).bind fun s hs ↦ ?_
    rw [if_pos hs.isNull]
    exact .null
  | projection body _ ih => exact misses_projection (ih hn)
  | filterProjection predicate body _ ih => exact (ih hn).owned fun s hs ↦ hs.projectArray ..
  | and right _ ih =>
    refine (ih hn).bind fun s hs ↦ ?_
    rw [hs.isTruthy]
    exact ⟨s, rfl, hs⟩
  | pipe _ _ ihl ihr =>
    rw [eval_pipe]
    exact (ihl hn).bind fun s hs ↦ misses_evalFrom hs (fun _ ↦ ihr) (ihr absent_null)
  | or _ _ ihl ihr =>
    refine (ihl hn).bind fun s hs ↦ ?_
    rw [hs.isTruthy]
    exact ihr hn

/-- What is missing stays missing: a strict expression evaluates to null on a node that is null and
has no fields, on the value null and on the document null, whatever its other parts are. -/
theorem evaluate_absent (h : e.Strict) :
    (∀ {N : Type} [DataNode N] (n : N), kind n = .null → (∀ name, field? n name = none) →
      e.evaluate n = .ok .null) ∧
    e.evaluate Value.null = .ok .null ∧ e.evaluate Json.null = .ok .null := by
  have hevaluate {N : Type} [DataNode N] {n : N} (hn : Absent n) : e.evaluate n = .ok .null := by
    obtain ⟨s, hs, habsent⟩ := h.misses hn
    rw [evaluate, hs]
    exact congrArg Except.ok habsent.toValue
  exact ⟨fun n hkind hfield ↦ hevaluate ⟨hkind, hfield⟩, hevaluate absent_null,
    hevaluate absent_jsonNull⟩

theorem evaluate_absent_of_failing_body :
    (projection (objectValues (pipe (field "a") (index 0))) (functionCall "abs" [])).Strict ∧
    (projection (objectValues (pipe (field "a") (index 0))) (functionCall "abs" [])).evaluate
      (Recorded.mk .null (some true) none none none (some 2)
        [.mk .null none none none none none [] []] []) = .ok .null := by
  have hstrict : (projection (objectValues (pipe (field "a") (index 0)))
      (functionCall "abs" [])).Strict :=
    .projection _ (.objectValues (.pipe (.field "a") (.index 0)))
  exact ⟨hstrict, (evaluate_absent hstrict).1 _ rfl fun _ ↦ rfl⟩

end Expr

end PathQuery
