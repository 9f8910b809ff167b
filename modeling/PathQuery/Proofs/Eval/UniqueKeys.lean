import PathQuery.Proofs.Eval.Compositional
import PathQuery.Proofs.Parser.Literals
import PathQuery.Proofs.Value.Transfer

namespace PathQuery

open Eval

variable {N : Type} [DataNode N]

theorem DataNode.uniqueKeys_slice (n : N) (start stop step : Option Int64) :
    (DataNode.slice n start stop step).UniqueKeys := by
  rw [DataNode.slice]
  split
  · refine .array fun w hw ↦ ?_
    obtain ⟨m, -, rfl⟩ := List.mem_map.1 hw
    exact Value.uniqueKeys_ofNode m
  · exact .null

namespace Selection

variable {s : Selection N}

theorem uniqueKeys_ofNode? (o : Option N) : (ofNode? o).toValue.UniqueKeys := by
  cases o with
  | none => exact .null
  | some n => exact Value.uniqueKeys_ofNode n

theorem uniqueKeys_flatten (h : s.toValue.UniqueKeys) : s.flatten.UniqueKeys := by
  cases s with
  | owned v => exact Value.UniqueKeys.flatten h
  | borrowed n =>
    rw [flatten]
    split
    · refine .array fun w hw ↦ ?_
      obtain ⟨c, -, hw⟩ := List.mem_flatMap.1 hw
      split at hw
      · obtain ⟨m, -, rfl⟩ := List.mem_map.1 hw
        exact Value.uniqueKeys_ofNode m
      · exact List.mem_singleton.1 hw ▸ Value.uniqueKeys_ofNode c
    · exact .null

theorem uniqueKeys_objectValues (h : s.toValue.UniqueKeys) : s.objectValues.UniqueKeys := by
  cases s with
  | owned v => exact Value.UniqueKeys.values h
  | borrowed n =>
    rw [objectValues]
    split
    · refine .array fun w hw ↦ ?_
      obtain ⟨m, -, rfl⟩ := List.mem_map.1 hw
      exact Value.uniqueKeys_ofNode m
    · exact .null

end Selection

namespace Eval

variable {test body : N → Except EvalError (Selection N)}
  {test' body' : Value → Except EvalError (Selection Value)} {s : Selection N} {v : Value}

theorem uniqueKeys_project
    (hbody : ∀ n s, body n = .ok s → s.toValue.UniqueKeys) {ns : List N} {vs : List Value}
    (h : project test body ns = .ok vs) : ∀ v ∈ vs, v.UniqueKeys := by
  induction ns generalizing vs with
  | nil =>
    cases h
    nofun
  | cons n ns ih =>
    rw [project] at h
    obtain ⟨t, -, h⟩ := bind_eq_ok.1 h
    split at h
    · obtain ⟨s, hs, h⟩ := bind_eq_ok.1 h
      obtain ⟨us, hus, h⟩ := bind_eq_ok.1 h
      cases h
      split
      · exact ih hus
      · exact List.forall_mem_cons.2 ⟨hbody n s hs, ih hus⟩
    · exact ih h

theorem uniqueKeys_projectArray (hbody : ∀ n s, body n = .ok s → s.toValue.UniqueKeys)
    (hbody' : ∀ n s, body' n = .ok s → s.toValue.UniqueKeys)
    (h : projectArray test body test' body' s = .ok v) : v.UniqueKeys := by
  unfold projectArray at h
  split at h
  · split at h
    · obtain ⟨vs, hvs, h⟩ := bind_eq_ok.1 h
      cases h
      exact .array (uniqueKeys_project hbody hvs)
    · cases h
      exact .null
  · obtain ⟨vs, hvs, h⟩ := bind_eq_ok.1 h
    cases h
    exact .array (uniqueKeys_project hbody' hvs)
  · cases h
    exact .null

theorem uniqueKeys_projectObject (hbody : ∀ n s, body n = .ok s → s.toValue.UniqueKeys)
    (hbody' : ∀ n s, body' n = .ok s → s.toValue.UniqueKeys)
    (h : projectObject test body test' body' s = .ok v) : v.UniqueKeys := by
  unfold projectObject at h
  split at h
  · split at h
    · obtain ⟨vs, hvs, h⟩ := bind_eq_ok.1 h
      cases h
      exact .array (uniqueKeys_project hbody hvs)
    · cases h
      exact .null
  · obtain ⟨vs, hvs, h⟩ := bind_eq_ok.1 h
    cases h
    exact .array (uniqueKeys_project hbody' hvs)
  · cases h
    exact .null

end Eval

namespace Expr

variable {e right source body : Expr} {es : List Expr} {n : N} {s s' : Selection N}

theorem uniqueKeys_evalFrom (he : ∀ {n : N} {s}, e.eval n = .ok s → s.toValue.UniqueKeys)
    (he' : ∀ {v : Value} {s}, e.eval v = .ok s → s.toValue.UniqueKeys)
    (h : e.evalFrom s = .ok s') : s'.toValue.UniqueKeys := by
  cases s with
  | borrowed n => exact he h
  | owned v =>
    obtain ⟨w, hw, h⟩ := bind_eq_ok.1 h
    cases h
    exact he' hw

theorem uniqueKeys_projection_of_ne
    (hbody : ∀ (n : N) s, body.eval n = .ok s → s.toValue.UniqueKeys)
    (hbody' : ∀ (v : Value) s, body.eval v = .ok s → s.toValue.UniqueKeys)
    (h : (projection source body).eval n = .ok s) (hne : ∀ inner, source ≠ objectValues inner) :
    s.toValue.UniqueKeys := by
  rw [eval_projection_of_ne hne] at h
  obtain ⟨t, -, h⟩ := bind_eq_ok.1 h
  obtain ⟨v, hv, h⟩ := bind_eq_ok.1 h
  cases h
  exact uniqueKeys_projectArray hbody hbody' hv

theorem uniqueKeys_projection (hbody : ∀ (n : N) s, body.eval n = .ok s → s.toValue.UniqueKeys)
    (hbody' : ∀ (v : Value) s, body.eval v = .ok s → s.toValue.UniqueKeys)
    (h : (projection source body).eval n = .ok s) : s.toValue.UniqueKeys := by
  cases source with
  | objectValues inner =>
    rw [eval] at h
    obtain ⟨t, -, h⟩ := bind_eq_ok.1 h
    obtain ⟨v, hv, h⟩ := bind_eq_ok.1 h
    cases h
    exact uniqueKeys_projectObject hbody hbody' hv
  | _ => exact uniqueKeys_projection_of_ne hbody hbody' h (by simp)

theorem uniqueKeys_evalArgs_cons {args : List Arg}
    (he : ∀ s, e.eval n = .ok s → s.toValue.UniqueKeys)
    (hes : ∀ args, evalArgs es n = .ok args → ∀ a ∈ args, a.UniqueKeys)
    (h : evalArgs (e :: es) n = .ok args) (hne : ∀ inner, e ≠ expressionRef inner) :
    ∀ a ∈ args, a.UniqueKeys := by
  rw [evalArgs_cons_of_ne hne] at h
  obtain ⟨s, hs, h⟩ := bind_eq_ok.1 h
  obtain ⟨rest, hrest, h⟩ := bind_eq_ok.1 h
  cases h
  exact List.forall_mem_cons.2 ⟨he s hs, hes rest hrest⟩

theorem uniqueKeys_reference (he : ∀ (v : Value) s, e.eval v = .ok s → s.toValue.UniqueKeys) :
    (Arg.reference fun v ↦ return (← e.eval v).toValue).UniqueKeys := by
  intro v w _ hw
  obtain ⟨s, hs, hw⟩ := bind_eq_ok.1 hw
  cases hw
  exact he v s hs

mutual

theorem uniqueKeys_eval : (e : Expr) → e.AllLiterals Value.UniqueKeys →
    ∀ {N : Type} [DataNode N] {n : N} {s : Selection N}, e.eval n = .ok s → s.toValue.UniqueKeys
  | field name, _, _, _, _, _, h => by
    cases h
    exact Selection.uniqueKeys_ofNode? _
  | index i, _, _, _, n, _, h => by
    cases h
    rw [DataNode.item]
    split
    · exact Selection.uniqueKeys_ofNode? _
    · exact .null
  | slice start stop step, _, _, _, n, _, h => by
    cases h
    exact DataNode.uniqueKeys_slice n start stop step
  | flatten inner, hl, _, _, _, _, h => by
    rw [eval] at h
    obtain ⟨s, hs, h⟩ := bind_eq_ok.1 h
    cases h
    exact Selection.uniqueKeys_flatten (uniqueKeys_eval inner hl hs)
  | objectValues inner, hl, _, _, _, _, h => by
    rw [eval] at h
    obtain ⟨s, hs, h⟩ := bind_eq_ok.1 h
    cases h
    exact Selection.uniqueKeys_objectValues (uniqueKeys_eval inner hl hs)
  | subexpression left right, hl, _, _, _, _, h => by
    rw [eval_subexpression] at h
    obtain ⟨s, -, h⟩ := bind_eq_ok.1 h
    split at h
    · cases h
      exact .null
    · exact uniqueKeys_evalFrom (uniqueKeys_eval right hl.2) (uniqueKeys_eval right hl.2) h
  | pipe left right, hl, _, _, _, _, h => by
    rw [eval_pipe] at h
    obtain ⟨s, -, h⟩ := bind_eq_ok.1 h
    exact uniqueKeys_evalFrom (uniqueKeys_eval right hl.2) (uniqueKeys_eval right hl.2) h
  | projection source body, hl, _, _, _, _, h =>
    uniqueKeys_projection (fun _ _ hs ↦ uniqueKeys_eval body hl.2 hs)
      (fun _ _ hs ↦ uniqueKeys_eval body hl.2 hs) h
  | filterProjection source predicate body, hl, _, _, _, _, h => by
    rw [eval] at h
    obtain ⟨s, hs, h⟩ := bind_eq_ok.1 h
    obtain ⟨v, hv, h⟩ := bind_eq_ok.1 h
    cases h
    exact uniqueKeys_projectArray (fun _ _ hs ↦ uniqueKeys_eval body hl.2.2 hs)
      (fun _ _ hs ↦ uniqueKeys_eval body hl.2.2 hs) hv
  | multiSelectList items, hl, _, _, _, _, h => by
    rw [eval] at h
    split at h
    · cases h
      exact .null
    · obtain ⟨vs, hvs, h⟩ := bind_eq_ok.1 h
      cases h
      exact .array (uniqueKeys_evalItems items hl hvs)
  | multiSelectHash pairs, hl, _, _, _, _, h => by
    rw [eval] at h
    split at h
    · cases h
      exact .null
    · obtain ⟨entries, hentries, h⟩ := bind_eq_ok.1 h
      cases h
      exact Value.uniqueKeys_ofPairs (uniqueKeys_evalPairs pairs hl hentries)
  | or left right, hl, _, _, _, _, h => by
    rw [eval] at h
    obtain ⟨s, hs, h⟩ := bind_eq_ok.1 h
    split at h
    · cases h
      exact uniqueKeys_eval left hl.1 hs
    · exact uniqueKeys_eval right hl.2 h
  | and left right, hl, _, _, _, _, h => by
    rw [eval] at h
    obtain ⟨s, hs, h⟩ := bind_eq_ok.1 h
    split at h
    · exact uniqueKeys_eval right hl.2 h
    · cases h
      exact uniqueKeys_eval left hl.1 hs
  | not inner, _, _, _, _, _, h => by
    rw [eval] at h
    obtain ⟨s, hs, h⟩ := bind_eq_ok.1 h
    cases h
    exact .bool _
  | comparison op left right, _, _, _, _, _, h => by
    rw [eval] at h
    obtain ⟨a, -, h⟩ := bind_eq_ok.1 h
    obtain ⟨b, -, h⟩ := bind_eq_ok.1 h
    cases h
    exact op.uniqueKeys_apply _ _
  | functionCall name args, hl, _, _, _, _, h => by
    rw [eval] at h
    obtain ⟨as, has, h⟩ := bind_eq_ok.1 h
    obtain ⟨v, hv, h⟩ := bind_eq_ok.1 h
    cases h
    rw [Builtin.callByName] at hv
    split at hv
    · cases hv
    · exact Builtin.uniqueKeys_call (uniqueKeys_evalArgs args hl has) hv
  | expressionRef _, _, _, _, _, _, h => by cases h
  | currentNode, _, _, _, n, _, h => by
    cases h
    exact Value.uniqueKeys_ofNode n
  | literal v, hl, _, _, _, _, h => by
    cases h
    exact hl
termination_by structural e => e

theorem uniqueKeys_evalItems : (es : List Expr) → AllLiteralsItems Value.UniqueKeys es →
    ∀ {N : Type} [DataNode N] {n : N} {vs : List Value}, evalItems es n = .ok vs →
      ∀ v ∈ vs, v.UniqueKeys
  | [], _, _, _, _, _, h => by
    cases h
    nofun
  | e :: es, hl, _, _, _, _, h => by
    rw [evalItems] at h
    obtain ⟨s, hs, h⟩ := bind_eq_ok.1 h
    obtain ⟨vs, hvs, h⟩ := bind_eq_ok.1 h
    cases h
    exact List.forall_mem_cons.2 ⟨uniqueKeys_eval e hl.1 hs, uniqueKeys_evalItems es hl.2 hvs⟩
termination_by structural es => es

theorem uniqueKeys_evalPairs : (ps : List (String × Expr)) → AllLiteralsPairs Value.UniqueKeys ps →
    ∀ {N : Type} [DataNode N] {n : N} {entries : List (String × Value)},
      evalPairs ps n = .ok entries → ∀ e ∈ entries, e.2.UniqueKeys
  | [], _, _, _, _, _, h => by
    cases h
    nofun
  | (key, e) :: ps, hl, _, _, _, _, h => by
    rw [evalPairs] at h
    obtain ⟨s, hs, h⟩ := bind_eq_ok.1 h
    obtain ⟨entries, hentries, h⟩ := bind_eq_ok.1 h
    cases h
    exact List.forall_mem_cons.2
      ⟨uniqueKeys_eval e hl.1 hs, uniqueKeys_evalPairs ps hl.2 hentries⟩
termination_by structural ps => ps

theorem uniqueKeys_evalArgs : (es : List Expr) → AllLiteralsItems Value.UniqueKeys es →
    ∀ {N : Type} [DataNode N] {n : N} {args : List Arg}, evalArgs es n = .ok args →
      ∀ a ∈ args, a.UniqueKeys
  | [], _, _, _, _, _, h => by
    cases h
    nofun
  | e :: es, hl, _, _, n, _, h => by
    have hes args (hargs : evalArgs es n = .ok args) := uniqueKeys_evalArgs es hl.2 hargs
    have he s (hs : e.eval n = .ok s) := uniqueKeys_eval e hl.1 hs
    cases e with
    | expressionRef inner =>
      have hinner (v : Value) s (hs : inner.eval v = .ok s) := uniqueKeys_eval inner hl.1 hs
      rw [evalArgs] at h
      obtain ⟨rest, hrest, h⟩ := bind_eq_ok.1 h
      cases h
      exact List.forall_mem_cons.2 ⟨uniqueKeys_reference hinner, hes rest hrest⟩
    | _ => exact uniqueKeys_evalArgs_cons he hes h fun _ h ↦ nomatch h
termination_by structural es => es

end

theorem uniqueKeys_evaluate (hl : e.AllLiterals Value.UniqueKeys) {v : Value}
    (h : e.evaluate n = .ok v) : v.UniqueKeys := by
  obtain ⟨s, hs, h⟩ := bind_eq_ok.1 h
  cases h
  exact uniqueKeys_eval e hl hs

end Expr

end PathQuery
