import PathQuery.Proofs.Eval.UniqueKeys
import PathQuery.Proofs.Expr.WellFormed
import PathQuery.Proofs.Function.Reordered

namespace PathQuery

open Eval

theorem Entries.rel_lookup {ps qs : List (String × Value)}
    (h : List.Forall₂ (fun p q ↦ p.1 = q.1 ∧ p.2.Reordered q.2) ps qs) (name : String) :
    Option.Rel Value.Reordered (ps.lookup name) (qs.lookup name) := by
  induction h with
  | nil => exact .none
  | cons hpq _ ih =>
    rw [Entries.lookup_cons, Entries.lookup_cons, hpq.1]
    split
    · exact .some hpq.2
    · exact ih

namespace Value.Reordered

variable {v w v' w' : Value}

theorem entries (h : v.Reordered w) (name : String) :
    Option.Rel Value.Reordered (v.entries.lookup name) (w.entries.lookup name) := by
  cases h with
  | object _ _ h => exact h name
  | _ => exact .none

theorem index (h : v.Reordered w) (i : Int64) :
    ((v.array?.bind fun items ↦
      (Slice.resolveIndex items.length i).bind (items[·]?)).getD .null).Reordered
        ((w.array?.bind fun items ↦
          (Slice.resolveIndex items.length i).bind (items[·]?)).getD .null) := by
  cases h with
  | @array as bs h =>
    rw [array?, array?, Option.bind_some, Option.bind_some, h.length_eq]
    refine getD_null ?_
    cases Slice.resolveIndex bs.length i with
    | none => exact .none
    | some n => exact forall₂_getElem? h n
  | _ => exact .null

theorem slice (h : v.Reordered w) (start stop step : Option Int64) :
    ((v.array?.map fun items ↦ Value.array ((Slice.positions items.length start stop step).filterMap
      (items[·]?))).getD .null).Reordered
        ((w.array?.map fun items ↦ Value.array ((Slice.positions items.length start stop
          step).filterMap (items[·]?))).getD .null) := by
  cases h with
  | @array as bs h =>
    rw [array?, array?, Option.map_some, Option.map_some, h.length_eq]
    refine .array (List.rel_filterMap (R := Eq) (fun n m hnm ↦ ?_) (List.forall₂_refl _))
    exact hnm ▸ forall₂_getElem? h n
  | _ => exact .null

theorem flatten (h : v.Reordered w) : v.flatten.Reordered w.flatten := by
  cases h with
  | array h =>
    refine .array (List.rel_flatMap h fun a b hab ↦ ?_)
    have hsingle : List.Forall₂ Value.Reordered [a] [b] := .cons hab .nil
    cases hab with
    | array h => exact h
    | _ => exact hsingle
  | _ => exact .null

end Value.Reordered

namespace Expr

variable {e inner right predicate body : Expr} {es : List Expr} {v w : Value}

/-- Whether what the node gives depends on the order of the entries of an object. -/
def readsOrder : Expr → Bool
  | objectValues _ => true
  | functionCall name _ => name == "keys" || name == "values" || name == "to_string"
  | _ => false

/-- No node of the expression, in a reference or outside, reads the order of entries. -/
def OrderBlind (e : Expr) : Prop := ∀ above x, NodeAt e above x → x.readsOrder = false

theorem NodeAt.of_part {x y : Expr} {place : Place} {above : List (Expr × Place)}
    (hy : (place, y) ∈ e.parts) (h : NodeAt y above x) :
    NodeAt e (above ++ [(e, place)]) x := by
  induction h with
  | root => exact .part .root hy
  | part _ hz ih => exact .part ih hz

theorem NodeAt.eq_or_of_part {x : Expr} {above : List (Expr × Place)} (h : NodeAt e above x) :
    x = e ∨ ∃ place y below, (place, y) ∈ e.parts ∧ NodeAt y below x := by
  induction h with
  | root => exact .inl rfl
  | @part _ x z place _ hz ih =>
    obtain rfl | ⟨place', y, below, hy, hx⟩ := ih
    · exact .inr ⟨place, z, [], hz, .root⟩
    · exact .inr ⟨place', y, (x, place) :: below, hy, .part hx hz⟩

namespace OrderBlind

theorem of_parts (h : e.readsOrder = false) (hparts : ∀ p ∈ e.parts, p.2.OrderBlind) :
    e.OrderBlind := by
  intro above x hx
  obtain rfl | ⟨place, y, below, hy, hx⟩ := hx.eq_or_of_part
  · exact h
  · exact hparts _ hy below x hx

theorem part {y : Expr} {place : Place} (h : e.OrderBlind) (hy : (place, y) ∈ e.parts) :
    y.OrderBlind :=
  fun _ x hx ↦ h _ x (hx.of_part hy)

theorem function {name : String} {f : Builtin} (h : (functionCall name es).OrderBlind)
    (hf : Builtin.ofName? name = some f) : f.readsOrder = false := by
  have hname : f.name = name := by
    have hfound := List.find?_some hf
    exact beq_iff_eq.1 hfound
  have hreads : (functionCall f.name es).readsOrder = false := hname ▸ h _ _ .root
  cases f <;> first | rfl | cases hreads

end OrderBlind

theorem alike_keep (hp : ∀ v w : Value, v.Reordered w →
      Alike Value.Reordered (predicate.evaluate v) (predicate.evaluate w))
    (hb : ∀ v w : Value, v.Reordered w →
      Alike Value.Reordered (body.evaluate v) (body.evaluate w))
    {as bs : List Value} (h : List.Forall₂ Value.Reordered as bs) :
    Alike (List.Forall₂ Value.Reordered) (keep predicate body as) (keep predicate body bs) := by
  induction h with
  | nil => exact .ok .nil
  | cons hab _ ih =>
    rw [keep, keep]
    refine (hp _ _ hab).bind fun t t' ht ↦ ?_
    rw [ht.isTruthy_eq]
    split
    · refine (hb _ _ hab).bind fun u u' hu ↦ ih.map fun us us' hus ↦ ?_
      rw [hu.isNull_eq]
      split
      · exact hus
      · exact .cons hu hus
    · exact ih

theorem alike_projected (hp : ∀ v w : Value, v.Reordered w →
      Alike Value.Reordered (predicate.evaluate v) (predicate.evaluate w))
    (hb : ∀ v w : Value, v.Reordered w →
      Alike Value.Reordered (body.evaluate v) (body.evaluate w)) (h : v.Reordered w) :
    Alike Value.Reordered (projected predicate body v) (projected predicate body w) := by
  cases h with
  | array h => exact (alike_keep hp hb h).map fun _ _ ↦ .array
  | _ => exact .ok .null

theorem alike_callByName {name : String} {args args' : List Arg}
    (hname : (functionCall name es).OrderBlind) (h : List.Forall₂ Arg.Reordered args args') :
    Alike Value.Reordered (Builtin.callByName name args) (Builtin.callByName name args') := by
  unfold Builtin.callByName
  cases hf : Builtin.ofName? name with
  | none => exact .error _
  | some f => exact Builtin.alike_call (hname.function hf) h

theorem alike_evalArgs_cons (hne : ∀ inner, e ≠ expressionRef inner)
    (he : Alike Value.Reordered (e.evaluate v) (e.evaluate w))
    (hes : Alike (List.Forall₂ Arg.Reordered) (evalArgs es v) (evalArgs es w)) :
    Alike (List.Forall₂ Arg.Reordered) (evalArgs (e :: es) v) (evalArgs (e :: es) w) := by
  have hcons (u : Value) : evalArgs (e :: es) u =
      e.evaluate u >>= fun a ↦ evalArgs es u >>= fun as ↦ .ok (.value a :: as) := by
    rw [evalArgs_cons_of_ne hne, evaluate_eq, bind_assoc]
    rfl
  rw [hcons, hcons]
  exact he.bind fun _ _ ha ↦ hes.map fun _ _ has ↦ .cons (.value ha) has

mutual

/-- On values that differ in the order of entries alone, a query that does not read it gives
results that differ in it alone, or the same error. -/
theorem alike_evaluate : (e : Expr) → e.AllLiterals Value.UniqueKeys → e.OrderBlind →
    ∀ v w : Value, v.Reordered w → Alike Value.Reordered (e.evaluate v) (e.evaluate w)
  | field name, _, _, v, w, h => by
    rw [evaluate_field name h.uniqueKeys, evaluate_field name h.symm.uniqueKeys]
    exact .ok (Value.Reordered.getD_null (h.entries name))
  | index i, _, _, v, w, h => by
    rw [evaluate_index i h.uniqueKeys, evaluate_index i h.symm.uniqueKeys]
    exact .ok (h.index i)
  | slice start stop step, _, _, v, w, h => by
    rw [evaluate_slice _ _ _ h.uniqueKeys, evaluate_slice _ _ _ h.symm.uniqueKeys]
    exact .ok (h.slice start stop step)
  | flatten inner, hl, ho, v, w, h => by
    rw [evaluate_flatten _ h.uniqueKeys.lawful, evaluate_flatten _ h.symm.uniqueKeys.lawful]
    exact (alike_evaluate inner hl (ho.part (.head _)) v w h).map fun _ _ ↦ .flatten
  | objectValues _, _, ho, _, _, _ => nomatch ho _ _ .root
  | subexpression left right, hl, ho, v, w, h => by
    rw [evaluate_subexpression _ _ h.uniqueKeys.lawful,
      evaluate_subexpression _ _ h.symm.uniqueKeys.lawful]
    refine (alike_evaluate left hl.1 (ho.part (.head _)) v w h).bind fun u u' hu ↦ ?_
    rw [hu.isNull_eq]
    split
    · exact .ok .null
    · exact alike_evaluate right hl.2 (ho.part (.tail _ (.head _))) u u' hu
  | pipe left right, hl, ho, v, w, h => by
    rw [evaluate_pipe _ _ h.uniqueKeys.lawful, evaluate_pipe _ _ h.symm.uniqueKeys.lawful]
    exact (alike_evaluate left hl.1 (ho.part (.head _)) v w h).bind
      (alike_evaluate right hl.2 (ho.part (.tail _ (.head _))))
  | projection source body, hl, ho, v, w, h => by
    rw [evaluate_projection _ _ h.uniqueKeys.lawful fun _ ↦ uniqueKeys_evaluate hl.1,
      evaluate_projection _ _ h.symm.uniqueKeys.lawful fun _ ↦ uniqueKeys_evaluate hl.1]
    have hb := alike_evaluate body hl.2 (ho.part (.tail _ (.head _)))
    exact (alike_evaluate source hl.1 (ho.part (.head _)) v w h).bind fun u u' hu ↦
      alike_projected (fun _ _ _ ↦ .ok (.bool true)) hb hu
  | filterProjection source predicate body, hl, ho, v, w, h => by
    rw [evaluate_filterProjection _ _ _ h.uniqueKeys.lawful fun _ ↦ uniqueKeys_evaluate hl.1,
      evaluate_filterProjection _ _ _ h.symm.uniqueKeys.lawful fun _ ↦ uniqueKeys_evaluate hl.1]
    have hp := alike_evaluate predicate hl.2.1 (ho.part (.tail _ (.head _)))
    have hb := alike_evaluate body hl.2.2 (ho.part (.tail _ (.tail _ (.head _))))
    exact (alike_evaluate source hl.1 (ho.part (.head _)) v w h).bind fun u u' hu ↦
      alike_projected hp hb hu
  | multiSelectList items, hl, ho, v, w, h => by
    rw [evaluate_multiSelectList, evaluate_multiSelectList, Value.isNull_eq, Value.isNull_eq,
      h.isNull_eq]
    split
    · exact .ok .null
    · exact (alike_evalItems items hl (fun e he ↦ ho.part (List.mem_map_of_mem he)) v w h).map
        fun _ _ ↦ .array
  | multiSelectHash pairs, hl, ho, v, w, h => by
    rw [evaluate_multiSelectHash, evaluate_multiSelectHash, Value.isNull_eq, Value.isNull_eq,
      h.isNull_eq]
    split
    · exact .ok .null
    · exact (alike_evalPairs pairs hl (fun p hp ↦ ho.part (List.mem_map_of_mem hp)) v w h).map
        fun _ _ hps ↦ .ofPairs fun _ ↦ Entries.rel_lookup (List.rel_reverse hps) _
  | or left right, hl, ho, v, w, h => by
    rw [evaluate_or _ _ h.uniqueKeys.lawful, evaluate_or _ _ h.symm.uniqueKeys.lawful]
    refine (alike_evaluate left hl.1 (ho.part (.head _)) v w h).bind fun u u' hu ↦ ?_
    rw [hu.isTruthy_eq]
    split
    · exact .ok hu
    · exact alike_evaluate right hl.2 (ho.part (.tail _ (.head _))) v w h
  | and left right, hl, ho, v, w, h => by
    rw [evaluate_and _ _ h.uniqueKeys.lawful, evaluate_and _ _ h.symm.uniqueKeys.lawful]
    refine (alike_evaluate left hl.1 (ho.part (.head _)) v w h).bind fun u u' hu ↦ ?_
    rw [hu.isTruthy_eq]
    split
    · exact alike_evaluate right hl.2 (ho.part (.tail _ (.head _))) v w h
    · exact .ok hu
  | not inner, hl, ho, v, w, h => by
    rw [evaluate_not _ h.uniqueKeys.lawful, evaluate_not _ h.symm.uniqueKeys.lawful]
    refine (alike_evaluate inner hl (ho.part (.head _)) v w h).map fun u u' hu ↦ ?_
    rw [hu.isTruthy_eq]
    exact .bool _
  | comparison op left right, hl, ho, v, w, h => by
    rw [evaluate_comparison _ _ _ h.uniqueKeys.lawful,
      evaluate_comparison _ _ _ h.symm.uniqueKeys.lawful]
    refine (alike_evaluate left hl.1 (ho.part (.head _)) v w h).bind fun a a' ha ↦
      (alike_evaluate right hl.2 (ho.part (.tail _ (.head _))) v w h).map fun b b' hb ↦ ?_
    rw [ha.apply_eq op hb]
    exact (op.uniqueKeys_apply _ _).reordered
  | functionCall name args, hl, ho, v, w, h => by
    rw [evaluate_functionCall, evaluate_functionCall]
    have hargs := alike_evalArgs args hl (fun e he ↦ ho.part (List.mem_map_of_mem he)) v w h
    exact hargs.bind fun _ _ ↦ alike_callByName ho
  | expressionRef _, _, _, _, _, _ => .error .strayReference
  | currentNode, _, _, v, w, h => by
    rw [evaluate_current h.uniqueKeys, evaluate_current h.symm.uniqueKeys]
    exact .ok h
  | literal u, hl, _, _, _, _ => .ok (Value.UniqueKeys.reordered hl)
termination_by structural e => e

theorem alike_evalItems : (es : List Expr) → AllLiteralsItems Value.UniqueKeys es →
    (∀ e ∈ es, e.OrderBlind) → ∀ v w : Value, v.Reordered w →
      Alike (List.Forall₂ Value.Reordered) (evalItems es v) (evalItems es w)
  | [], _, _, _, _, _ => .ok .nil
  | e :: es, hl, ho, v, w, h => by
    obtain ⟨he, hes⟩ := List.forall_mem_cons.1 ho
    rw [evalItems_cons, evalItems_cons]
    exact (alike_evaluate e hl.1 he v w h).bind fun _ _ hu ↦
      (alike_evalItems es hl.2 hes v w h).map fun _ _ ↦ .cons hu
termination_by structural es => es

theorem alike_evalPairs : (ps : List (String × Expr)) → AllLiteralsPairs Value.UniqueKeys ps →
    (∀ p ∈ ps, p.2.OrderBlind) → ∀ v w : Value, v.Reordered w →
      Alike (List.Forall₂ fun p q ↦ p.1 = q.1 ∧ p.2.Reordered q.2) (evalPairs ps v) (evalPairs ps w)
  | [], _, _, _, _, _ => .ok .nil
  | (key, e) :: ps, hl, ho, v, w, h => by
    obtain ⟨he, hps⟩ := List.forall_mem_cons.1 ho
    rw [evalPairs_cons, evalPairs_cons]
    exact (alike_evaluate e hl.1 he v w h).bind fun _ _ hu ↦
      (alike_evalPairs ps hl.2 hps v w h).map fun _ _ ↦ .cons ⟨rfl, hu⟩
termination_by structural ps => ps

theorem alike_evalArgs : (es : List Expr) → AllLiteralsItems Value.UniqueKeys es →
    (∀ e ∈ es, e.OrderBlind) → ∀ v w : Value, v.Reordered w →
      Alike (List.Forall₂ Arg.Reordered) (evalArgs es v) (evalArgs es w)
  | [], _, _, _, _, _ => .ok .nil
  | e :: es, hl, ho, v, w, h => by
    obtain ⟨he, hes⟩ := List.forall_mem_cons.1 ho
    have hrest := alike_evalArgs es hl.2 hes v w h
    cases e with
    | expressionRef inner =>
      have hinner := alike_evaluate inner hl.1 (he.part (.head _))
      exact hrest.map fun _ _ has ↦ .cons (.reference hinner) has
    | _ =>
      exact alike_evalArgs_cons (fun _ h ↦ nomatch h) (alike_evaluate _ hl.1 he v w h) hrest
termination_by structural es => es

end

end Expr

end PathQuery
