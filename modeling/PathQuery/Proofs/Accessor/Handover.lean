import PathQuery.Proofs.Accessor.Simulation
import PathQuery.Proofs.Accessor.Styles
import PathQuery.Proofs.Eval.UniqueKeys

namespace PathQuery

open Value

namespace Expr

def Gives (e : Expr) (v : Value) (P : Value → Prop) : Prop := ∀ u, e.evaluate v = .ok u → P u

mutual

/-- Nothing is lost where a part of the expression hands its result to another part: what is tested
for null or truth is not a float without a number, what is compared or given to a function has no
such float inside, and keys stand in ascending order where their order is read. -/
def Transfers : Expr → Value → Prop
  | flatten inner, v => Transfers inner v
  | objectValues inner, v => Transfers inner v ∧ inner.Gives v Value.Ascending
  | subexpression left right, v =>
    Transfers left v ∧ left.Gives v fun u ↦ u.Survives ∧ (u.isNull = false → Transfers right u)
  | pipe left right, v => Transfers left v ∧ left.Gives v (Transfers right)
  | projection source body, v =>
    Transfers source v ∧ source.Gives v fun u ↦ ∀ w ∈ u.array?.getD [],
      Transfers body w ∧ body.Gives w Value.Survives
  | filterProjection source predicate body, v =>
    Transfers source v ∧ source.Gives v fun u ↦ ∀ w ∈ u.array?.getD [],
      Transfers predicate w ∧ predicate.Gives w fun p ↦ p.Survives ∧
        (p.isTruthy = true → Transfers body w ∧ body.Gives w Value.Survives)
  | multiSelectList items, v => v.Survives ∧ (v.isNull = false → TransfersItems items v)
  | multiSelectHash pairs, v => v.Survives ∧ (v.isNull = false → TransfersPairs pairs v)
  | or left right, v =>
    Transfers left v ∧ left.Gives v fun u ↦ u.Survives ∧ (u.isTruthy = false → Transfers right v)
  | and left right, v =>
    Transfers left v ∧ left.Gives v fun u ↦ u.Survives ∧ (u.isTruthy = true → Transfers right v)
  | not inner, v => Transfers inner v ∧ inner.Gives v Value.Survives
  | comparison _ left right, v =>
    (Transfers left v ∧ left.Gives v Value.Finite) ∧ Transfers right v ∧ right.Gives v Value.Finite
  | functionCall name args, v =>
    TransfersItems args v ∧ ∀ vs, evalItems args v = .ok vs →
      (∀ u ∈ vs, u.Finite) ∧ ∀ f, Builtin.ofName? name = some f → f.OrderKept vs
  | _, _ => True
termination_by structural e => e

def TransfersItems : List Expr → Value → Prop
  | [], _ => True
  | e :: es, v => Transfers e v ∧ TransfersItems es v
termination_by structural es => es

def TransfersPairs : List (String × Expr) → Value → Prop
  | [], _ => True
  | (_, e) :: ps, v => Transfers e v ∧ TransfersPairs ps v
termination_by structural ps => ps

end

/-- The accessor gives for a document what the expression gives on its value, if nothing is lost. -/
def Agrees (e : Expr) : Prop :=
  ∀ (v r : Value), v.UniqueKeys → e.Transfers v → e.evaluate v = .ok r → Means (e.access v.toJson) r

namespace Agrees

variable {left right inner source predicate body : Expr}

theorem field (name : String) : (Expr.field name).Agrees := by
  intro v r hv _ he
  rw [evaluate_field name hv] at he
  cases he
  exact .field name hv

theorem index (i : Int64) : (Expr.index i).Agrees := by
  intro v r hv _ he
  rw [evaluate_index i hv] at he
  cases he
  exact .index i v

theorem slice (start stop step : Option Int64) : (Expr.slice start stop step).Agrees := by
  intro v r hv _ he
  rw [evaluate_slice start stop step hv] at he
  cases he
  exact .slice start stop step v

theorem current : currentNode.Agrees := by
  intro v r hv _ he
  rw [evaluate_current hv] at he
  cases he
  exact .some v

theorem literal (w : Value) : (Expr.literal w).Agrees := by
  intro v r _ _ he
  cases he
  exact .some w

theorem flatten (hinner : inner.Agrees) : (Expr.flatten inner).Agrees := by
  intro v r hv ht he
  rw [evaluate_flatten inner hv.lawful, Eval.bind_eq_ok] at he
  obtain ⟨u, hu, he⟩ := he
  cases he
  exact (hinner v u hv ht hu).flatten

theorem objectValues (hinner : inner.Agrees) : (Expr.objectValues inner).Agrees := by
  intro v r hv ⟨ht, horder⟩ he
  rw [evaluate_objectValues inner hv.lawful, Eval.bind_eq_ok] at he
  obtain ⟨u, hu, he⟩ := he
  cases he
  exact (hinner v u hv ht hu).objectValues (horder u hu)

theorem negation (hinner : inner.Agrees) : (Expr.not inner).Agrees := by
  intro v r hv ⟨ht, hsurvives⟩ he
  rw [evaluate_not inner hv.lawful, Eval.bind_eq_ok] at he
  obtain ⟨u, hu, he⟩ := he
  cases he
  rw [access, (hinner v u hv ht hu).isTruthy_eq (hsurvives u hu)]
  exact .some (.bool _)

theorem comparison (op : Comparator) (hleft : left.Agrees) (hright : right.Agrees)
    (hl : left.AllLiterals Value.UniqueKeys) (hr : right.AllLiterals Value.UniqueKeys) :
    (Expr.comparison op left right).Agrees := by
  intro v r hv ⟨⟨htl, hfl⟩, htr, hfr⟩ he
  rw [evaluate_comparison op left right hv.lawful, Eval.bind_eq_ok] at he
  obtain ⟨u, hu, he⟩ := he
  obtain ⟨w, hw, he⟩ := Eval.bind_eq_ok.1 he
  cases he
  exact (hleft v u hv htl hu).compare op (hright v w hv htr hw) (hfl u hu) (hfr w hw)
    (uniqueKeys_evaluate hl hu) (uniqueKeys_evaluate hr hw)

theorem subexpression (hleft : left.Agrees) (hright : right.Agrees)
    (hl : left.AllLiterals Value.UniqueKeys) : (Expr.subexpression left right).Agrees := by
  intro v r hv ⟨htl, htr⟩ he
  rw [evaluate_subexpression left right hv.lawful, Eval.bind_eq_ok] at he
  obtain ⟨u, hu, he⟩ := he
  obtain ⟨hsurvives, htr⟩ := htr u hu
  rw [access, (hleft v u hv htl hu).filter_notNull hsurvives]
  cases hnull : u.isNull with
  | true =>
    rw [hnull, if_pos rfl] at he
    cases he
    exact .none
  | false =>
    rw [hnull] at he
    exact hright u r (uniqueKeys_evaluate hl hu) (htr hnull) he

theorem pipe (hleft : left.Agrees) (hright : right.Agrees)
    (hl : left.AllLiterals Value.UniqueKeys) :
    (Expr.pipe left right).Agrees := by
  intro v r hv ⟨htl, htr⟩ he
  rw [evaluate_pipe left right hv.lawful, Eval.bind_eq_ok] at he
  obtain ⟨u, hu, he⟩ := he
  have hmeans : (left.access v.toJson).getD .null = u.toJson := hleft v u hv htl hu
  rw [access, hmeans]
  exact hright u r (uniqueKeys_evaluate hl hu) (htr u hu) he

theorem or (hleft : left.Agrees) (hright : right.Agrees) : (Expr.or left right).Agrees := by
  intro v r hv ⟨htl, htr⟩ he
  rw [evaluate_or left right hv.lawful, Eval.bind_eq_ok] at he
  obtain ⟨u, hu, he⟩ := he
  obtain ⟨hsurvives, htr⟩ := htr u hu
  rw [access, (hleft v u hv htl hu).filter_truthy hsurvives]
  cases htruthy : u.isTruthy with
  | true =>
    rw [htruthy, if_pos rfl] at he
    cases he
    exact .some r
  | false =>
    rw [htruthy] at he
    exact hright v r hv (htr htruthy) he

theorem and (hleft : left.Agrees) (hright : right.Agrees) : (Expr.and left right).Agrees := by
  intro v r hv ⟨htl, htr⟩ he
  rw [evaluate_and left right hv.lawful, Eval.bind_eq_ok] at he
  obtain ⟨u, hu, he⟩ := he
  obtain ⟨hsurvives, htr⟩ := htr u hu
  have hmeans := hleft v u hv htl hu
  rw [access, hmeans.isTruthy_eq hsurvives]
  cases htruthy : u.isTruthy with
  | true =>
    rw [htruthy, if_pos rfl] at he
    exact hright v r hv (htr htruthy) he
  | false =>
    rw [htruthy] at he
    cases he
    exact hmeans

theorem keep {test : Json → Bool} {items us : List Value}
    (htest : ∀ w ∈ items, ∀ p, predicate.evaluate w = .ok p → test w.toJson = p.isTruthy)
    (hbody : ∀ w ∈ items, ∀ p, predicate.evaluate w = .ok p → p.isTruthy = true →
      ∀ u, body.evaluate w = .ok u → u.Survives ∧ Means (body.access w.toJson) u)
    (h : Expr.keep predicate body items = .ok us) :
    (((items.map toJson).filter test).filterMap fun j ↦ (body.access j).filter Code.notNull) =
      us.map toJson := by
  induction items generalizing us with
  | nil =>
    cases h
    rfl
  | cons w items ih =>
    have ih {us : List Value} := @ih us (fun w hw ↦ htest w (List.mem_cons_of_mem _ hw))
      fun w hw ↦ hbody w (List.mem_cons_of_mem _ hw)
    rw [Expr.keep, Eval.bind_eq_ok] at h
    obtain ⟨p, hp, h⟩ := h
    rw [List.map_cons, List.filter_cons, htest w List.mem_cons_self p hp]
    cases htruthy : p.isTruthy with
    | false =>
      rw [htruthy] at h
      exact ih h
    | true =>
      rw [htruthy, if_pos rfl, Eval.bind_eq_ok] at h
      obtain ⟨u, hu, h⟩ := h
      obtain ⟨us', hus, h⟩ := Eval.bind_eq_ok.1 h
      obtain ⟨hsurvives, hmeans⟩ := hbody w List.mem_cons_self p hp htruthy u hu
      rw [if_pos rfl, List.filterMap_cons, hmeans.filter_notNull hsurvives]
      cases hnull : u.isNull with
      | true =>
        rw [hnull] at h
        cases h
        exact ih hus
      | false =>
        rw [hnull] at h
        cases h
        exact congrArg (u.toJson :: ·) (ih hus)

theorem projected {u r : Value} {o : Option Json} (test : Json → Bool) (hsource : Means o u)
    (hu : u.UniqueKeys)
    (htest : ∀ w ∈ u.array?.getD [], w.UniqueKeys → ∀ p, predicate.evaluate w = .ok p →
      test w.toJson = p.isTruthy)
    (hbody : body.Agrees)
    (ht : ∀ w ∈ u.array?.getD [], ∀ p, predicate.evaluate w = .ok p → p.isTruthy = true →
      body.Transfers w ∧ body.Gives w Value.Survives)
    (h : Expr.projected predicate body u = .ok r) :
    Means ((o.bind Json.array?).map fun js ↦ .array
      ((js.filter test).filterMap fun j ↦ (body.access j).filter Code.notNull)) r := by
  by_cases harray : ∃ ws, u = .array ws
  · obtain ⟨ws, rfl⟩ := harray
    rw [Expr.projected, Eval.bind_eq_ok] at h
    obtain ⟨us, hus, h⟩ := h
    cases h
    rw [hsource.eq_some rfl rfl, Option.bind_some, Means.array?_toJson, Means, toJson_array,
      ← keep (fun w hw ↦ htest w hw (hu.of_mem hw)) (fun w hw p hp htruthy u' hu' ↦ ?_) hus]
    · rfl
    · obtain ⟨htransfers, hsurvives⟩ := ht w hw p hp htruthy
      exact ⟨hsurvives u' hu', hbody w u' (hu.of_mem hw) htransfers hu'⟩
  · have hnone : u.array? = none := by
      cases u with
      | array ws => exact absurd ⟨ws, rfl⟩ harray
      | _ => rfl
    have hr : r = .null := by
      cases u with
      | array ws => exact absurd ⟨ws, rfl⟩ harray
      | _ => cases h; rfl
    have hsource : o.bind Json.array? = none := by
      cases o with
      | none => rfl
      | some j =>
        rw [Option.bind_some, show j = u.toJson from hsource, Means.array?_toJson, hnone]
        rfl
    rw [hsource, hr]
    exact .none

theorem projection (hsource : source.Agrees) (hbody : body.Agrees)
    (hl : source.AllLiterals Value.UniqueKeys) : (Expr.projection source body).Agrees := by
  intro v r hv ⟨hts, htb⟩ he
  rw [evaluate_projection source body hv.lawful fun u ↦ uniqueKeys_evaluate hl,
    Eval.bind_eq_ok] at he
  obtain ⟨u, hu, he⟩ := he
  have hmeans := projected (fun _ ↦ true) (hsource v u hv hts hu) (uniqueKeys_evaluate hl hu)
    (fun w _ _ p hp ↦ by cases hp; rfl) hbody (fun w hw _ _ _ ↦ htb u hu w hw) he
  simp only [List.filter_true] at hmeans
  exact hmeans

theorem filterProjection (hsource : source.Agrees) (hpredicate : predicate.Agrees)
    (hbody : body.Agrees) (hl : source.AllLiterals Value.UniqueKeys) :
    (Expr.filterProjection source predicate body).Agrees := by
  intro v r hv ⟨hts, htb⟩ he
  rw [evaluate_filterProjection source predicate body hv.lawful fun u ↦ uniqueKeys_evaluate hl,
    Eval.bind_eq_ok] at he
  obtain ⟨u, hu, he⟩ := he
  refine projected _ (hsource v u hv hts hu) (uniqueKeys_evaluate hl hu) ?_ hbody
    (fun w hw p hp ↦ ((htb u hu w hw).2 p hp).2) he
  intro w hw hw' p hp
  obtain ⟨htransfers, htb⟩ := htb u hu w hw
  exact (hpredicate w p hw' htransfers hp).isTruthy_eq (htb p hp).1

end Agrees

def AgreesItems (es : List Expr) : Prop :=
  ∀ (v : Value) (vs : List Value), v.UniqueKeys → TransfersItems es v → evalItems es v = .ok vs →
    List.Forall₂ Means (accessItems es v.toJson) vs

namespace AgreesItems

variable {e : Expr} {es : List Expr}

theorem nil : AgreesItems [] := by
  intro v vs _ _ he
  cases he
  exact .nil

theorem cons (he : e.Agrees) (hes : AgreesItems es) : AgreesItems (e :: es) := by
  intro v vs hv ⟨ht, hts⟩ h
  rw [evalItems_cons, Eval.bind_eq_ok] at h
  obtain ⟨u, hu, h⟩ := h
  obtain ⟨us, hus, h⟩ := Eval.bind_eq_ok.1 h
  cases h
  exact .cons (he v u hv ht hu) (hes v us hv hts hus)

theorem multiSelectList (hes : AgreesItems es) : (Expr.multiSelectList es).Agrees := by
  intro v r hv ⟨hsurvives, hts⟩ he
  rw [evaluate_multiSelectList, Value.isNull_eq] at he
  rw [access, hsurvives]
  cases hnull : v.isNull with
  | true =>
    rw [hnull, if_pos rfl] at he
    cases he
    exact .none
  | false =>
    rw [hnull] at he
    obtain ⟨vs, hvs, he⟩ := Eval.bind_eq_ok.1 he
    cases he
    exact .array (hes v vs hv (hts hnull) hvs)

theorem functionCall {name : String} {f : Builtin} (hf : Builtin.ofName? name = some f)
    (hreference : ∀ e ∈ es, ∀ inner, e ≠ expressionRef inner) (hes : AgreesItems es)
    (hl : AllLiteralsItems Value.UniqueKeys es) : (Expr.functionCall name es).Agrees := by
  intro v r hv ⟨hts, hkept⟩ he
  rw [evaluate_functionCall, evalArgs_eq_evalItems hreference, bind_assoc, Eval.bind_eq_ok] at he
  obtain ⟨vs, hvs, he⟩ := he
  obtain ⟨hfinite, horder⟩ := hkept vs hvs
  change Builtin.callByName name (vs.map .value) = .ok r at he
  rw [Builtin.callByName, hf] at he
  obtain ⟨w, hw, hjson⟩ :=
    Builtin.call_throughJson hfinite (uniqueKeys_evalItems es hl hvs) (horder f hf) he
  have hcall : Builtin.callByName name ((accessItems es v.toJson).map fun o ↦
      .value (Support.toValue o)) = .ok w := by
    rw [Means.map_toValue (hes v vs hv hts hvs), Builtin.callByName, hf]
    exact hw
  rw [access, Support.call, hcall]
  exact .ofValue hjson

end AgreesItems

def AgreesPairs (ps : List (String × Expr)) : Prop :=
  ∀ (v : Value) (entries : List (String × Value)), v.UniqueKeys → TransfersPairs ps v →
    evalPairs ps v = .ok entries →
    accessPairs ps v.toJson = entries.map fun e ↦ (e.1, e.2.toJson)

namespace AgreesPairs

variable {e : Expr} {ps : List (String × Expr)}

theorem nil : AgreesPairs [] := by
  intro v entries _ _ he
  cases he
  rfl

theorem cons (key : String) (he : e.Agrees) (hps : AgreesPairs ps) :
    AgreesPairs ((key, e) :: ps) := by
  intro v entries hv ⟨ht, hts⟩ h
  rw [evalPairs_cons, Eval.bind_eq_ok] at h
  obtain ⟨u, hu, h⟩ := h
  obtain ⟨us, hus, h⟩ := Eval.bind_eq_ok.1 h
  cases h
  have hmeans : (e.access v.toJson).getD .null = u.toJson := he v u hv ht hu
  rw [accessPairs, hmeans, hps v us hv hts hus, List.map_cons]

theorem multiSelectHash (hps : AgreesPairs ps) : (Expr.multiSelectHash ps).Agrees := by
  intro v r hv ⟨hsurvives, hts⟩ he
  rw [evaluate_multiSelectHash, Value.isNull_eq] at he
  rw [access, hsurvives]
  cases hnull : v.isNull with
  | true =>
    rw [hnull, if_pos rfl] at he
    cases he
    exact .none
  | false =>
    rw [hnull] at he
    obtain ⟨entries, hentries, he⟩ := Eval.bind_eq_ok.1 he
    cases he
    rw [if_neg Bool.false_ne_true, hps v entries hv (hts hnull) hentries, Means, toJson_ofPairs]
    rfl

end AgreesPairs

end Expr

end PathQuery
