import PathQuery.Proofs.Accessor.Emission
import PathQuery.Proofs.Accessor.Meaning
import PathQuery.Proofs.Accessor.Runs

namespace PathQuery

namespace Expr

mutual

def access : Expr → Json → Option Json
  | field name, j => DataNode.field? j name
  | index i, j => Support.index j i
  | slice start stop step, j => Support.slice j start stop step
  | flatten inner, j => Support.flatten (access inner j)
  | objectValues inner, j => Support.objectValues (access inner j)
  | subexpression left right, j =>
    ((access left j).filter Code.notNull).bind fun k ↦ access right k
  | pipe left right, j => access right ((access left j).getD .null)
  | projection source body, j =>
    ((access source j).bind Json.array?).map fun js ↦
      .array (js.filterMap fun k ↦ (access body k).filter Code.notNull)
  | filterProjection source predicate body, j =>
    ((access source j).bind Json.array?).map fun js ↦
      .array ((js.filter fun k ↦ Support.isTruthy (access predicate k)).filterMap fun k ↦
        (access body k).filter Code.notNull)
  | multiSelectList items, j =>
    if j.isNull then none else some (.array ((accessItems items j).map (·.getD .null)))
  | multiSelectHash pairs, j =>
    if j.isNull then none else some (.object (Entries.sortPairs (accessPairs pairs j)))
  | or left right, j => ((access left j).filter Support.isTruthyValue).or (access right j)
  | and left right, j =>
    if Support.isTruthy (access left j) then access right j else access left j
  | not inner, j => some (.bool !(Support.isTruthy (access inner j)))
  | comparison op left right, j => Support.compare op.text (access left j) (access right j)
  | functionCall name args, j => Support.call name (accessItems args j)
  | expressionRef _, _ => none
  | currentNode, j => some j
  | literal v, _ => some v.toJson
termination_by structural e => e

def accessItems : List Expr → Json → List (Option Json)
  | [], _ => []
  | e :: es, j => access e j :: accessItems es j
termination_by structural es => es

def accessPairs : List (String × Expr) → Json → List (String × Json)
  | [], _ => []
  | (key, e) :: ps, j => (key, (access e j).getD .null) :: accessPairs ps j
termination_by structural ps => ps

end

end Expr

namespace Code

variable {s : Scope} {x : Var} {c d : Code} {j : Json} {o : Option Json}

theorem denoteItems_operand (cs : List Code) (s : Scope) :
    denoteItems (cs.map operand) s = denoteItems cs s := by
  induction cs with
  | nil => rfl
  | cons c cs ih => rw [List.map_cons, denoteItems, denoteItems, denote_operand, ih]

theorem denote_unlessNull (hx : s x = some j) (t : Nat) (body : Code) :
    (unlessNull x t body).denote s =
      if j.isNull then none else body.denote (s.bind t (some j)) := by
  rw [denote, hx]
  rfl

theorem denote_mapItems {items item : Nat} {test : Option Code} {p : Json → Bool}
    {f : Json → Option Json} (hc : c.denote s = o)
    (htest : ∀ (s : Scope) (k : Json), s (.temp item) = some k → denoteTest test s = p k)
    (hd : ∀ (s : Scope) (k : Json), s (.temp item) = some k → d.denote s = f k) :
    (mapItems c.operand items item test d.operand).denote s =
      (o.bind Json.array?).map fun js ↦
        .array ((js.filter p).filterMap fun k ↦ (f k).filter notNull) := by
  rw [denote, denote_operand, hc]
  refine congrArg (Option.map · _) (funext fun js ↦ ?_)
  simp only [denote_operand, htest _ _ (Scope.bind_self ..), hd _ _ (Scope.bind_self ..)]

theorem denote_mapItems_none {items item : Nat} {f : Json → Option Json} (hc : c.denote s = o)
    (hd : ∀ (s : Scope) (k : Json), s (.temp item) = some k → d.denote s = f k) :
    (mapItems c.operand items item none d.operand).denote s =
      (o.bind Json.array?).map fun js ↦ .array (js.filterMap fun k ↦ (f k).filter notNull) := by
  rw [denote_mapItems (p := fun _ ↦ true) hc (fun _ _ _ ↦ rfl) hd]
  simp only [List.filter_true]

/-- A choice that gives the tested value where it is true, and other code elsewhere. -/
theorem denote_letIf_or {t : Nat} (hx : x ≠ .temp t) (hs : s x = some j)
    (hd : ∀ s : Scope, s x = some j → d.denote s = o) :
    (letIf t c (.optional t) d).denote s = ((c.denote s).filter Support.isTruthyValue).or o := by
  have hd' : d.denote (s.bind t (c.denote s)) = o := hd _ ((s.bind_of_ne hx _).trans hs)
  rw [denote, hd', denote, Scope.bind_self]
  cases c.denote s with
  | none => rfl
  | some k =>
    rw [Support.isTruthy, Option.any_some, Option.filter_some]
    cases Support.isTruthyValue k <;> rfl

/-- A choice that gives other code where the tested value is true, and this value elsewhere. -/
theorem denote_letIf_and {t : Nat} (hx : x ≠ .temp t) (hs : s x = some j)
    (hd : ∀ s : Scope, s x = some j → d.denote s = o) :
    (letIf t c d (.optional t)).denote s =
      if Support.isTruthy (c.denote s) then o else c.denote s := by
  have hd' : d.denote (s.bind t (c.denote s)) = o := hd _ ((s.bind_of_ne hx _).trans hs)
  rw [denote, hd', denote, Scope.bind_self]

end Code

open Code

mutual

/-- Wherever its variable holds a document, the code gives what the accessor gives for that. -/
theorem Emits.denote_eq {style : NullCheck} {e : Expr} {x : Var} {n n' : Nat} {c : Code} :
    Emits style e x n c n' → x.Before n → ∀ (s : Scope) (j : Json), s x = some j →
      c.denote s = e.access j
  | .field name x n, _, s, j, hs => by
    rw [denote, hs]
    rfl
  | .index i x n, _, s, j, hs => by
    rw [denote, hs]
    rfl
  | .slice start stop step x n, _, s, j, hs => by
    rw [denote, hs]
    rfl
  | .current x n, _, s, j, hs => hs
  | .literal v x n, _, s, j, hs => rfl
  | .flatten h, hx, s, j, hs => by
    rw [denote, Expr.access, h.denote_eq hx s j hs]
  | .objectValues h, hx, s, j, hs => by
    rw [denote, Expr.access, h.denote_eq hx s j hs]
  | .negation h, hx, s, j, hs => by
    rw [denote, Expr.access, h.denote_eq hx s j hs]
  | .comparison op hl hr, hx, s, j, hs => by
    rw [denote, Expr.access, hl.denote_eq hx s j hs, hr.denote_eq (hx.mono hl.le) s j hs]
  | .call name h, hx, s, j, hs => by
    rw [denote, Expr.access, h.denote_eq hx s j hs]
  | .andThen hl hr, hx, s, j, hs => by
    rw [denote, denote, denote_operand, Expr.access, hl.denote_eq hx s j hs]
    refine congrArg (Option.bind _) (funext fun k ↦ ?_)
    exact hr.denote_eq (Nat.lt_succ_self _) _ k (Scope.bind_self ..)
  | .ifSome hl hr, hx, s, j, hs => by
    rw [denote_ifSome, denote, denote, denote_operand, Expr.access, hl.denote_eq hx s j hs]
    refine congrArg (Option.bind _) (funext fun k ↦ ?_)
    exact hr.denote_eq (Nat.lt_succ_self _) _ k (Scope.bind_self ..)
  | .letOrNull hl hr, hx, s, j, hs => by
    rw [denote, denote_operand, Expr.access, hl.denote_eq hx s j hs]
    exact hr.denote_eq (Nat.lt_succ_self _) _ _ (Scope.bind_self ..)
  | .mapItems hsource hbody, hx, s, j, hs =>
    denote_mapItems_none (hsource.denote_eq hx s j hs) (hbody.denote_eq (Nat.lt_succ_self _))
  | .forItems hsource hbody, hx, s, j, hs => by
    rw [denote_forItems]
    exact denote_mapItems_none (hsource.denote_eq hx s j hs) (hbody.denote_eq (Nat.lt_succ_self _))
  | .mapKept hsource htest hbody, hx, s, j, hs => by
    refine denote_mapItems (hsource.denote_eq hx s j hs) (fun s k hk ↦ ?_)
      (hbody.denote_eq (Nat.lt_of_succ_le htest.le))
    rw [denoteTest, htest.denote_eq (Nat.lt_succ_self _) s k hk]
  | .forKept hsource htest hbody, hx, s, j, hs => by
    rw [denote_forItems]
    refine denote_mapItems (hsource.denote_eq hx s j hs) (fun s k hk ↦ ?_)
      (hbody.denote_eq (Nat.lt_of_succ_le htest.le))
    rw [denoteTest, htest.denote_eq (Nat.lt_succ_self _) s k hk]
  | .mapPresent x h, hx, s, j, hs => by
    rw [denote_mapPresent, denote_unlessNull hs, denote, denoteItems_operand, Expr.access,
      h.denote_eq (Nat.lt_succ_self _) _ j (Scope.bind_self ..)]
  | .listUnlessNull x h, hx, s, j, hs => by
    rw [denote_unlessNull hs, denote, denoteItems_operand, Expr.access,
      h.denote_eq (Nat.lt_succ_self _) _ j (Scope.bind_self ..)]
  | .andThenPresent x h, hx, s, j, hs => by
    rw [denote_andThenPresent, denote_unlessNull hs, denote, Expr.access,
      h.denote_eq (Nat.lt_succ_of_lt (Nat.lt_succ_self _)) _ j (Scope.bind_self ..)]
  | .objectUnlessNull x h, hx, s, j, hs => by
    rw [denote_unlessNull hs, denote, Expr.access,
      h.denote_eq (Nat.lt_succ_of_lt (Nat.lt_succ_self _)) _ j (Scope.bind_self ..)]
  | .orElse hl hr, hx, s, j, hs => by
    rw [denote, denote, denote_operand, Expr.access, hl.denote_eq hx s j hs,
      hr.denote_eq (hx.mono hl.le) s j hs]
  | .letIfOr hl hr, hx, s, j, hs => by
    rw [denote_letIf_or (hx.mono (hl.le.trans hr.le)).ne hs (hr.denote_eq (hx.mono hl.le) · j),
      denote_operand, Expr.access, hl.denote_eq hx s j hs]
  | .letIfAnd hl hr, hx, s, j, hs => by
    rw [denote_letIf_and (hx.mono (hl.le.trans hr.le)).ne hs (hr.denote_eq (hx.mono hl.le) · j),
      Expr.access, hl.denote_eq hx s j hs]

theorem EmitsItems.denote_eq {style : NullCheck} {es : List Expr} {x : Var} {n n' : Nat}
    {cs : List Code} : EmitsItems style es x n cs n' → x.Before n → ∀ (s : Scope) (j : Json),
      s x = some j → denoteItems cs s = Expr.accessItems es j
  | .nil .., _, s, j, hs => rfl
  | .cons h h', hx, s, j, hs => by
    rw [denoteItems, Expr.accessItems, h.denote_eq hx s j hs, h'.denote_eq (hx.mono h.le) s j hs]

theorem EmitsPairs.denote_eq {style : NullCheck} {ps : List (String × Expr)} {x : Var} {n n' : Nat}
    {cs : List (String × Code)} : EmitsPairs style ps x n cs n' → x.Before n →
      ∀ (s : Scope) (j : Json), s x = some j → denoteEntries cs s = Expr.accessPairs ps j
  | .nil .., _, s, j, hs => rfl
  | .cons key h h', hx, s, j, hs => by
    rw [denoteEntries, Expr.accessPairs, denote_operand, h.denote_eq hx s j hs,
      h'.denote_eq (hx.mono h.le) s j hs]

end

/-- The code of an expression means what the accessor gives, in any style and of any count. -/
theorem Expr.denote_code {style : NullCheck} {e : Expr} {n n' : Nat} {c : Code}
    (h : e.code style .input n = .ok c n') (document : Json) :
    c.denote (.ofInput document) = e.access document :=
  (emits_of_code style h).denote_eq trivial (.ofInput document) document rfl

/-- An expression that there is code for in one style has code in the other, and both give the same
for every document, also as to absence and null. -/
theorem denote_eq_of_style {e : Expr} {style : NullCheck} {m m' : Nat} {c : Code}
    (h : e.code style .input m = .ok c m') (style' : NullCheck) (n : Nat) :
    ∃ d n', e.code style' .input n = .ok d n' ∧
      ∀ document : Json, c.denote (.ofInput document) = d.denote (.ofInput document) := by
  have hfault := ((e.runs_code style .input).ok_iff m).1 ⟨c, m', h⟩
  obtain ⟨d, n', hd⟩ := ((e.runs_code style' .input).ok_iff n).2 hfault
  exact ⟨d, n', hd, fun document ↦
    (e.denote_code h document).trans (e.denote_code hd document).symm⟩

/-- An alternative to null from an absent field: both styles give null, not absence. -/
theorem denote_eq_of_style_or :
    (Expr.or (.field "a") (.literal .null)).code .explicitIf .input 0 =
      .ok (.letIf 0 (.field .input "a") (.optional 0) (.literal .null)) 1 ∧
    ∃ d n', (Expr.or (.field "a") (.literal .null)).code .coalescing .input 7 = .ok d n' ∧
      ∀ document : Json,
        (Code.letIf 0 (.field .input "a") (.optional 0) (.literal .null)).denote
          (.ofInput document) =
          d.denote (.ofInput document) := by
  have h : (Expr.or (.field "a") (.literal .null)).code .explicitIf .input 0 =
      .ok (.letIf 0 (.field .input "a") (.optional 0) (.literal .null)) 1 := rfl
  exact ⟨h, denote_eq_of_style h .coalescing 7⟩

end PathQuery
