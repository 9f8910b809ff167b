import PathQuery.Proofs.Eval.Reordered

namespace PathQuery

open Eval Value

theorem Eval.Alike.map_eq {α β γ : Type} {R : α → β → Prop} {m : Except EvalError α}
    {m' : Except EvalError β} {f : α → γ} {g : β → γ} (h : Alike R m m')
    (hfg : ∀ a b, R a b → f a = g b) : m.map f = m'.map g := by
  cases h with
  | error x => rfl
  | ok hab => exact congrArg Except.ok (hfg _ _ hab)

namespace Query

variable {q : Query}

/-- The order of keys does not leak through a query that does not read it: on values that differ in
it alone the results differ in it alone, or the errors are the same. So it makes no difference
whether the keys of a document are sorted before it is searched. -/
theorem alike_of_orderBlind (hl : q.expr.AllLiterals Value.UniqueKeys) (ho : q.expr.OrderBlind) :
    (∀ v w : Value, v.Reordered w →
      Alike Value.Reordered (q.evaluateNode v) (q.evaluateNode w)) ∧
    ∀ document : Json,
      Alike Value.Reordered (q.evaluateNode document.sorted)
        (q.evaluateNode (Value.ofJson document)) ∧
      q.search document.sorted = (q.evaluateNode (Value.ofJson document)).map Value.toJson := by
  have halike := Expr.alike_evaluate q.expr hl ho
  refine ⟨halike, fun document ↦ ?_⟩
  have hsorted :
      q.evaluateNode document.sorted = q.evaluateNode (Value.ofJson document.sorted) := by
    rw [← ofNode_eq_ofJson]
    exact (q.expr.evaluate_ofNode document.uniqueKeys_sorted.lawful).symm
  have hdocument : Alike Value.Reordered (q.evaluateNode document.sorted)
      (q.evaluateNode (Value.ofJson document)) := by
    rw [hsorted]
    exact halike _ _ (reordered_ofJson_sorted document)
  refine ⟨hdocument, ?_⟩
  have hsearch : q.search document.sorted = (q.evaluateNode document.sorted).map Value.toJson := by
    rw [search]
    cases q.evaluateNode document.sorted <;> rfl
  rw [hsearch]
  exact hdocument.map_eq fun _ _ hab ↦ hab.toJson_eq

theorem alike_of_orderBlind_maxBy :
    compile "max_by(@, &a)" = .ok ⟨"max_by(@, &a)",
      .functionCall "max_by" [.currentNode, .expressionRef (.field "a")]⟩ ∧
    (Expr.functionCall "max_by" [.currentNode, .expressionRef (.field "a")]).AllLiterals
      Value.UniqueKeys ∧
    (Expr.functionCall "max_by" [.currentNode, .expressionRef (.field "a")]).OrderBlind ∧
    (Value.array [.object [("a", .int 1), ("b", .null)]]).Reordered
      (.array [.object [("b", .null), ("a", .int 1)]]) ∧
    Alike Value.Reordered
      ((Query.mk "max_by(@, &a)"
        (.functionCall "max_by" [.currentNode, .expressionRef (.field "a")])).evaluateNode
          (Value.array [.object [("a", .int 1), ("b", .null)]]))
      ((Query.mk "max_by(@, &a)"
        (.functionCall "max_by" [.currentNode, .expressionRef (.field "a")])).evaluateNode
          (Value.array [.object [("b", .null), ("a", .int 1)]])) ∧
    (Query.mk "max_by(@, &a)"
      (.functionCall "max_by" [.currentNode, .expressionRef (.field "a")])).search
        (Json.array [.object [("b", .null), ("a", .number (.natural 1))]]).sorted =
      .ok (.object [("a", .number (.natural 1)), ("b", .null)]) := by
  have hliterals : (Expr.functionCall "max_by"
      [.currentNode, .expressionRef (.field "a")]).AllLiterals Value.UniqueKeys := by
    simp [Expr.AllLiterals, Expr.AllLiteralsItems]
  have hfield : (Expr.field "a").OrderBlind := .of_parts rfl nofun
  have hreference : (Expr.expressionRef (.field "a")).OrderBlind :=
    .of_parts rfl (List.forall_mem_singleton.2 hfield)
  have hblind : (Expr.functionCall "max_by"
      [.currentNode, .expressionRef (.field "a")]).OrderBlind :=
    .of_parts rfl (List.forall_mem_cons.2
      ⟨.of_parts rfl nofun, List.forall_mem_singleton.2 hreference⟩)
  have hunique : (Value.object [("a", .int 1), ("b", .null)]).UniqueKeys :=
    .object (by simp) (by simpa using ⟨.int 1, .null⟩)
  have hreordered : (Value.array [.object [("a", .int 1), ("b", .null)]]).Reordered
      (.array [.object [("b", .null), ("a", .int 1)]]) :=
    .array (.cons (reordered_of_perm hunique (.swap ..)) .nil)
  obtain ⟨hvalues, hdocuments⟩ := alike_of_orderBlind (q := ⟨"max_by(@, &a)", _⟩) hliterals hblind
  have htokens : Token.ofString "max_by(@, &a)" = .ok
      [⟨.identifier "max_by", "max_by", 0⟩, ⟨.symbol .leftParen, "(", 6⟩,
        ⟨.symbol .current, "@", 7⟩, ⟨.symbol .comma, ",", 8⟩, ⟨.symbol .ampersand, "&", 10⟩,
        ⟨.identifier "a", "a", 11⟩, ⟨.symbol .rightParen, ")", 12⟩, ⟨.endOfInput, "", 13⟩] := rfl
  have hcompile : compile "max_by(@, &a)" = .ok ⟨"max_by(@, &a)",
      .functionCall "max_by" [.currentNode, .expressionRef (.field "a")]⟩ := by
    rw [compile_eq_of_tokens htokens]
    rfl
  exact ⟨hcompile, hliterals, hblind, hreordered, hvalues _ _ hreordered,
    (hdocuments _).2.trans rfl⟩

end Query

end PathQuery
