import PathQuery.Proofs.Accessor.Handover
import PathQuery.Proofs.Query.Piping
import PathQuery.Query

namespace PathQuery

open Value

namespace Expr

variable {e left right : Expr} {es : List Expr}

theorem mem_nodes_self (e : Expr) : e ∈ e.nodes := by cases e <;> exact List.mem_cons_self

theorem mem_nodesItems (h : e ∈ es) : e ∈ nodesItems es := by
  induction es with
  | nil => cases h
  | cons d es ih =>
    obtain rfl | h := List.mem_cons.1 h
    · exact List.mem_append_left _ e.mem_nodes_self
    · exact List.mem_append_right _ (ih h)

theorem ne_expressionRef_of_supported (h : ∀ node ∈ nodesItems es, node.Supported) :
    ∀ e ∈ es, ∀ inner, e ≠ expressionRef inner := by
  rintro _ he inner rfl
  exact h _ (mem_nodesItems he)

theorem supported_parts (h : ∀ node ∈ e :: (left.nodes ++ right.nodes), node.Supported) :
    (∀ node ∈ left.nodes, node.Supported) ∧ ∀ node ∈ right.nodes, node.Supported :=
  List.forall_mem_append.1 (List.forall_mem_cons.1 h).2

mutual

/-- The accessor of an expression that there is code for gives what the expression gives. -/
theorem agrees : (e : Expr) → e.AllLiterals Value.UniqueKeys →
    (∀ node ∈ e.nodes, node.Supported) → e.Agrees
  | field name, _, _ => .field name
  | index i, _, _ => .index i
  | slice start stop step, _, _ => .slice start stop step
  | currentNode, _, _ => .current
  | literal w, _, _ => .literal w
  | flatten inner, hl, h => (agrees inner hl (List.forall_mem_cons.1 h).2).flatten
  | objectValues inner, hl, h => (agrees inner hl (List.forall_mem_cons.1 h).2).objectValues
  | not inner, hl, h => (agrees inner hl (List.forall_mem_cons.1 h).2).negation
  | comparison op left right, hl, h => by
    obtain ⟨hleft, hright⟩ := supported_parts h
    exact (agrees left hl.1 hleft).comparison op (agrees right hl.2 hright) hl.1 hl.2
  | subexpression left right, hl, h => by
    obtain ⟨hleft, hright⟩ := supported_parts h
    exact (agrees left hl.1 hleft).subexpression (agrees right hl.2 hright) hl.1
  | pipe left right, hl, h => by
    obtain ⟨hleft, hright⟩ := supported_parts h
    exact (agrees left hl.1 hleft).pipe (agrees right hl.2 hright) hl.1
  | or left right, hl, h => by
    obtain ⟨hleft, hright⟩ := supported_parts h
    exact (agrees left hl.1 hleft).or (agrees right hl.2 hright)
  | and left right, hl, h => by
    obtain ⟨hleft, hright⟩ := supported_parts h
    exact (agrees left hl.1 hleft).and (agrees right hl.2 hright)
  | projection source body, hl, h => by
    obtain ⟨hsource, hbody⟩ := supported_parts h
    exact (agrees source hl.1 hsource).projection (agrees body hl.2 hbody) hl.1
  | filterProjection source predicate body, hl, h => by
    obtain ⟨hsource, h⟩ := List.forall_mem_append.1 (List.forall_mem_cons.1 h).2
    obtain ⟨hpredicate, hbody⟩ := List.forall_mem_append.1 h
    exact (agrees source hl.1 hsource).filterProjection (agrees predicate hl.2.1 hpredicate)
      (agrees body hl.2.2 hbody) hl.1
  | multiSelectList items, hl, h =>
    (agreesItems items hl (List.forall_mem_cons.1 h).2).multiSelectList
  | multiSelectHash pairs, hl, h =>
    (agreesPairs pairs hl (List.forall_mem_cons.1 h).2).multiSelectHash
  | functionCall name args, hl, h => by
    obtain ⟨⟨f, hf, -⟩, h⟩ := List.forall_mem_cons.1 h
    exact (agreesItems args hl h).functionCall hf (ne_expressionRef_of_supported h) hl
  | expressionRef inner, _, h => (h _ (mem_nodes_self _)).elim
termination_by structural e => e

theorem agreesItems : (es : List Expr) → AllLiteralsItems Value.UniqueKeys es →
    (∀ node ∈ nodesItems es, node.Supported) → AgreesItems es
  | [], _, _ => .nil
  | e :: es, hl, h => by
    obtain ⟨he, hes⟩ := List.forall_mem_append.1 h
    exact (agreesItems es hl.2 hes).cons (agrees e hl.1 he)
termination_by structural es => es

theorem agreesPairs : (ps : List (String × Expr)) → AllLiteralsPairs Value.UniqueKeys ps →
    (∀ node ∈ nodesPairs ps, node.Supported) → AgreesPairs ps
  | [], _, _ => .nil
  | (key, e) :: ps, hl, h => by
    obtain ⟨he, hps⟩ := List.forall_mem_append.1 h
    exact (agreesPairs ps hl.2 hps).cons key (agrees e hl.1 he)
termination_by structural ps => ps

end

end Expr

/-- An accessor for an expression gives what a search with the expression gives, on a document whose
integers fit and on which nothing is lost between the parts of the expression. -/
theorem denote_eq_search {text : String} {q : Query} {style : NullCheck} {c : Code} {n n' : Nat}
    {document result : Json} (hq : Query.compile text = .ok q)
    (hc : q.expr.code style .input n = .ok c n') (hdocument : document.Fits)
    (htransfers : q.expr.Transfers (.ofJson document)) (hsearch : q.search document = .ok result) :
    (c.denote (.ofInput document)).getD .null = result := by
  rw [Query.search, Eval.bind_eq_ok] at hsearch
  obtain ⟨r, hr, hsearch⟩ := hsearch
  cases hsearch
  rw [Query.evaluateNode, ← q.expr.evaluate_ofNode hdocument.uniqueKeys.lawful,
    ofNode_eq_ofJson] at hr
  have hagrees := q.expr.agrees (Query.uniqueKeys_of_compile hq) (Expr.supported_of_code hc)
  have hmeans := hagrees (.ofJson document) r (uniqueKeys_ofJson _) htransfers hr
  rw [hdocument.toJson_ofJson] at hmeans
  rw [Expr.denote_code hc]
  exact hmeans

/-- The keys of a new object that stand in ascending order come out of the accessor the same. -/
theorem denote_eq_search_of_ascending_keys :
    Query.compile "keys(\x7ba: @, b: @\x7d)" = .ok ⟨"keys(\x7ba: @, b: @\x7d)", .functionCall "keys"
      [.multiSelectHash [("a", .currentNode), ("b", .currentNode)]]⟩ ∧
    ((Code.call "keys" [.andThenPresent .input 0 (.object 1
      [("a", .current (.temp 0)), ("b", .current (.temp 0))])]).denote
        (.ofInput (.bool true))).getD .null = .array [.string "a", .string "b"] := by
  have htokens : Token.ofString "keys(\x7ba: @, b: @\x7d)" = .ok
      [⟨.identifier "keys", "keys", 0⟩, ⟨.symbol .leftParen, "(", 4⟩,
        ⟨.symbol .leftBrace, "\x7b", 5⟩, ⟨.identifier "a", "a", 6⟩, ⟨.symbol .colon, ":", 7⟩,
        ⟨.symbol .current, "@", 9⟩, ⟨.symbol .comma, ",", 10⟩, ⟨.identifier "b", "b", 12⟩,
        ⟨.symbol .colon, ":", 13⟩, ⟨.symbol .current, "@", 15⟩, ⟨.symbol .rightBrace, "\x7d", 16⟩,
        ⟨.symbol .rightParen, ")", 17⟩, ⟨.endOfInput, "", 18⟩] := rfl
  have hcompile : Query.compile "keys(\x7ba: @, b: @\x7d)" = .ok ⟨"keys(\x7ba: @, b: @\x7d)",
    .functionCall "keys" [.multiSelectHash [("a", .currentNode), ("b", .currentNode)]]⟩ := by
    rw [Query.compile_eq_of_tokens htokens]
    rfl
  have hcode :
      (Expr.functionCall "keys"
        [.multiSelectHash [("a", .currentNode), ("b", .currentNode)]]).code .coalescing .input 0 =
        .ok (.call "keys" [.andThenPresent .input 0 (.object 1
          [("a", .current (.temp 0)), ("b", .current (.temp 0))])]) 2 := rfl
  refine ⟨hcompile, denote_eq_search hcompile hcode
    (.bool true) ⟨⟨⟨rfl, fun _ ↦ ⟨trivial, trivial, trivial⟩⟩, trivial⟩, ?_⟩ rfl⟩
  intro vs hvs
  cases hvs
  refine ⟨List.forall_mem_singleton.2 (.object ?_), ?_⟩
  · change ∀ e ∈ [("a", Value.bool true), ("b", Value.bool true)], e.2.Finite
    simp [Value.Finite.bool]
  · intro f hf
    cases hf
    refine List.forall_mem_singleton.2 ?_
    change Entries.Ascending [("a", Value.bool true), ("b", Value.bool true)]
    exact List.pairwise_pair.2 (by decide)

/-- In any other order they do not, though the document fits and the search gives a result. -/
theorem denote_ne_search_of_descending_keys :
    ¬ ∀ {text : String} {q : Query} {style : NullCheck} {c : Code} {n n' : Nat}
      {document result : Json}, Query.compile text = .ok q →
      q.expr.code style .input n = .ok c n' → document.Fits → q.search document = .ok result →
      (c.denote (.ofInput document)).getD .null = result := by
  intro h
  have htokens : Token.ofString "keys(\x7bb: @, a: @\x7d)" = .ok
      [⟨.identifier "keys", "keys", 0⟩, ⟨.symbol .leftParen, "(", 4⟩,
        ⟨.symbol .leftBrace, "\x7b", 5⟩, ⟨.identifier "b", "b", 6⟩, ⟨.symbol .colon, ":", 7⟩,
        ⟨.symbol .current, "@", 9⟩, ⟨.symbol .comma, ",", 10⟩, ⟨.identifier "a", "a", 12⟩,
        ⟨.symbol .colon, ":", 13⟩, ⟨.symbol .current, "@", 15⟩, ⟨.symbol .rightBrace, "\x7d", 16⟩,
        ⟨.symbol .rightParen, ")", 17⟩, ⟨.endOfInput, "", 18⟩] := rfl
  have hcompile : Query.compile "keys(\x7bb: @, a: @\x7d)" = .ok ⟨"keys(\x7bb: @, a: @\x7d)",
    .functionCall "keys" [.multiSelectHash [("b", .currentNode), ("a", .currentNode)]]⟩ := by
    rw [Query.compile_eq_of_tokens htokens]
    rfl
  have hcode :
      (Expr.functionCall "keys"
        [.multiSelectHash [("b", .currentNode), ("a", .currentNode)]]).code .coalescing .input 0 =
        .ok (.call "keys" [.andThenPresent .input 0 (.object 1
          [("b", .current (.temp 0)), ("a", .current (.temp 0))])]) 2 := rfl
  have hkeys : Json.array [.string "a", .string "b"] = .array [.string "b", .string "a"] :=
    h hcompile hcode (.bool true) rfl
  simp at hkeys

end PathQuery
