import Mathlib.Tactic
import PathQuery.Proofs.Query.Embedding
import PathQuery.Proofs.Value.Equality

namespace PathQuery

namespace Value

theorem Canonical.beq_self {n : Nat} {v : Value} (h : v.Canonical n) : (v == v) = true := by
  have hkeys : v.UniqueKeys := by
    rw [← h.throughJson_eq]
    exact uniqueKeys_ofJson _
  exact h.floatFree.finite.beq_self hkeys

end Value

namespace Expr

mutual

theorem beq_self : ∀ e : Expr, e.AllLiterals (fun v ↦ (v == v) = true) → beq e e = true
  | field name, _ => beq_self_eq_true name
  | index i, _ => beq_self_eq_true i
  | slice .., _ => by simp [beq]
  | flatten inner, h => beq_self inner h
  | objectValues inner, h => beq_self inner h
  | subexpression left right, h => Bool.and_eq_true_iff.2 ⟨beq_self left h.1, beq_self right h.2⟩
  | pipe left right, h => Bool.and_eq_true_iff.2 ⟨beq_self left h.1, beq_self right h.2⟩
  | projection source body, h => Bool.and_eq_true_iff.2 ⟨beq_self source h.1, beq_self body h.2⟩
  | filterProjection source predicate body, h => Bool.and_eq_true_iff.2
    ⟨Bool.and_eq_true_iff.2 ⟨beq_self source h.1, beq_self predicate h.2.1⟩, beq_self body h.2.2⟩
  | multiSelectList items, h => beqItems_self items h
  | multiSelectHash pairs, h => beqPairs_self pairs h
  | or left right, h => Bool.and_eq_true_iff.2 ⟨beq_self left h.1, beq_self right h.2⟩
  | and left right, h => Bool.and_eq_true_iff.2 ⟨beq_self left h.1, beq_self right h.2⟩
  | not inner, h => beq_self inner h
  | comparison op left right, h => Bool.and_eq_true_iff.2
    ⟨Bool.and_eq_true_iff.2 ⟨beq_self_eq_true op, beq_self left h.1⟩, beq_self right h.2⟩
  | functionCall name args, h =>
    Bool.and_eq_true_iff.2 ⟨beq_self_eq_true name, beqItems_self args h⟩
  | expressionRef inner, h => beq_self inner h
  | currentNode, _ => rfl
  | literal _, h => h
termination_by structural e => e

theorem beqItems_self : ∀ es : List Expr, AllLiteralsItems (fun v ↦ (v == v) = true) es →
    beqItems es es = true
  | [], _ => rfl
  | e :: es, h => Bool.and_eq_true_iff.2 ⟨beq_self e h.1, beqItems_self es h.2⟩
termination_by structural es => es

theorem beqPairs_self : ∀ ps : List (String × Expr),
    AllLiteralsPairs (fun v ↦ (v == v) = true) ps → beqPairs ps ps = true
  | [], _ => rfl
  | (key, e) :: ps, h => Bool.and_eq_true_iff.2
    ⟨Bool.and_eq_true_iff.2 ⟨beq_self_eq_true key, beq_self e h.1⟩, beqPairs_self ps h.2⟩
termination_by structural ps => ps

end

end Expr

namespace Query

variable {q : Query} {text : String}

/-- The text printed for a faithful expression without floats compiles to an equal tree. -/
theorem compile_printed (h : compile text = .ok q) (hfloats : q.expr.AllLiterals Value.FloatFree)
    (hfaithful : q.expr.isFaithful false = true) :
    ∃ r, compile q.expr.text = .ok r ∧ r.expr = q.expr ∧ (r.expr == q.expr) = true := by
  have hparsed := (ofString_of_compile h).2
  have hcanonical := Expr.canonical_of_ofString hparsed hfloats
  have hself := Expr.beq_self q.expr
    (Expr.AllLiterals.imp (fun _ hv _ ↦ hv.beq_self) q.expr hcanonical hcanonical)
  refine ⟨⟨q.expr.text, q.expr⟩, ?_, rfl, hself⟩
  rw [compile, Expr.ofString_text hparsed hfloats hfaithful]
  rfl

theorem compile_printed_of_comparison :
    compile "!(a || b)[1:] == (sort_by(c, &d))[0]" =
      .ok ⟨"!(a || b)[1:] == (sort_by(c, &d))[0]", .comparison .equal
        (.not (.projection (.subexpression (.or (.field "a") (.field "b"))
          (.slice (some 1) none none)) .currentNode))
        (.subexpression (.functionCall "sort_by" [.field "c", .expressionRef (.field "d")])
          (.index 0))⟩ ∧
    (Expr.comparison .equal
      (.not (.projection (.subexpression (.or (.field "a") (.field "b"))
        (.slice (some 1) none none)) .currentNode))
      (.subexpression (.functionCall "sort_by" [.field "c", .expressionRef (.field "d")])
        (.index 0))).isFaithful false = true ∧
    ∃ r, compile "!((a || b)[1:]) == sort_by(c, &d)[0]" = .ok r ∧
      r.expr = .comparison .equal
        (.not (.projection (.subexpression (.or (.field "a") (.field "b"))
          (.slice (some 1) none none)) .currentNode))
        (.subexpression (.functionCall "sort_by" [.field "c", .expressionRef (.field "d")])
          (.index 0)) := by
  have htokens : Token.ofString "!(a || b)[1:] == (sort_by(c, &d))[0]" = .ok
      [⟨.symbol .not, "!", 0⟩, ⟨.symbol .leftParen, "(", 1⟩, ⟨.identifier "a", "a", 2⟩,
        ⟨.symbol .or, "||", 4⟩, ⟨.identifier "b", "b", 7⟩, ⟨.symbol .rightParen, ")", 8⟩,
        ⟨.symbol .leftBracket, "[", 9⟩, ⟨.number 1, "1", 10⟩, ⟨.symbol .colon, ":", 11⟩,
        ⟨.symbol .rightBracket, "]", 12⟩, ⟨.symbol (.comparator .equal), "==", 14⟩,
        ⟨.symbol .leftParen, "(", 17⟩, ⟨.identifier "sort_by", "sort_by", 18⟩,
        ⟨.symbol .leftParen, "(", 25⟩, ⟨.identifier "c", "c", 26⟩, ⟨.symbol .comma, ",", 27⟩,
        ⟨.symbol .ampersand, "&", 29⟩, ⟨.identifier "d", "d", 30⟩, ⟨.symbol .rightParen, ")", 31⟩,
        ⟨.symbol .rightParen, ")", 32⟩, ⟨.symbol .leftBracket, "[", 33⟩, ⟨.number 0, "0", 34⟩,
        ⟨.symbol .rightBracket, "]", 35⟩, ⟨.endOfInput, "", 36⟩] := by cbv
  have hq : compile "!(a || b)[1:] == (sort_by(c, &d))[0]" =
      .ok ⟨"!(a || b)[1:] == (sort_by(c, &d))[0]", .comparison .equal
        (.not (.projection (.subexpression (.or (.field "a") (.field "b"))
          (.slice (some 1) none none)) .currentNode))
        (.subexpression (.functionCall "sort_by" [.field "c", .expressionRef (.field "d")])
          (.index 0))⟩ := by
    rw [compile_eq_of_tokens htokens]
    rfl
  obtain ⟨r, hr, hexpr, -⟩ := compile_printed hq (by simp [Expr.AllLiterals,
    Expr.AllLiteralsItems]) (by rfl)
  exact ⟨hq, by rfl, r, hr, hexpr⟩

/-- A bare list of values behind an open projection is printed as a wildcard is. -/
theorem compile_printed_ne_of_star_list :
    ∃ q r, compile "a[*].[*]" = .ok q ∧ q.expr.AllLiterals Value.FloatFree ∧
      compile q.expr.text = .ok r ∧ (r.expr == q.expr) = false := by
  have hq : compile "a[*].[*]" = .ok ⟨"a[*].[*]", .projection (.field "a") (.multiSelectList
    [.projection (.objectValues .currentNode) .currentNode])⟩ := by cbv
  have hr : compile "a[*][*]" =
    .ok ⟨"a[*][*]", .projection (.field "a") (.projection .currentNode .currentNode)⟩ := by cbv
  exact ⟨_, _, hq, by simp [Expr.AllLiterals, Expr.AllLiteralsItems], hr, by rfl⟩

end Query

end PathQuery
