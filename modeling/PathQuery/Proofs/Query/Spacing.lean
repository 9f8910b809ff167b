import PathQuery.Proofs.Expr.WellFormed
import PathQuery.Proofs.Parser.Moving

namespace PathQuery.Query

variable {w : Nat → List Char} {text : String} {tokens : List Token}

/-- White space that is put before, between and behind the tokens of a text moves them and changes
nothing else. So the query has the same tree, or the same fault is found where its place was moved
to. -/
theorem compile_spread (h : Token.ofString text = .ok tokens)
    (hw : ∀ i, ∀ c ∈ w i, Text.isBlank c = true) (hts : ∀ t ∈ tokens, t.Unbroken w) :
    Token.ofString (String.ofList (Text.spread w 0 text.toList)) =
        .ok (tokens.map (Token.moved (Text.moved w))) ∧
      compile (String.ofList (Text.spread w 0 text.toList)) =
        match compile text with
        | .ok q => .ok ⟨String.ofList (Text.spread w 0 text.toList), q.expr⟩
        | .error e => .error ⟨Text.moved w e.position, e.fault⟩ := by
  have hspread := Token.ofString_spread hw h hts
  have hne : tokens ≠ [] := by
    obtain ⟨ts, -, -, -, rfl⟩ := Token.run_of_ofString h
    exact List.append_ne_nil_of_right_ne_nil _ (List.cons_ne_nil _ _)
  refine ⟨hspread, ?_⟩
  rw [compile_eq_of_tokens hspread, compile_eq_of_tokens h, Expr.ofTokens_moved _ hne]
  cases Expr.ofTokens tokens <;> rfl

theorem compile_spread_pipe :
    compile "a|b" = .ok ⟨"a|b", .pipe (.field "a") (.field "b")⟩ ∧
    compile "a\n| b" = .ok ⟨"a\n| b", .pipe (.field "a") (.field "b")⟩ ∧
    compile "a|" = .error ⟨2, .endOfExpression⟩ ∧
    compile "a\n| " = .error ⟨4, .endOfExpression⟩ := by
  have hpipe : compile "a|b" = .ok ⟨"a|b", .pipe (.field "a") (.field "b")⟩ := rfl
  have hearly : compile "a|" = .error ⟨2, .endOfExpression⟩ := rfl
  have htokens : Token.ofString "a|b" = .ok [⟨.identifier "a", "a", 0⟩, ⟨.symbol .pipe, "|", 1⟩,
      ⟨.identifier "b", "b", 2⟩, ⟨.endOfInput, "", 3⟩] := rfl
  have htokens' : Token.ofString "a|" = .ok [⟨.identifier "a", "a", 0⟩, ⟨.symbol .pipe, "|", 1⟩,
      ⟨.endOfInput, "", 2⟩] := rfl
  let w : Nat → List Char := fun i ↦ if i = 1 then ['\n'] else if i = 2 then [' '] else []
  have hw : ∀ i, ∀ c ∈ w i, Text.isBlank c = true := by
    intro i c hc
    by_cases h1 : i = 1
    · subst h1
      cases List.mem_singleton.1 hc
      rfl
    · by_cases h2 : i = 2
      · subst h2
        cases List.mem_singleton.1 hc
        rfl
      · simp [w, h1, h2] at hc
  have hshort (ts : List Token) (hts : ts.all (·.text.length ≤ 1) = true) :
      ∀ t ∈ ts, t.Unbroken w := by
    intro t ht i hi hlt
    have hlength := of_decide_eq_true (List.all_eq_true.1 hts t ht)
    rw [Token.stop] at hlt
    omega
  have hread := (compile_spread htokens hw (hshort _ rfl)).2
  have hread' := (compile_spread htokens' hw (hshort _ rfl)).2
  rw [hpipe] at hread
  rw [hearly] at hread'
  exact ⟨hpipe, hread, hearly, hread'⟩

end PathQuery.Query
