import PathQuery.Function.Builtin
import PathQuery.Proofs.Expr.Tokens

namespace PathQuery

open PathQuery.Parser

namespace Expr

def referent : Expr → Expr
  | expressionRef e => e
  | e => e

inductive AfterDot (p : Nat) : Expr → Prop
  | list (items : List Expr) : AfterDot p (multiSelectList items)
  | hash (pairs : List (String × Expr)) : AfterDot p (multiSelectHash pairs)
  | name {e : Expr} : p < e.leftPower → startsName e.tokens = true → AfterDot p e
  | paren {e : Expr} : p < e.leftPower → first e.tokens = .symbol .leftParen → AfterDot p e

inductive Body (p : Nat) : Expr → Prop
  | element : Body p currentNode
  | dot {e : Expr} : AfterDot p e → Body p e
  | bracket {e : Expr} : p < e.leftPower → startsBracket e.tokens = true → Body p e

/-- The trees that the parser builds. -/
inductive Shaped : Expr → Prop
  | field (name : String) : Shaped (field name)
  | current : Shaped currentNode
  | literal (v : Value) : Shaped (literal v)
  | index (i : Int64) : Shaped (index i)
  | step {left : Expr} (i : Int64) :
    Shaped left → left.isCurrentNode = false → Shaped (subexpression left (index i))
  | dot {left right : Expr} :
    Shaped left → Shaped right → AfterDot 40 right → Shaped (subexpression left right)
  | values {body : Expr} :
    Shaped body → Body 20 body → Shaped (projection (objectValues currentNode) body)
  | flatten {inner body : Expr} :
    Shaped inner → Shaped body → Body 9 body → Shaped (projection (flatten inner) body)
  | slice {start stop step : Option Int64} {body : Expr} :
    step ≠ some 0 → Shaped body → Body 20 body → Shaped (projection (slice start stop step) body)
  | stepSlice {left : Expr} {start stop step : Option Int64} {body : Expr} :
    Shaped left → left.isCurrentNode = false → step ≠ some 0 → Shaped body → Body 20 body →
    Shaped (projection (subexpression left (slice start stop step)) body)
  | wildcard {source body : Expr} :
    Shaped source → Shaped body → Body 20 body → Shaped (projection source body)
  | filter {source predicate body : Expr} :
    Shaped source → Shaped predicate → Shaped body → Body 21 body →
    Shaped (filterProjection source predicate body)
  | list {items : List Expr} :
    items ≠ [] → (∀ e ∈ items, Shaped e) → Shaped (multiSelectList items)
  | hash {pairs : List (String × Expr)} :
    pairs ≠ [] → (∀ x ∈ pairs, Shaped x.2) → Shaped (multiSelectHash pairs)
  | pipe {left right : Expr} : Shaped left → Shaped right → Shaped (pipe left right)
  | or {left right : Expr} : Shaped left → Shaped right → Shaped (or left right)
  | and {left right : Expr} : Shaped left → Shaped right → Shaped (and left right)
  | comparison {left right : Expr} (op : Comparator) :
    Shaped left → Shaped right → Shaped (comparison op left right)
  | not {inner : Expr} : Shaped inner → Shaped (not inner)
  | call {name : String} {args : List Expr} :
    (Builtin.ofName? name).isSome → (∀ a ∈ args, Shaped a.referent) →
    Shaped (functionCall name args)

variable {e left right source : Expr} {start stop step : Option Int64} {p : Nat}

theorem AfterDot.not_bracket (h : AfterDot p e) : (e.isIndex || e.isSlice) = false := by
  cases h with
  | list | hash => rfl
  | name _ hstart | paren _ hstart =>
    cases e with
    | index | slice => cases hstart
    | _ => rfl

theorem Shaped.referent (h : Shaped e) : e.referent = e := by
  cases h <;> rfl

theorem Shaped.not_stepSlice (h : Shaped (subexpression left (.slice start stop step))) :
    False := by
  cases h with
  | dot _ _ hright => cases hright.not_bracket

/-- A source that was itself read as an expression has the bracket for all elements behind it. -/
theorem Shaped.projectedTokens (h : Shaped source) (ts : List TokenKind) :
    projectedTokens source ts = sourceTokens source .primary ts ++ wildcardTokens := by
  unfold Expr.projectedTokens
  split
  · cases h
  · cases h
  · cases h
  · exact absurd h.not_stepSlice id
  · rfl

theorem Shaped.leftPower_projection (h : Shaped source) (body : Expr) :
    (projection source body).leftPower = if source.isCurrentNode then 60 else 55 := by
  cases source with
  | objectValues | slice | flatten => cases h
  | _ => rfl

end Expr

namespace Parser

open PathQuery.Expr

variable {e left right : Expr} {ts rest : List TokenKind} {p : Nat}

structure KeepsStart (ts : List TokenKind) (e : Expr) : Prop where
  name : startsName ts = true →
    startsName e.tokens = true ∨ first e.tokens = .symbol .leftParen
  bracket : startsBracket ts = true →
    startsBracket e.tokens = true ∨ first e.tokens = .symbol .leftParen

theorem KeepsStart.of_not (hname : startsName ts = false) (hbracket : startsBracket ts = false) :
    KeepsStart ts e :=
  ⟨fun h ↦ by simp [hname] at h, fun h ↦ by simp [hbracket] at h⟩

theorem KeepsStart.of_first (h : first e.tokens = first ts) : KeepsStart ts e := by
  refine ⟨fun hname ↦ .inl ?_, fun hbracket ↦ .inl ?_⟩
  · rw [startsName_first, h, ← startsName_first, hname]
  · rw [startsBracket_first, h, ← startsBracket_first, hbracket]

theorem KeepsStart.startsAs (h : KeepsStart ts left)
    (he : left.isCurrentNode = true ∨ StartsAs e left) : KeepsStart ts e := by
  obtain hcurrent | hparen | hfirst := he
  · cases left <;> cases hcurrent
    refine ⟨fun hname ↦ ?_, fun hbracket ↦ ?_⟩
    · obtain h | h := h.name hname <;> cases h
    · obtain h | h := h.bracket hbracket <;> cases h
  · exact ⟨fun _ ↦ .inr hparen, fun _ ↦ .inr hparen⟩
  · refine ⟨fun hname ↦ ?_, fun hbracket ↦ ?_⟩
    · rw [startsName_first, hfirst, ← startsName_first]
      exact h.name hname
    · rw [startsBracket_first, hfirst, ← startsBracket_first]
      exact h.bracket hbracket

def ShapedAs : Phrase → List TokenKind → Expr → Prop
  | .expression p, ts, e =>
    Shaped e ∧ (startsSymbol .leftParen ts = true ∨ (p < 60 → p < e.leftPower)) ∧ KeepsStart ts e
  | .climb p left, _, e =>
    Shaped left → Shaped e ∧ (e = left ∨ p < e.leftPower) ∧
      (left.isCurrentNode = true ∨ StartsAs e left)
  | .head, ts, e =>
    Shaped e ∧ (startsSymbol .leftParen ts = true ∨ 60 ≤ e.leftPower) ∧ KeepsStart ts e
  | .extend left, ts, e =>
    Shaped left → Shaped e ∧ power ts ≤ e.leftPower ∧ e.isCurrentNode = false ∧
      (left.isCurrentNode = true ∨ StartsAs e left)
  | .bracket left, ts, e =>
    Shaped left → Shaped e ∧ power ts ≤ e.leftPower ∧ e.isCurrentNode = false ∧
      if left.isCurrentNode then 60 ≤ e.leftPower ∧ first e.tokens = first ts else StartsAs e left
  | .afterDot p, _, e => Shaped e ∧ (p < 60 → AfterDot p e)
  | .body p, _, e => Shaped e ∧ (p < 60 → Body p e)
  | .items, _, e => ∃ items, e = .multiSelectList items ∧ items ≠ [] ∧ ∀ x ∈ items, Shaped x
  | .pairs, _, e => ∃ pairs, e = .multiSelectHash pairs ∧ pairs ≠ [] ∧ ∀ x ∈ pairs, Shaped x.2
  | .arguments f, _, e => ∃ args, e = .functionCall f args ∧ ∀ a ∈ args, Shaped a.referent
  | .argument, _, e => Shaped e.referent

theorem eq_currentNode (h : e.isCurrentNode = true) : e = .currentNode := by
  cases e with
  | currentNode => rfl
  | _ => cases h

theorem isName_of_builtin {name : String} (h : (Builtin.ofName? name).isSome) :
    Lexer.isName name.toList = true := by
  obtain ⟨f, hf⟩ := Option.isSome_iff_exists.1 h
  have hname := List.find?_some hf
  obtain rfl := beq_iff_eq.1 hname
  cases f <;> decide +kernel

theorem startsAs_call {name : String} (h : (Builtin.ofName? name).isSome) (args : List Expr) :
    StartsAs (.functionCall name args) (.field name) := by
  refine .inr ?_
  rw [tokens, tokens, nameToken, isName_of_builtin h, if_pos rfl]
  rfl

theorem startsAs_binary {s : Symbol} {tree : Expr → Expr → Expr} (hs : binary? s = some tree)
    (left right : Expr) : StartsAs (tree left right) left := by
  cases s <;> cases hs
  · exact startsAs_of_grouped (w := false) (by rw [tokens]; rfl)
  all_goals exact startsAs_of_grouped (by rw [tokens])

theorem startsAs_wildcard (hleft : Shaped left) (h : left.isCurrentNode = false) (body : Expr) :
    StartsAs (.projection left body) left := by
  have htokens : (Expr.projection left body).tokens =
      Expr.grouped (left.looserThan .primary) left.tokens ++
        (wildcardTokens ++ bodyTokens body body.tokens) := by
    rw [tokens, hleft.projectedTokens, sourceTokens_of_ne h, List.append_assoc]
  exact startsAs_of_grouped htokens

theorem startsAs_stepSlice {start stop step : Option Int64} (h : left.isCurrentNode = false)
    (body : Expr) :
    StartsAs (.projection (.subexpression left (.slice start stop step)) body) left := by
  have htokens : (Expr.projection (.subexpression left (.slice start stop step)) body).tokens =
      Expr.grouped (left.looserThan .primary) left.tokens ++
        (sliceTokens start stop step ++ bodyTokens body body.tokens) := by
    rw [tokens, projectedTokens_stepSlice h, tokens_step left rfl, tokens, List.append_assoc]
  exact startsAs_of_grouped htokens

theorem shaped_binary {s : Symbol} {tree : Expr → Expr → Expr} (hs : binary? s = some tree)
    (hleft : Shaped left) (hright : Shaped right) : Shaped (tree left right) := by
  cases s <;> cases hs
  · exact .pipe hleft hright
  · exact .or hleft hright
  · exact .and hleft hright
  · exact .comparison _ hleft hright

theorem leftPower_binary {s : Symbol} {tree : Expr → Expr → Expr} (hs : binary? s = some tree)
    (left right : Expr) : (tree left right).leftPower = s.leftPower := by
  cases s <;> cases hs <;> rfl

theorem not_current_binary {s : Symbol} {tree : Expr → Expr → Expr} (hs : binary? s = some tree)
    (left right : Expr) : (tree left right).isCurrentNode = false := by
  cases s <;> cases hs <;> rfl

theorem startsParen_of_startsName (h : startsName ts = true) :
    startsSymbol .leftParen ts = false := by
  unfold startsName at h
  split at h
  all_goals first | rfl | cases h

theorem startsParen_of_startsBracket (h : startsBracket ts = true) :
    startsSymbol .leftParen ts = false := by
  unfold startsBracket at h
  split at h
  all_goals first | rfl | cases h

theorem Reads.shapedAs {φ : Phrase} (h : Reads φ ts e rest) : ShapedAs φ ts e := by
  induction h with
  | expression _ _ ih ih' =>
    obtain ⟨hleft, hpower, hstart⟩ := ih
    obtain ⟨he, hp, hstart'⟩ := ih' hleft
    refine ⟨he, ?_, hstart.startsAs hstart'⟩
    obtain rfl | hp := hp
    · exact hpower.imp_right fun h hp ↦ Nat.lt_of_lt_of_le hp h
    · exact .inr fun _ ↦ hp
  | stop _ => exact fun hleft ↦ ⟨hleft, .inl rfl, .inr (.inr rfl)⟩
  | step hpower _ _ ih ih' =>
    intro hleft
    obtain ⟨hleft', hpower', hcurrent, hstart⟩ := ih hleft
    obtain ⟨he, hp, hstart'⟩ := ih' hleft'
    rw [hcurrent] at hstart'
    refine ⟨he, .inr ?_, hstart.imp_right fun h ↦ (hstart'.resolve_left Bool.false_ne_true).trans h⟩
    obtain rfl | hp := hp
    · exact Nat.lt_of_lt_of_le hpower hpower'
    · exact hp
  | current => exact ⟨.current, .inr (Nat.le_refl _), .of_not rfl rfl⟩
  | identifier | quotedIdentifier =>
    refine ⟨.field _, .inr (Nat.le_refl _), fun _ ↦ .inl ?_, nofun⟩
    rw [tokens, nameToken]
    split <;> rfl
  | literal | rawString => exact ⟨.literal _, .inr (Nat.le_refl _), .of_not rfl rfl⟩
  | values _ ih =>
    exact ⟨.values ih.1 (ih.2 (by decide)), .inr (Nat.le_refl _), .of_first rfl⟩
  | implicit _ ih =>
    obtain ⟨he, -, -, hpower, hfirst⟩ := ih .current
    exact ⟨he, .inr hpower, .of_first hfirst⟩
  | list _ _ ih =>
    obtain ⟨items, rfl, hne, hitems⟩ := ih
    exact ⟨.list hne hitems, .inr (Nat.le_refl _), .of_first rfl⟩
  | hash _ ih =>
    obtain ⟨pairs, rfl, hne, hpairs⟩ := ih
    exact ⟨.hash hne hpairs, .inr (Nat.le_refl _), .of_first rfl⟩
  | not _ ih => exact ⟨.not ih.1, .inr (Nat.le_refl _), .of_not rfl rfl⟩
  | group _ ih => exact ⟨ih.1, .inl rfl, .of_not rfl rfl⟩
  | dot _ ih =>
    intro hleft
    have hright := ih.2 (by decide)
    refine ⟨.dot hleft ih.1 hright, ?_, rfl, .inr (startsAs_subexpression _ _)⟩
    change 40 ≤ leftPower _
    rw [leftPower]
    split <;> decide
  | binary hs _ ih =>
    intro hleft
    refine ⟨shaped_binary hs hleft ih.1, ?_, not_current_binary hs _ _,
      .inr (startsAs_binary hs _ _)⟩
    exact Nat.le_of_eq (leftPower_binary hs _ _).symm
  | explicit _ ih =>
    intro hleft
    obtain ⟨he, hpower, hcurrent, hstart⟩ := ih hleft
    refine ⟨he, hpower, hcurrent, ?_⟩
    split at hstart
    · next h => exact .inl h
    · exact .inr hstart
  | call hname _ ih =>
    intro _
    obtain ⟨args, rfl, hargs⟩ := ih
    exact ⟨.call hname hargs, Nat.le_refl _, rfl, .inr (startsAs_call hname args)⟩
  | @flatten left body _ _ _ ih =>
    intro hleft
    have hbody := ih.2 (by decide)
    cases hcurrent : left.isCurrentNode with
    | true =>
      obtain rfl := eq_currentNode hcurrent
      exact ⟨.flatten hleft ih.1 hbody, (by decide : 9 ≤ 60), rfl, Nat.le_refl _, rfl⟩
    | false =>
      refine ⟨.flatten hleft ih.1 hbody, ?_, rfl, startsAs_flatten hcurrent body⟩
      rw [leftPower, hcurrent]
      exact Nat.le_refl 9
  | @filter left predicate body _ _ _ _ _ ih ih' =>
    intro hleft
    have hbody := ih'.2 (by decide)
    cases hcurrent : left.isCurrentNode with
    | true =>
      obtain rfl := eq_currentNode hcurrent
      exact ⟨.filter hleft ih.1 ih'.1 hbody, (by decide : 21 ≤ 60), rfl, Nat.le_refl _, rfl⟩
    | false =>
      refine ⟨.filter hleft ih.1 ih'.1 hbody, ?_, rfl, startsAs_filter hcurrent predicate body⟩
      rw [leftPower, hcurrent]
      exact Nat.le_refl 21
  | @index left i ts =>
    intro hleft
    unfold access
    cases hcurrent : left.isCurrentNode with
    | true => exact ⟨.index i, (by decide : 55 ≤ 60), rfl, Nat.le_refl _, rfl⟩
    | false =>
      exact ⟨.step i hleft hcurrent, Nat.le_refl 55, rfl, startsAs_subexpression left _⟩
  | @slice left body parts _ _ _ _ hstep _ ih =>
    intro hleft
    have hbody := ih.2 (by decide)
    unfold access
    cases hcurrent : left.isCurrentNode with
    | true => exact ⟨.slice hstep ih.1 hbody, (by decide : 55 ≤ 60), rfl, Nat.le_refl _, rfl⟩
    | false =>
      exact ⟨.stepSlice hleft hcurrent hstep ih.1 hbody, Nat.le_refl 55, rfl,
        startsAs_stepSlice hcurrent body⟩
  | @wildcard left body _ _ _ ih =>
    intro hleft
    have hbody := ih.2 (by decide)
    have hpower := hleft.leftPower_projection body
    cases hcurrent : left.isCurrentNode with
    | true =>
      obtain rfl := eq_currentNode hcurrent
      exact ⟨.wildcard hleft ih.1 hbody, (by decide : 55 ≤ 60), rfl, Nat.le_refl _, rfl⟩
    | false =>
      refine ⟨.wildcard hleft ih.1 hbody, ?_, rfl, startsAs_wildcard hleft hcurrent body⟩
      rw [hpower, hcurrent]
      exact Nat.le_refl 55
  | dotList _ ih =>
    obtain ⟨items, rfl, hne, hitems⟩ := ih
    exact ⟨.list hne hitems, fun _ ↦ .list items⟩
  | dotHash _ ih =>
    obtain ⟨pairs, rfl, hne, hpairs⟩ := ih
    exact ⟨.hash hne hpairs, fun _ ↦ .hash pairs⟩
  | dotName hname _ ih =>
    obtain ⟨he, hpower, hstart⟩ := ih
    refine ⟨he, fun hp ↦ ?_⟩
    rw [startsParen_of_startsName hname] at hpower
    have hpower := hpower.resolve_left Bool.false_ne_true hp
    exact (hstart.name hname).elim (.name hpower) (.paren hpower)
  | element => exact ⟨.current, fun _ ↦ .element⟩
  | bodyDot _ ih => exact ⟨ih.1, fun hp ↦ .dot (ih.2 hp)⟩
  | bodyBracket hbracket _ ih =>
    obtain ⟨he, hpower, hstart⟩ := ih
    refine ⟨he, fun hp ↦ ?_⟩
    rw [startsParen_of_startsBracket hbracket] at hpower
    have hpower := hpower.resolve_left Bool.false_ne_true hp
    exact (hstart.bracket hbracket).elim (.bracket hpower) fun h ↦ .dot (.paren hpower h)
  | lastItem _ ih => exact ⟨_, rfl, List.cons_ne_nil _ _, List.forall_mem_singleton.2 ih.1⟩
  | item _ _ ih ih' =>
    obtain ⟨items, heq, hne, hitems⟩ := ih'
    cases heq
    exact ⟨_, rfl, List.cons_ne_nil _ _, List.forall_mem_cons.2 ⟨ih.1, hitems⟩⟩
  | lastPair _ _ ih => exact ⟨_, rfl, List.cons_ne_nil _ _, List.forall_mem_singleton.2 ih.1⟩
  | pair _ _ _ ih ih' =>
    obtain ⟨pairs, heq, hne, hpairs⟩ := ih'
    cases heq
    exact ⟨_, rfl, List.cons_ne_nil _ _, List.forall_mem_cons.2 ⟨ih.1, hpairs⟩⟩
  | noArguments => exact ⟨[], rfl, nofun⟩
  | lastArgument _ ih => exact ⟨_, rfl, List.forall_mem_singleton.2 ih⟩
  | nextArgument _ _ _ ih ih' =>
    obtain ⟨args, heq, hargs⟩ := ih'
    cases heq
    exact ⟨_, rfl, List.forall_mem_cons.2 ⟨ih, hargs⟩⟩
  | reference _ ih => exact ih.1
  | plain _ ih =>
    change Shaped (referent _)
    rw [ih.1.referent]
    exact ih.1

end Parser

end PathQuery
