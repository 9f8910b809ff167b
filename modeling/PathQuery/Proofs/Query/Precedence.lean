import PathQuery.Proofs.Query.Embedding

namespace PathQuery

open PathQuery.Parser Lexer PathQuery.Expr

inductive Operator where
  | pipe
  | or
  | and
  | comparison (op : Comparator)

namespace Operator

variable {α : Type} {s : Operator × α} {steps before after : List (Operator × α)}

def symbol : Operator → Symbol
  | pipe => .pipe
  | or => .or
  | and => .and
  | comparison op => .comparator op

def tree : Operator → Expr → Expr → Expr
  | pipe => .pipe
  | or => .or
  | and => .and
  | comparison op => .comparison op

def level : Operator → Nat
  | pipe => 0
  | or => 1
  | and => 2
  | comparison _ => 3

theorem binary?_symbol (op : Operator) : binary? op.symbol = some op.tree := by
  cases op <;> rfl

theorem symbol?_symbol (op : Operator) (rest : List Char) :
    symbol? (op.symbol.text.toList ++ ' ' :: rest) = some op.symbol := by
  cases op with
  | comparison op => exact symbol?_comparator op rest
  | _ => rfl

theorem leftPower_symbol (op : Operator) :
    op.symbol.leftPower = op.level + 1 + op.level / 3 := by
  cases op <;> simp only [symbol, Symbol.leftPower, level, Nat.reduceAdd, Nat.reduceDiv]

theorem leftPower_le_of_level {a b : Operator} (h : a.level ≤ b.level) :
    a.symbol.leftPower ≤ b.symbol.leftPower := by
  rw [leftPower_symbol, leftPower_symbol]
  omega

theorem leftPower_lt_of_level {a b : Operator} (h : a.level < b.level) :
    a.symbol.leftPower < b.symbol.leftPower := by
  rw [leftPower_symbol, leftPower_symbol]
  omega

theorem leftPower_pos (op : Operator) : 0 < op.symbol.leftPower := by
  rw [leftPower_symbol]
  omega

/-- Cuts a sequence at the last operator of the loosest level. -/
def cut : List (Operator × α) →
    Option (List (Operator × α) × (Operator × α) × List (Operator × α))
  | [] => none
  | t :: steps =>
    match cut steps with
    | none => some ([], t, steps)
    | some (before, s, after) =>
      if s.1.level ≤ t.1.level then some (t :: before, s, after) else some ([], t, steps)

theorem eq_nil_of_cut (h : cut steps = none) : steps = [] := by
  cases steps with
  | nil => rfl
  | cons t steps =>
    rw [cut] at h
    split at h
    · cases h
    · split at h <;> cases h

/-- Where a sequence is cut, no operator is looser, and those behind are tighter. -/
theorem of_cut (h : cut steps = some (before, s, after)) :
    steps = before ++ s :: after ∧ (∀ t ∈ before, s.1.level ≤ t.1.level) ∧
      ∀ t ∈ after, s.1.level < t.1.level := by
  induction steps generalizing before s after with
  | nil => cases h
  | cons t steps ih =>
    rw [cut] at h
    split at h
    next hnil =>
      cases h
      cases eq_nil_of_cut hnil
      exact ⟨rfl, nofun, nofun⟩
    next before' s' after' hcut =>
      obtain ⟨hsteps, hbefore, hafter⟩ := ih hcut
      split at h
      next hle =>
        cases h
        exact ⟨congrArg (t :: ·) hsteps, List.forall_mem_cons.2 ⟨hle, hbefore⟩, hafter⟩
      next hlt =>
        cases h
        have hlt : t.1.level < s'.1.level := Nat.lt_of_not_le hlt
        refine ⟨rfl, nofun, ?_⟩
        rw [hsteps]
        exact List.forall_mem_append.2 ⟨fun u hu ↦ Nat.lt_of_lt_of_le hlt (hbefore u hu),
          List.forall_mem_cons.2 ⟨hlt, fun u hu ↦ hlt.trans (hafter u hu)⟩⟩

end Operator

namespace Query

structure Chain where
  first : Query
  steps : List (Operator × Query)

namespace Chain

def stepText (text : String) (s : Operator × Query) : String :=
  text ++ " " ++ s.1.symbol.text ++ " (" ++ s.2.text ++ ")"

def text (c : Chain) : String := c.steps.foldl stepText ("(" ++ c.first.text ++ ")")

/-- The tree in which the loosest operator stands at the top, and of several of its level the last
one. -/
def tree (c : Chain) : Expr :=
  match _ : Operator.cut c.steps with
  | none => c.first.expr
  | some (before, (op, q), after) => op.tree (tree ⟨c.first, before⟩) (tree ⟨q, after⟩)
termination_by c.steps.length
decreasing_by all_goals
  rename_i hcut
  rw [(Operator.of_cut hcut).1, List.length_append, List.length_cons]
  omega

def operandTokens (tokens : Query → List TokenKind) (q : Query) : List TokenKind :=
  .symbol .leftParen :: (tokens q ++ [.symbol .rightParen])

def stepsTokens (tokens : Query → List TokenKind) (steps : List (Operator × Query)) :
    List TokenKind :=
  steps.flatMap fun s ↦ .symbol s.1.symbol :: operandTokens tokens s.2

variable {c : Chain} {tokens : Query → List TokenKind} {steps : List (Operator × Query)}

theorem spells_steps (hsteps : ∀ s ∈ steps, Embeds s.2.text.toList (tokens s.2) s.2.expr)
    {text : String} {ts : List TokenKind} (h : Spells text.toList ts) :
    Spells (steps.foldl stepText text).toList (ts ++ stepsTokens tokens steps) := by
  induction steps generalizing text ts with
  | nil => rwa [stepsTokens, List.flatMap_nil, List.append_nil]
  | cons s steps ih =>
    rw [List.forall_mem_cons] at hsteps
    have htext : (stepText text s).toList = text.toList ++
        ' ' :: (s.1.symbol.text.toList ++ ' ' :: '(' :: (s.2.text.toList ++ [')'])) := by
      simp [stepText, String.toList_append]
    have hstep := h.operator s.1.symbol?_symbol hsteps.1.spells_group
    rw [← htext] at hstep
    have hspells := ih hsteps.2 hstep
    rwa [List.append_assoc] at hspells

theorem stepsTokens_append (steps : List (Operator × Query)) (s : Operator × Query)
    (after : List (Operator × Query)) (more : List TokenKind) :
    stepsTokens tokens (steps ++ s :: after) ++ more = stepsTokens tokens steps ++
      .symbol s.1.symbol :: (operandTokens tokens s.2 ++ (stepsTokens tokens after ++ more)) := by
  simp only [stepsTokens, List.flatMap_append, List.flatMap_cons, List.append_assoc,
    List.cons_append]

theorem reads_operand {q : Query} (h : Embeds q.text.toList (tokens q) q.expr)
    (us : List TokenKind) : Reads .head (operandTokens tokens q ++ us) q.expr us := by
  rw [operandTokens, List.cons_append, List.append_assoc]
  exact h.reads_group us

theorem tree_of_cut_none (h : Operator.cut c.steps = none) : c.tree = c.first.expr := by
  rw [tree]
  split
  next => rfl
  next hcut => cases h.symm.trans hcut

theorem tree_of_cut_some {op : Operator} {q : Query} {before after : List (Operator × Query)}
    (h : Operator.cut c.steps = some (before, (op, q), after)) :
    c.tree = op.tree (tree ⟨c.first, before⟩) (tree ⟨q, after⟩) := by
  rw [tree]
  split
  next hcut => cases h.symm.trans hcut
  next hcut =>
    cases h.symm.trans hcut
    rfl

/-- A chain whose operators all bind tighter than `p` is read as a whole before tokens that bind
no tighter than any of them, and the reading goes on from its tree. -/
theorem reads_tree {p : Nat} {more rest : List TokenKind} {e : Expr}
    (hfirst : Embeds c.first.text.toList (tokens c.first) c.first.expr)
    (hsteps : ∀ s ∈ c.steps, Embeds s.2.text.toList (tokens s.2) s.2.expr)
    (hp : ∀ s ∈ c.steps, p < s.1.symbol.leftPower)
    (hpower : ∀ s ∈ c.steps, power more ≤ s.1.symbol.leftPower)
    (hmore : Reads (.climb p c.tree) more e rest) :
    Reads (.expression p)
      (operandTokens tokens c.first ++ (stepsTokens tokens c.steps ++ more)) e rest := by
  induction c using tree.induct generalizing p more e rest with
  | case1 c hcut =>
    rw [tree_of_cut_none hcut] at hmore
    rw [Operator.eq_nil_of_cut hcut]
    exact .expression (reads_operand hfirst more) hmore
  | case2 c before op q after hcut ihBefore ihAfter =>
    rw [tree_of_cut_some hcut] at hmore
    obtain ⟨heq, hbefore, hafter⟩ := Operator.of_cut hcut
    simp only [heq, List.forall_mem_append, List.forall_mem_cons] at hsteps hp hpower
    have hright : Reads (.expression op.symbol.leftPower)
        (operandTokens tokens q ++ (stepsTokens tokens after ++ more)) (tree ⟨q, after⟩) more :=
      ihAfter hsteps.2.1 hsteps.2.2 (fun s hs ↦ Operator.leftPower_lt_of_level (hafter s hs))
        hpower.2.2 (.stop hpower.2.1)
    rw [heq, stepsTokens_append]
    exact ihBefore hfirst hsteps.1 hp.1
      (fun s hs ↦ Operator.leftPower_le_of_level (hbefore s hs))
      (.step hp.2.1 (.binary op.binary?_symbol hright) hmore)

/-- Queries in parentheses compile, with the operators between them, to the tree of the chain. -/
theorem compiles_chain (hfirst : Compiles c.first.text c.first.expr)
    (hsteps : ∀ s ∈ c.steps, Compiles s.2.text s.2.expr) : Compiles c.text c.tree := by
  have hqueries : ∀ q ∈ c.first :: c.steps.map Prod.snd, Compiles q.text q.expr :=
    List.forall_mem_cons.2 ⟨hfirst, List.forall_mem_map.2 hsteps⟩
  obtain ⟨tokens, htokens⟩ := embeds_of_compiles hqueries
  rw [List.forall_mem_cons, List.forall_mem_map] at htokens
  have hoperand := htokens.1.spells_group
  rw [← toList_group] at hoperand
  have hreads : Reads (.expression 0)
      (operandTokens tokens c.first ++ (stepsTokens tokens c.steps ++ [])) c.tree [] :=
    reads_tree htokens.1 htokens.2 (fun s _ ↦ s.1.leftPower_pos) (fun _ _ ↦ Nat.zero_le _)
      (.stop (Nat.le_refl 0))
  rw [List.append_nil] at hreads
  exact compiles_of_spells rfl (spells_steps htokens.2 hoperand) hreads

/-- All levels at once, with two operators on each but one, and with operands that the parentheses
keep together. -/
theorem compiles_chain_of_levels :
    Compiles "a" (.field "a") ∧
    Compiles "b[*]" (.projection (.field "b") .currentNode) ∧
    Compiles "c | d" (.pipe (.field "c") (.field "d")) ∧
    Compiles "(a) || (b[*]) == (a) != (c | d) && (a) || (b[*]) | (a) | (c | d)"
      (.pipe
        (.pipe
          (.or
            (.or (.field "a")
              (.and
                (.comparison .notEqual
                  (.comparison .equal (.projection (.field "b") .currentNode) (.field "a"))
                  (.pipe (.field "c") (.field "d")))
                (.field "a")))
            (.projection (.field "b") .currentNode))
          (.field "a"))
        (.pipe (.field "c") (.field "d"))) := by
  have ha : Compiles "a" (.field "a") := by unfold Compiles; cbv
  have hb : Compiles "b[*]" (.projection (.field "b") .currentNode) := by unfold Compiles; cbv
  have hc : Compiles "c | d" (.pipe (.field "c") (.field "d")) := by unfold Compiles; cbv
  let a : Query := ⟨"a", .field "a"⟩
  let b : Query := ⟨"b[*]", .projection (.field "b") .currentNode⟩
  let c : Query := ⟨"c | d", .pipe (.field "c") (.field "d")⟩
  let chain : Chain := ⟨a, [(.or, b), (.comparison .equal, a), (.comparison .notEqual, c),
    (.and, a), (.or, b), (.pipe, a), (.pipe, c)]⟩
  have hsteps : ∀ s ∈ chain.steps, Compiles s.2.text s.2.expr := by
    simp only [chain, List.forall_mem_cons]
    exact ⟨hb, ha, hc, ha, hb, ha, hc, List.forall_mem_nil _⟩
  have h : Compiles chain.text chain.tree := compiles_chain ha hsteps
  refine ⟨ha, hb, hc, (congrArg₂ Compiles ?_ ?_).mp h⟩
  · decide +kernel
  · cbv

end Chain

end Query

end PathQuery
