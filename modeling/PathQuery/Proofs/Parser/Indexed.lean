import PathQuery.Expr.Parser

namespace PathQuery

structure BoundedTokens where
  tokens : List Token
  turns : Nat

/-- The parser over all tokens and the index of the current one. It gives nothing at all where it
looks at a place that a list does not have, where the index would go back or leave the tokens, and
where a loop or the nesting of expressions exceeds the bound. -/
abbrev IndexedM := ReaderT BoundedTokens (ExceptT SyntaxError (StateT Nat Option))

namespace Indexed

variable {α : Type}

def element (a? : Option α) : IndexedM α := fun _ index ↦
  match a? with
  | some a => some (.ok a, index)
  | none => none

def token (i : Nat) : IndexedM Token := do
  element (← read).tokens[i]?

def moveTo (i : Nat) : IndexedM Unit := fun bounded index ↦
  if index ≤ i ∧ i < bounded.tokens.length then some (.ok (), i) else none

instance : Parser IndexedM where
  current := do token (← get)
  peek := do token (min ((← get) + 1) ((← read).tokens.length - 1))
  previousPosition := do return (← token ((← get) - 1)).position
  advance := do
    let index ← get
    if index < (← read).tokens.length - 1 then moveTo (index + 1)
  slicePart parts i := element (parts.get? i)
  turns := return (← read).turns
  exhausted _ := fun _ _ ↦ none

end Indexed

end PathQuery
