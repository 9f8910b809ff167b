namespace PathQuery

/-- Runs steps one after another on one state, going on after an error from wherever it left the
state. -/
def replay {ε σ α : Type} : List (EStateM ε σ α) → σ → List (Except ε α)
  | [], _ => []
  | step :: steps, s =>
    match step.run s with
    | .ok a s => .ok a :: replay steps s
    | .error e s => .error e :: replay steps s

end PathQuery
