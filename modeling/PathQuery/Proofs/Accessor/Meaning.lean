import PathQuery.Accessor.Generator
import PathQuery.Accessor.Support
import PathQuery.Proofs.Function.UniqueKeys

namespace PathQuery

/-- What the variables of generated code hold. A variable for a JSON value holds `some` of it. -/
abbrev Scope := Var → Option Json

namespace Scope

def ofInput (j : Json) : Scope
  | .input => some j
  | .temp _ => none

def bind (s : Scope) (t : Nat) (value : Option Json) : Scope :=
  fun x ↦ if x = .temp t then value else s x

@[simp]
theorem bind_self (s : Scope) (t : Nat) (value : Option Json) : s.bind t value (.temp t) = value :=
  if_pos rfl

theorem bind_of_ne (s : Scope) {t : Nat} {x : Var} (h : x ≠ .temp t) (value : Option Json) :
    s.bind t value x = s x :=
  if_neg h

end Scope

namespace Code

def notNull (j : Json) : Bool := !j.isNull

def push (out : List Json) : Option Json → List Json
  | some j => if j.isNull then out else out ++ [j]
  | none => out

mutual

def denote : Code → Scope → Option Json
  | field x name, s => (s x).bind (DataNode.field? · name)
  | index x i, s => (s x).bind (Support.index · i)
  | slice x start stop step, s => (s x).bind (Support.slice · start stop step)
  | current x, s => s x
  | literal v, _ => some v.toJson
  | optional t, s => s (.temp t)
  | flatten c, s => Support.flatten (denote c s)
  | objectValues c, s => Support.objectValues (denote c s)
  | negation c, s => some (.bool !(Support.isTruthy (denote c s)))
  | comparison op a b, s => Support.compare op.text (denote a s) (denote b s)
  | call name args, s => Support.call name (denoteItems args s)
  | grouped c, s => denote c s
  | present c, s => (denote c s).filter notNull
  | truthy c, s => (denote c s).filter Support.isTruthyValue
  | orElse c d, s => (denote c s).or (denote d s)
  | andThen c t body, s => (denote c s).bind fun j ↦ denote body (s.bind t (some j))
  | ifSome t c body, s =>
    match denote c s with
    | some j => denote body (s.bind t (some j))
    | none => none
  | letOrNull t c body, s => denote body (s.bind t (some ((denote c s).getD .null)))
  | letIf t c yes no, s =>
    let value := denote c s
    if Support.isTruthy value then denote yes (s.bind t value) else denote no (s.bind t value)
  | list items, s => some (.array ((denoteItems items s).map (·.getD .null)))
  | object _ entries, s => some (.object (Entries.sortPairs (denoteEntries entries s)))
  | unlessNull x t body, s =>
    (s x).bind fun j ↦ if j.isNull then none else denote body (s.bind t (some j))
  | mapPresent x t items, s =>
    ((s x).filter notNull).map fun j ↦
      .array ((denoteItems items (s.bind t (some j))).map (·.getD .null))
  | andThenPresent x t body, s =>
    ((s x).filter notNull).bind fun j ↦ denote body (s.bind t (some j))
  | mapItems c items item test body, s =>
    ((denote c s).bind Json.array?).map fun js ↦
      let inner j := (s.bind items (some (.array js))).bind item (some j)
      .array ((js.filter fun j ↦ denoteTest test (inner j)).filterMap fun j ↦
        (denote body (inner j)).filter notNull)
  | forItems c items item _ _ test body, s =>
    ((denote c s).bind Json.array?).map fun js ↦
      let inner j := (s.bind items (some (.array js))).bind item (some j)
      .array (js.foldl (fun out j ↦
        if denoteTest test (inner j) then push out (denote body (inner j)) else out) [])
termination_by structural c => c

def denoteItems : List Code → Scope → List (Option Json)
  | [], _ => []
  | c :: cs, s => denote c s :: denoteItems cs s
termination_by structural cs => cs

def denoteEntries : List (String × Code) → Scope → List (String × Json)
  | [], _ => []
  | (key, c) :: es, s => (key, (denote c s).getD .null) :: denoteEntries es s
termination_by structural es => es

def denoteTest : Option Code → Scope → Bool
  | none, _ => true
  | some c, s => Support.isTruthy (denote c s)
termination_by structural test => test

end

@[simp]
theorem denote_operand (c : Code) (s : Scope) : c.operand.denote s = c.denote s := by
  rw [operand]
  split
  · rfl
  · rfl

/-- A guard against null before a block binds what a filter and a map bind. -/
theorem denote_mapPresent (x : Var) (t : Nat) (items : List Code) (s : Scope) :
    (mapPresent x t items).denote s = (unlessNull x t (list items)).denote s := by
  rw [denote, denote]
  cases s x with
  | none => rfl
  | some j => cases hj : j.isNull <;> simp [Option.filter, notNull, hj, denote]

theorem denote_andThenPresent (x : Var) (t : Nat) (body : Code) (s : Scope) :
    (andThenPresent x t body).denote s = (unlessNull x t body).denote s := by
  rw [denote, denote]
  cases s x with
  | none => rfl
  | some j => cases hj : j.isNull <;> simp [Option.filter, notNull, hj]

theorem denote_ifSome (t : Nat) (c body : Code) (s : Scope) :
    (ifSome t c body).denote s = (andThen c t body).denote s := by
  rw [denote, denote]
  cases c.denote s <;> rfl

/-- A loop that pushes keeps what the combinators keep. -/
theorem foldl_push (p : Json → Bool) (f : Json → Option Json) (js out : List Json) :
    js.foldl (fun out j ↦ if p j then push out (f j) else out) out =
      out ++ (js.filter p).filterMap fun j ↦ (f j).filter notNull := by
  induction js generalizing out with
  | nil => simp
  | cons j js ih =>
    rw [List.foldl_cons, ih, List.filter_cons]
    cases p j with
    | false => rfl
    | true =>
      rw [if_pos rfl, if_pos rfl, List.filterMap_cons]
      cases hj : f j with
      | none => simp [push]
      | some k => cases hk : k.isNull <;> simp [push, hk, Option.filter, notNull]

theorem denote_forItems (c : Code) (items item out value : Nat) (test : Option Code) (body : Code)
    (s : Scope) : (forItems c items item out value test body).denote s =
      (mapItems c items item test body).denote s := by
  rw [denote, denote]
  simp only [foldl_push, List.nil_append]

end Code

end PathQuery
