import PathQuery.Expr.Basic
import PathQuery.Number.Layout
import PathQuery.Text.Quoted

namespace PathQuery

inductive Outline where
  | leaf (text : String)
  /-- Parts between two brackets, each with the label that stands before it. -/
  | group (opening closing : String) (parts : List (String × Outline))

namespace Outline

def indent (level : Nat) : String := String.ofList (List.replicate (4 * level) ' ')

mutual

def render (level : Nat) : Outline → String
  | leaf text => text
  | group opening closing parts =>
    if parts.isEmpty then opening ++ closing
    else opening ++ "\n" ++ renderParts (level + 1) parts ++ indent level ++ closing
termination_by structural o => o

def renderParts (level : Nat) : List (String × Outline) → String
  | [] => ""
  | (label, o) :: rest =>
    indent level ++ label ++ render level o ++ ",\n" ++ renderParts level rest
termination_by structural parts => parts

end

def tuple (name : String) (parts : List Outline) : Outline :=
  group (name ++ "(") ")" (parts.map fun o ↦ ("", o))

def record (name : String) (fields : List (String × Outline)) : Outline :=
  group (name ++ " \x7b") "\x7d" (fields.map fun f ↦ (f.1 ++ ": ", f.2))

def list (items : List Outline) : Outline := group "[" "]" (items.map fun o ↦ ("", o))

def quoted (s : String) : Outline := leaf (Text.quote Text.literalEscape s)

def int (n : Int64) : Outline := leaf (toString n.toInt)

def option : Option Int64 → Outline
  | none => leaf "None"
  | some n => tuple "Some" [int n]

end Outline

namespace Value

open Outline

mutual

def outline : Value → Outline
  | null => leaf "Null"
  | bool b => tuple "Boolean" [leaf (if b then "true" else "false")]
  | int n => tuple "Integer" [Outline.int n]
  | float x => tuple "Float" [leaf (Number.Layout.literal.text x)]
  | string s => tuple "String" [quoted s]
  | array items => tuple "Array" [list (outlineItems items)]
  | object entries => tuple "Object" [group "\x7b" "\x7d" (outlineEntries entries)]
termination_by structural v => v

def outlineItems : List Value → List Outline
  | [] => []
  | v :: vs => v.outline :: outlineItems vs
termination_by structural vs => vs

def outlineEntries : List (String × Value) → List (String × Outline)
  | [] => []
  | (k, v) :: es =>
    (Text.quote Text.literalEscape k ++ ": ", v.outline) :: outlineEntries es
termination_by structural es => es

end

end Value

def Comparator.name : Comparator → String
  | equal => "Equal"
  | notEqual => "NotEqual"
  | less => "LessThan"
  | lessEqual => "LessEqual"
  | greater => "GreaterThan"
  | greaterEqual => "GreaterEqual"

namespace Expr

open Outline

mutual

def outline : Expr → Outline
  | field name => tuple "Field" [quoted name]
  | index i => tuple "Index" [int i]
  | slice start stop step =>
    record "Slice" [("start", option start), ("stop", option stop), ("step", option step)]
  | flatten inner => tuple "Flatten" [inner.outline]
  | objectValues inner => tuple "ObjectValues" [inner.outline]
  | subexpression left right =>
    record "Subexpression" [("lhs", left.outline), ("rhs", right.outline)]
  | pipe left right => record "Pipe" [("lhs", left.outline), ("rhs", right.outline)]
  | projection source body =>
    record "Projection" [("lhs", source.outline), ("rhs", body.outline)]
  | filterProjection source predicate body =>
    record "FilterProjection"
      [("lhs", source.outline), ("predicate", predicate.outline), ("rhs", body.outline)]
  | multiSelectList items => tuple "MultiSelectList" [list (outlineItems items)]
  | multiSelectHash pairs => tuple "MultiSelectHash" [list (outlinePairs pairs)]
  | or left right => record "Or" [("lhs", left.outline), ("rhs", right.outline)]
  | and left right => record "And" [("lhs", left.outline), ("rhs", right.outline)]
  | not inner => tuple "Not" [inner.outline]
  | comparison op left right =>
    record "Comparison" [("op", leaf op.name), ("lhs", left.outline), ("rhs", right.outline)]
  | functionCall name args =>
    record "FunctionCall" [("name", quoted name), ("args", list (outlineItems args))]
  | expressionRef inner => tuple "ExpressionRef" [inner.outline]
  | currentNode => leaf "CurrentNode"
  | literal v => tuple "Literal" [v.outline]
termination_by structural e => e

def outlineItems : List Expr → List Outline
  | [] => []
  | e :: es => e.outline :: outlineItems es
termination_by structural es => es

def outlinePairs : List (String × Expr) → List Outline
  | [] => []
  | (key, e) :: ps => tuple "" [quoted key, e.outline] :: outlinePairs ps
termination_by structural ps => ps

end

end Expr

end PathQuery
