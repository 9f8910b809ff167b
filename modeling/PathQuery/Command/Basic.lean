import PathQuery.Accessor.ConfigReader
import PathQuery.Expr.Outline
import PathQuery.Query

namespace PathQuery.Command

inductive CommandError where
  | syntactic (e : SyntaxError)
  | eval (e : EvalError)
  | accessor (e : AccessorError)
  | document (e : Json.Error)
  | noInput
  | config (path : String) (e : Json.Error)
  | unreadable (reason : String)

def CommandError.message : CommandError → String
  | syntactic e => e.message
  | eval e => "evaluation error: " ++ e.message
  | accessor e => "code generation error: " ++ e.message
  | document e => "invalid JSON: " ++ e.message
  | noInput => "no input provided. Use --input or pipe JSON to stdin."
  | config path e => "invalid config file " ++ path ++ ": " ++ e.message
  | unreadable reason => "IO error: " ++ reason

def compile (text : String) : Except CommandError Query := (Query.compile text).mapError .syntactic

/-- Searches the document that a text holds. The expression is looked at before the text. -/
def search (text : String) (input : Option String) : Except CommandError Json := do
  let q ← compile text
  match input with
  | none => .error .noInput
  | some input =>
    let document ← (Json.readSorted input).mapError .document
    (q.search document).mapError .eval

structure CheckReport where
  canonical : String
  outline : Option String

def check (text : String) (withOutline : Bool) : Except CommandError CheckReport := do
  let q ← compile text
  return ⟨q.expr.text, if withOutline then some (q.expr.outline.render 0) else none⟩

structure ConfigFile where
  path : String
  content : Except String String

structure GenerateOptions where
  expression : String
  configFile : Option ConfigFile := none
  temporaries : Option String := none
  nullCheck : Option NullCheck := none
  support : Option String := none
  input : Option String := none
  functionName : Option String := none

namespace GenerateOptions

def baseConfig (o : GenerateOptions) : Except CommandError AccessorConfig :=
  match o.configFile with
  | none => .ok {}
  | some file =>
    match file.content with
    | .error reason => .error (.unreadable reason)
    | .ok text => (AccessorConfig.ofText text).mapError (.config file.path)

def config (o : GenerateOptions) : Except CommandError AccessorConfig := do
  let c ← o.baseConfig
  return {
    temporaries := o.temporaries.getD c.temporaries
    nullCheck := o.nullCheck.getD c.nullCheck
    support := o.support.getD c.support
    input := o.input.getD c.input }

end GenerateOptions

def generate (o : GenerateOptions) : Except CommandError String := do
  let c ← o.config
  let q ← compile o.expression
  let code :=
    match o.functionName with
    | some name => q.expr.accessorFunction c name
    | none => q.expr.accessorText c
  code.mapError .accessor

end PathQuery.Command
