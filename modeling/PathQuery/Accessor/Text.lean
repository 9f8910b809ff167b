import PathQuery.Accessor.Generator
import PathQuery.Number.Layout
import PathQuery.Text.Quoted

namespace PathQuery

def literalQuoted (s : String) : String := Text.quote Text.literalEscape s

namespace Value

mutual

/-- The value as the body of a JSON macro. Integers carry their type. -/
def macroText : Value → String
  | null => "null"
  | bool b => if b then "true" else "false"
  | int n => toString n.toInt ++ "i64"
  | float x => if x.isFinite then Number.Layout.literal.text x else "null"
  | string s => literalQuoted s
  | array items => "[" ++ ", ".intercalate (macroItems items) ++ "]"
  | object entries => "\x7b" ++ ", ".intercalate (macroEntries entries) ++ "\x7d"
termination_by structural v => v

def macroItems : List Value → List String
  | [] => []
  | v :: vs => v.macroText :: macroItems vs
termination_by structural vs => vs

def macroEntries : List (String × Value) → List String
  | [] => []
  | (k, v) :: es => (literalQuoted k ++ ": " ++ v.macroText) :: macroEntries es
termination_by structural es => es

end

end Value

namespace Code

def nullText : String := "serde_json::Value::Null"

def notNullFilter : String := ".filter(|v| !v.is_null())"

def block (s : String) : String := "\x7b " ++ s ++ " \x7d"

def optionText : Option Int64 → String
  | some n => "Some(" ++ toString n.toInt ++ ")"
  | none => "None"

def arrayText (items : List String) : String :=
  "serde_json::Value::Array(vec![" ++
    ", ".intercalate (items.map fun i ↦ i ++ ".unwrap_or(" ++ nullText ++ ")") ++ "])"

def insertText (m : String) (entry : String × String) : String :=
  m ++ ".insert(" ++ literalQuoted entry.1 ++ ".to_string(), " ++ entry.2 ++ ".unwrap_or(" ++
    nullText ++ ")); "

def tempText (config : AccessorConfig) (t : Nat) : String := config.temporaries ++ toString t

def varText (config : AccessorConfig) : Var → String
  | .input => config.input
  | .temp t => tempText config t

def supportText (config : AccessorConfig) (name : String) (args : List String) : String :=
  config.support ++ "::" ++ name ++ "(" ++ ", ".intercalate args ++ ")"

def truthyText (config : AccessorConfig) (code : String) : String :=
  supportText config "is_truthy" ["&" ++ code]

def pushText (value body out : String) : String :=
  "if let Some(" ++ value ++ ") = " ++ body ++ " " ++
    block ("if !" ++ value ++ ".is_null() " ++ block (out ++ ".push(" ++ value ++ ");"))

mutual

def text (config : AccessorConfig) : Code → String
  | field x name => varText config x ++ ".get(" ++ literalQuoted name ++ ").cloned()"
  | index x i => supportText config "index" [varText config x, toString i.toInt]
  | slice x start stop step =>
    supportText config "slice"
      [varText config x, optionText start, optionText stop, optionText step]
  | current x => "Some(" ++ varText config x ++ ".clone())"
  | literal v => "Some(serde_json::json!(" ++ v.macroText ++ "))"
  | optional t => tempText config t
  | flatten c => supportText config "flatten" [text config c]
  | objectValues c => supportText config "object_values" [text config c]
  | negation c => "Some(serde_json::Value::Bool(!" ++ truthyText config (text config c) ++ "))"
  | comparison op a b =>
    supportText config "compare" [literalQuoted op.text, text config a, text config b]
  | call name args =>
    supportText config "call"
      [literalQuoted name, "vec![" ++ ", ".intercalate (texts config args) ++ "]"]
  | grouped c => "(" ++ text config c ++ ")"
  | present c => text config c ++ notNullFilter
  | truthy c => text config c ++ ".filter(" ++ config.support ++ "::is_truthy_value)"
  | orElse c d => text config c ++ ".or_else(|| " ++ text config d ++ ")"
  | andThen c t body =>
    text config c ++ ".as_ref().and_then(|" ++ tempText config t ++ "| " ++ text config body ++ ")"
  | ifSome t c body =>
    "if let Some(ref " ++ tempText config t ++ ") = " ++ text config c ++ " " ++
      block (text config body) ++ " else " ++ block "None"
  | letOrNull t c body =>
    block ("let " ++ tempText config t ++ " = &" ++ text config c ++ ".unwrap_or(" ++ nullText ++
      "); " ++ text config body)
  | letIf t c yes no =>
    block ("let " ++ tempText config t ++ " = " ++ text config c ++ "; if " ++
      truthyText config (tempText config t) ++ " " ++ block (text config yes) ++ " else " ++
      block (text config no))
  | list items => "Some(" ++ arrayText (texts config items) ++ ")"
  | object m entries =>
    "let mut " ++ tempText config m ++ " = serde_json::Map::new(); " ++
      "".intercalate ((entryTexts config entries).map (insertText (tempText config m))) ++
      "Some(serde_json::Value::Object(" ++ tempText config m ++ "))"
  | unlessNull x t body =>
    "if " ++ varText config x ++ ".is_null() " ++ block "None" ++ " else " ++
      block ("let " ++ tempText config t ++ " = " ++ varText config x ++ "; " ++ text config body)
  | mapPresent x t items =>
    "Some(" ++ varText config x ++ ")" ++ notNullFilter ++ ".map(|" ++ tempText config t ++ "| " ++
      arrayText (texts config items) ++ ")"
  | andThenPresent x t body =>
    "Some(" ++ varText config x ++ ")" ++ notNullFilter ++ ".and_then(|" ++ tempText config t ++
      "| " ++ block (text config body) ++ ")"
  | mapItems c items item test body =>
    text config c ++ ".as_ref().and_then(|v| v.as_array()).map(|" ++ tempText config items ++
      "| serde_json::Value::Array(" ++ tempText config items ++ ".iter()" ++
      (match test with
        | none => ""
        | some p =>
          ".filter(|&" ++ tempText config item ++ "| " ++ truthyText config (text config p) ++
            ")") ++
      ".filter_map(|" ++ tempText config item ++ "| " ++ text config body ++ ")" ++ notNullFilter ++
      ".collect()))"
  | forItems c items item out value test body =>
    let push := pushText (tempText config value) (text config body) (tempText config out)
    "if let Some(serde_json::Value::Array(ref " ++ tempText config items ++ ")) = " ++
      text config c ++ " " ++
      block ("let mut " ++ tempText config out ++ " = Vec::new(); for " ++ tempText config item ++
        " in " ++ tempText config items ++ ".iter() " ++
        block (match test with
          | none => push
          | some p => "if " ++ truthyText config (text config p) ++ " " ++ block push) ++
        " Some(serde_json::Value::Array(" ++ tempText config out ++ "))") ++
      " else " ++ block "None"
termination_by structural c => c

def texts (config : AccessorConfig) : List Code → List String
  | [] => []
  | c :: cs => text config c :: texts config cs
termination_by structural cs => cs

def entryTexts (config : AccessorConfig) : List (String × Code) → List (String × String)
  | [] => []
  | (key, c) :: es => (key, text config c) :: entryTexts config es
termination_by structural es => es

end

end Code

namespace Expr

def accessor (config : AccessorConfig) (e : Expr) : GenM String :=
  return (← e.code config.nullCheck .input).text config

def accessorText (config : AccessorConfig) (e : Expr) : Except AccessorError String :=
  match config.check with
  | .error fault => .error (.invalidConfig fault)
  | .ok () =>
    match (e.accessor config).run 0 with
    | .ok text _ => .ok text
    | .error err _ => .error err

def accessorFunction (config : AccessorConfig) (name : String) (e : Expr) :
    Except AccessorError String :=
  match checkIdentifier "function name" name with
  | .error fault => .error (.invalidConfig fault)
  | .ok () => do
    let body ← e.accessorText config
    return "pub fn " ++ name ++ "(" ++ config.input ++
      ": &serde_json::Value) -> Option<serde_json::Value> \x7b\n    " ++ body ++ "\n\x7d\n"

end Expr

end PathQuery
