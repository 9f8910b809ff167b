import PathQuery.Accessor.Text

namespace PathQuery

/-- What a name in generated code stands for: the input or a temporary, the parameter of the
closures that look at an optional value, or a constructor of the language itself. -/
inductive Binder where
  | ofVar (x : Var)
  | parameter
  | builtin (name : String)
deriving DecidableEq, Repr

namespace Binder

def name (config : AccessorConfig) : Binder → String
  | ofVar x => Code.varText config x
  | parameter => "v"
  | builtin name => name

def isVariable : Binder → Bool
  | builtin _ => false
  | _ => true

end Binder

/-- Text with names in it. A binding writes the name of its binder, then what stands between the
name and its scope and does not see it, and then the scope. -/
inductive Script where
  | text (s : String)
  | use (b : Binder)
  | bind (b : Binder) (between scope : Script)
  | append (p q : Script)

namespace Script

instance : Append Script := ⟨append⟩

def render (config : AccessorConfig) : Script → String
  | text s => s
  | use b => b.name config
  | bind b between scope => b.name config ++ between.render config ++ scope.render config
  | append p q => p.render config ++ q.render config

/-- The names that stand for a variable outside the scope of a binder of that name. -/
def free (config : AccessorConfig) : Script → List String
  | text _ => []
  | use b => if b.isVariable then [b.name config] else []
  | bind b between scope =>
    between.free config ++ (scope.free config).filter (· ≠ b.name config)
  | append p q => p.free config ++ q.free config

def binders : Script → List Binder
  | text _ => []
  | use _ => []
  | bind b between scope => b :: (between.binders ++ scope.binders)
  | append p q => p.binders ++ q.binders

/-- The words that the language of the code reserves, in its edition of 2024. -/
def keywords : List String :=
  ["_", "as", "async", "await", "break", "const", "continue", "crate", "dyn", "else", "enum",
    "extern", "false", "fn", "for", "if", "impl", "in", "let", "loop", "match", "mod", "move",
    "mut", "pub", "ref", "return", "self", "Self", "static", "struct", "super", "trait", "true",
    "type", "unsafe", "use", "where", "while", "abstract", "become", "box", "do", "final", "gen",
    "macro", "override", "priv", "try", "typeof", "unsized", "virtual", "yield"]

/-- The constructors that there are without an import. In a pattern such a name is matched against
and not bound. -/
def constructors : List String := ["Some", "None", "Ok", "Err"]

def Bindable (name : String) : Prop :=
  Lexer.isName name.toList = true ∧ name ∉ keywords ∧ name ∉ constructors

instance (name : String) : Decidable (Bindable name) :=
  inferInstanceAs (Decidable (_ ∧ _ ∧ _))

/-- What a name stands for within the binders of `scope`, of which the closest comes first. -/
def resolve (config : AccessorConfig) (scope : List Binder) (name : String) : Option Binder :=
  if name ∈ constructors then some (.builtin name)
  else if Bindable name then scope.find? (·.name config == name)
  else none

/-- Within the binders of `scope` no name is captured: each stands for what it is meant to stand
for, what is bound can be bound, and no name but that of a parameter is bound again. -/
def Hygienic (config : AccessorConfig) (scope : List Binder) : Script → Prop
  | text _ => True
  | use b => resolve config scope (b.name config) = some b
  | bind b between inner =>
    Bindable (b.name config) ∧ (b ≠ .parameter → ∀ c ∈ scope, c.name config ≠ b.name config) ∧
      Hygienic config scope between ∧ Hygienic config (b :: scope) inner
  | append p q => Hygienic config scope p ∧ Hygienic config scope q

def mention (before name after : String) : Script :=
  text before ++ use (.builtin name) ++ text after

def separated (separator : String) : List Script → Script
  | [] => text ""
  | [p] => p
  | p :: q :: ps => p ++ text separator ++ separated separator (q :: ps)

def block (p : Script) : Script := text "\x7b " ++ p ++ text " \x7d"

def nothing : Script := use (.builtin "None")

def elseNone (p : Script) : Script := p ++ (text " else " ++ block nothing)

def option : Option Int64 → Script
  | some n => mention "" "Some" "(" ++ text (toString n.toInt) ++ text ")"
  | none => nothing

def temp (t : Nat) : Script := use (.ofVar (.temp t))

def bindTemp (t : Nat) (between scope : Script) : Script := bind (.ofVar (.temp t)) between scope

def closure (before : String) (t : Nat) (body : Script) : Script :=
  text before ++ bindTemp t (text "| ") body ++ text ")"

def ask (before after : String) : Script :=
  bind .parameter (text before) (use .parameter ++ text after)

def notNullFilter : Script := text ".filter(|" ++ ask "| !" ".is_null()" ++ text ")"

def mapArray : Script := text ".as_ref().and_then(|" ++ ask "| " ".as_array()" ++ text ").map(|"

def call (support name : String) (args : List Script) : Script :=
  text (support ++ "::" ++ name ++ "(") ++ separated ", " args ++ text ")"

def truthy (support : String) (p : Script) : Script := call support "is_truthy" [text "&" ++ p]

def array (items : List Script) : Script :=
  text "serde_json::Value::Array(vec![" ++
    separated ", " (items.map (· ++ text (".unwrap_or(" ++ Code.nullText ++ ")"))) ++ text "])"

def insert (m : Nat) (entry : String × Script) : Script :=
  temp m ++ text (".insert(" ++ literalQuoted entry.1 ++ ".to_string(), ") ++ entry.2 ++
    text (".unwrap_or(" ++ Code.nullText ++ ")); ")

def push (value : Nat) (body : Script) (out : Nat) : Script :=
  mention "if let " "Some" "(" ++
    bindTemp value (text ") = " ++ body ++ text " ")
      (block (text "if !" ++ temp value ++ text ".is_null() " ++
        block (temp out ++ text ".push(" ++ temp value ++ text ");")))

def collect (items : Nat) (source steps : Script) : Script :=
  source ++ mapArray ++
    bindTemp items (text "| serde_json::Value::Array(")
      (temp items ++ text ".iter()" ++ steps) ++
    text ".collect()))"

def loop (items item out : Nat) (source step : Script) : Script :=
  elseNone (mention "if let " "Some" "(serde_json::Value::Array(ref " ++
    bindTemp items (text ")) = " ++ source ++ text " ")
      (block (text "let mut " ++
        bindTemp out (text " = Vec::new(); for ")
          (bindTemp item (text " in " ++ temp items ++ text ".iter() ") (block step) ++
            (mention " " "Some" "(serde_json::Value::Array(" ++ temp out ++ text "))")))))

end Script

open Script

namespace Code

mutual

/-- The text of code with the scopes of its binders. It does not know the names. -/
def script (support : String) : Code → Script
  | field x name => use (.ofVar x) ++ .text (".get(" ++ literalQuoted name ++ ").cloned()")
  | index x i => .call support "index" [use (.ofVar x), .text (toString i.toInt)]
  | slice x start stop step =>
    .call support "slice" [use (.ofVar x), .option start, .option stop, .option step]
  | current x => .mention "" "Some" "(" ++ use (.ofVar x) ++ .text ".clone())"
  | literal v => .mention "" "Some" "(serde_json::json!(" ++ .text v.macroText ++ .text "))"
  | optional t => temp t
  | flatten c => .call support "flatten" [script support c]
  | objectValues c => .call support "object_values" [script support c]
  | negation c =>
    .mention "" "Some" "(serde_json::Value::Bool(!" ++ .truthy support (script support c) ++
      .text "))"
  | comparison op a b =>
    .call support "compare" [.text (literalQuoted op.text), script support a, script support b]
  | call name args =>
    .call support "call" [.text (literalQuoted name),
      .text "vec![" ++ separated ", " (scripts support args) ++ .text "]"]
  | grouped c => .text "(" ++ script support c ++ .text ")"
  | present c => script support c ++ .notNullFilter
  | truthy c => script support c ++ .text (".filter(" ++ support ++ "::is_truthy_value)")
  | orElse c d => script support c ++ .text ".or_else(|| " ++ script support d ++ .text ")"
  | andThen c t body =>
    script support c ++ .closure ".as_ref().and_then(|" t (script support body)
  | ifSome t c body =>
    .elseNone (.mention "if let " "Some" "(ref " ++
      bindTemp t (.text ") = " ++ script support c ++ .text " ") (.block (script support body)))
  | letOrNull t c body =>
    .block (.text "let " ++
      bindTemp t (.text " = &" ++ script support c ++ .text (".unwrap_or(" ++ nullText ++ "); "))
        (script support body))
  | letIf t c yes no =>
    .block (.text "let " ++
      bindTemp t (.text " = " ++ script support c ++ .text "; if ")
        (.truthy support (temp t) ++ .text " " ++ .block (script support yes) ++
          (.text " else " ++ .block (script support no))))
  | list items => .mention "" "Some" "(" ++ .array (scripts support items) ++ .text ")"
  | object m entries =>
    .text "let mut " ++
      bindTemp m (.text " = serde_json::Map::new(); ")
        (separated "" ((entryScripts support entries).map (.insert m)) ++
          (.mention "" "Some" "(serde_json::Value::Object(" ++ temp m ++ .text "))"))
  | unlessNull x t body =>
    .text "if " ++ use (.ofVar x) ++ .text ".is_null() " ++ .block nothing ++
      .text " else " ++
      .block (.text "let " ++
        bindTemp t (.text " = " ++ use (.ofVar x) ++ .text "; ") (script support body))
  | mapPresent x t items =>
    .mention "" "Some" "(" ++ use (.ofVar x) ++ .text ")" ++ .notNullFilter ++
      .closure ".map(|" t (.array (scripts support items))
  | andThenPresent x t body =>
    .mention "" "Some" "(" ++ use (.ofVar x) ++ .text ")" ++ .notNullFilter ++
      .closure ".and_then(|" t (.block (script support body))
  | mapItems c items item test body =>
    .collect items (script support c)
      ((match test with
        | none => .text ""
        | some p => .closure ".filter(|&" item (.truthy support (script support p))) ++
        .closure ".filter_map(|" item (script support body) ++ .notNullFilter)
  | forItems c items item out value test body =>
    let push := Script.push value (script support body) out
    .loop items item out (script support c)
      (match test with
      | none => push
      | some p => .text "if " ++ .truthy support (script support p) ++ .text " " ++ .block push)
termination_by structural c => c

def scripts (support : String) : List Code → List Script
  | [] => []
  | c :: cs => script support c :: scripts support cs
termination_by structural cs => cs

def entryScripts (support : String) : List (String × Code) → List (String × Script)
  | [] => []
  | (key, c) :: es => (key, script support c) :: entryScripts support es
termination_by structural es => es

end

end Code

namespace Script

variable {config : AccessorConfig}

@[simp] theorem render_append (p q : Script) :
    (p ++ q).render config = p.render config ++ q.render config := rfl

@[simp] theorem render_text (s : String) : (text s).render config = s := rfl

@[simp] theorem render_use (x : Var) :
    (use (.ofVar x)).render config = Code.varText config x := rfl

@[simp] theorem render_mention (before name after : String) :
    (mention before name after).render config = before ++ name ++ after := rfl

@[simp] theorem render_temp (t : Nat) : (temp t).render config = Code.tempText config t := rfl

@[simp] theorem render_bindTemp (t : Nat) (between scope : Script) :
    (bindTemp t between scope).render config =
      Code.tempText config t ++ between.render config ++ scope.render config := rfl

@[simp] theorem render_closure (before : String) (t : Nat) (body : Script) :
    (closure before t body).render config =
      before ++ (Code.tempText config t ++ "| " ++ body.render config) ++ ")" := rfl

@[simp] theorem render_block (p : Script) :
    (block p).render config = Code.block (p.render config) :=
  rfl

@[simp] theorem render_elseNone (p : Script) :
    (elseNone p).render config = p.render config ++ (" else " ++ Code.block "None") := rfl

@[simp] theorem render_nothing : nothing.render config = "None" := rfl

@[simp] theorem render_option (n : Option Int64) :
    (option n).render config = Code.optionText n := by
  cases n with
  | none => rfl
  | some n =>
    simp only [option, Code.optionText, render_append, render_mention, render_text,
      String.reduceAppend]

@[simp] theorem render_notNullFilter : notNullFilter.render config = Code.notNullFilter := rfl

theorem render_separated (separator : String) (ps : List Script) :
    (separated separator ps).render config =
      separator.intercalate (ps.map (render config)) := by
  induction ps with
  | nil => rfl
  | cons p ps ih =>
    cases ps with
    | nil => simp [separated]
    | cons q ps =>
      rw [separated, render_append, ih]
      simp [String.intercalate_cons_cons]

@[simp] theorem render_mapArray :
    mapArray.render config = ".as_ref().and_then(|v| v.as_array()).map(|" := rfl

@[simp] theorem render_call (name : String) (args : List Script) :
    (call config.support name args).render config =
      Code.supportText config name (args.map (render config)) := by
  simp only [call, Code.supportText, render_append, render_text, render_separated]

@[simp] theorem render_truthy (p : Script) :
    (truthy config.support p).render config = Code.truthyText config (p.render config) := by
  simp only [truthy, Code.truthyText, render_call, List.map, render_append, render_text]

@[simp] theorem render_array (items : List Script) :
    (array items).render config = Code.arrayText (items.map (render config)) := by
  have hitem : render config ∘ (· ++ text (".unwrap_or(" ++ Code.nullText ++ ")")) =
      (fun i ↦ i ++ ".unwrap_or(" ++ Code.nullText ++ ")") ∘ render config := by
    funext p
    simp only [Function.comp_apply, render_append, render_text, String.append_assoc]
  unfold Code.arrayText
  simp only [array, render_append, render_text, render_separated, List.map_map,
    hitem]

@[simp] theorem render_push (value : Nat) (body : Script) (out : Nat) :
    (push value body out).render config = Code.pushText (Code.tempText config value)
      (body.render config) (Code.tempText config out) := by
  simp only [push, Code.pushText, render_append, render_text, render_mention, String.reduceAppend,
    render_bindTemp, render_block, render_temp, String.append_assoc]

@[simp] theorem render_collect (items : Nat) (source steps : Script) :
    (collect items source steps).render config =
      source.render config ++ (".as_ref().and_then(|v| v.as_array()).map(|" ++
        Code.tempText config items ++ "| serde_json::Value::Array(" ++
        Code.tempText config items ++ ".iter()" ++ steps.render config ++ ".collect()))") := by
  simp only [collect, render_append, render_text, render_mapArray, render_bindTemp, render_temp,
    String.append_assoc]

@[simp] theorem render_loop (items item out : Nat) (source step : Script) :
    (loop items item out source step).render config =
      "if let Some(serde_json::Value::Array(ref " ++ Code.tempText config items ++ ")) = " ++
        source.render config ++ " " ++
        Code.block ("let mut " ++ Code.tempText config out ++ " = Vec::new(); for " ++
          Code.tempText config item ++ " in " ++ Code.tempText config items ++ ".iter() " ++
          Code.block (step.render config) ++ " Some(serde_json::Value::Array(" ++
          Code.tempText config out ++ "))") ++
        " else " ++ Code.block "None" := by
  simp only [loop, render_append, render_text, render_mention, String.reduceAppend,
    render_bindTemp, render_temp, render_block, render_elseNone, String.append_assoc]

theorem render_insert (m : Nat) (entry : String × Script) :
    (insert m entry).render config =
      Code.insertText (Code.tempText config m) (entry.1, entry.2.render config) := by
  simp only [insert, Code.insertText, render_append, render_text, render_temp, String.append_assoc]

end Script

open Script

namespace Code

mutual

/-- The scopes are those of the text that is generated. The definition of `text` is unfolded as a
whole: its equations take long to derive. -/
theorem render_script (config : AccessorConfig) :
    (c : Code) → (c.script config.support).render config = c.text config
  | field x name => by
    unfold text
    simp only [script, render_append, render_text, render_use, String.append_assoc]
  | index x i => by
    unfold text
    simp only [script, render_call, List.map, render_text, render_use]
  | slice x start stop step => by
    unfold text
    simp only [script, render_call, List.map, render_option, render_use]
  | current x => by
    unfold text
    simp only [script, render_append, render_text, render_mention, String.reduceAppend, render_use]
  | literal v => by
    unfold text
    simp only [script, render_append, render_text, render_mention, String.reduceAppend]
  | optional t => by
    unfold text
    simp only [script, render_temp]
  | flatten c => by
    unfold text
    simp only [script, render_call, List.map, render_script config c]
  | objectValues c => by
    unfold text
    simp only [script, render_call, List.map, render_script config c]
  | negation c => by
    unfold text
    simp only [script, render_append, render_text, render_mention, String.reduceAppend,
      render_truthy, render_script config c]
  | comparison op a b => by
    unfold text
    simp only [script, render_call, List.map, render_text, render_script config a,
      render_script config b]
  | call name args => by
    unfold text
    simp only [script, render_call, List.map, render_append, render_text, render_separated,
      render_scripts config args]
  | grouped c => by
    unfold text
    simp only [script, render_append, render_text, render_script config c]
  | present c => by
    unfold text
    simp only [script, render_append, render_notNullFilter, render_script config c]
  | truthy c => by
    unfold text
    simp only [script, render_append, render_text, render_script config c,
      String.append_assoc]
  | orElse c d => by
    unfold text
    simp only [script, render_append, render_text, render_script config c,
      render_script config d]
  | andThen c t body => by
    unfold text
    simp only [script, render_append, render_closure, render_script config c,
      render_script config body, String.append_assoc]
  | ifSome t c body => by
    unfold text
    simp only [script, render_append, render_text, render_mention, String.reduceAppend,
      render_bindTemp, render_block, render_elseNone, render_script config c,
      render_script config body, String.append_assoc]
  | letOrNull t c body => by
    unfold text
    simp only [script, render_append, render_text, render_bindTemp, render_block,
      render_script config c, render_script config body, String.append_assoc]
  | letIf t c yes no => by
    unfold text
    simp only [script, render_append, render_text, render_bindTemp, render_block,
      render_truthy, render_temp, render_script config c, render_script config yes,
      render_script config no, String.append_assoc]
  | list items => by
    unfold text
    simp only [script, render_append, render_text, render_mention, String.reduceAppend,
      render_array, render_scripts config items]
  | object m entries => by
    unfold text
    simp only [script, render_append, render_text, render_mention, String.reduceAppend,
      render_bindTemp, render_temp, render_separated, render_inserts config m entries,
      String.append_assoc]
  | unlessNull x t body => by
    unfold text
    simp only [script, render_append, render_text, render_use, render_bindTemp, render_block,
      render_nothing, render_script config body, String.append_assoc]
  | mapPresent x t items => by
    unfold text
    simp only [script, render_append, render_text, render_mention, String.reduceAppend, render_use,
      render_closure, render_notNullFilter, render_array, render_scripts config items,
      String.append_assoc]
  | andThenPresent x t body => by
    unfold text
    simp only [script, render_append, render_text, render_mention, String.reduceAppend, render_use,
      render_closure, render_notNullFilter, render_block, render_script config body,
      String.append_assoc]
  | mapItems c items item none body => by
    unfold text
    simp only [script, render_append, render_text, render_collect, render_closure,
      render_notNullFilter, render_script config c, render_script config body,
      String.append_assoc]
  | mapItems c items item (some p) body => by
    unfold text
    simp only [script, render_append, render_collect, render_closure, render_notNullFilter,
      render_truthy, render_script config c, render_script config p, render_script config body,
      String.append_assoc]
  | forItems c items item out value none body => by
    unfold text
    simp only [script, render_loop, render_push, render_script config c, render_script config body]
  | forItems c items item out value (some p) body => by
    unfold text
    simp only [script, render_append, render_text, render_loop, render_block, render_push,
      render_truthy, render_script config c, render_script config p, render_script config body,
      String.append_assoc]
termination_by structural c => c

theorem render_scripts (config : AccessorConfig) :
    (cs : List Code) → (scripts config.support cs).map (render config) = texts config cs
  | [] => rfl
  | c :: cs => by
    rw [scripts, texts, List.map_cons, render_script config c, render_scripts config cs]
termination_by structural cs => cs

theorem render_inserts (config : AccessorConfig) (m : Nat) : (es : List (String × Code)) →
    ((entryScripts config.support es).map (.insert m)).map (render config) =
      (entryTexts config es).map (insertText (tempText config m))
  | [] => rfl
  | (key, c) :: es => by
    rw [entryScripts, entryTexts, List.map_cons, List.map_cons, List.map_cons, render_insert,
      render_script config c, render_inserts config m es]
termination_by structural es => es

end

end Code

end PathQuery
