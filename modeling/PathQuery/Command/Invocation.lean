import PathQuery.Command.Basic

namespace PathQuery.Command

inductive Invocation where
  | search (expression : String) (input : Option String) (pretty : Bool)
  | check (expression : String) (withOutline : Bool)
  | generate (options : GenerateOptions) (configPath : Option String)

namespace Invocation

structure Words where
  values : List (String × String) := []
  flags : List String := []
  plain : List String := []

def longName (word : String) : String :=
  if word = "-i" then "--input" else if word = "-p" then "--pretty" else word

def sortWords (valued flags : List String) : List String → Except String Words
  | [] => .ok {}
  | word :: rest =>
    let name := longName word
    if name ∈ flags then do
      let w ← sortWords valued flags rest
      return { w with flags := name :: w.flags }
    else if name ∈ valued then
      match rest with
      | [] => .error ("a value is required for '" ++ name ++ "'")
      | value :: rest => do
        let w ← sortWords valued flags rest
        return { w with values := (name, value) :: w.values }
    else if name.toList.head? = some '-' ∧ name ≠ "-" then
      .error ("unexpected argument '" ++ word ++ "'")
    else do
      let w ← sortWords valued flags rest
      return { w with plain := word :: w.plain }

def expression (w : Words) : Except String String :=
  match w.plain with
  | [e] => .ok e
  | [] => .error "an expression is required"
  | _ :: word :: _ => .error ("unexpected argument '" ++ word ++ "'")

def nullCheck? : Option String → Except String (Option NullCheck)
  | none => .ok none
  | some s =>
    match NullCheck.ofText? s with
    | some style => .ok (some style)
    | none => .error (NullCheck.unknownMessage s)

def ofWords : List String → Except String Invocation
  | "search" :: rest => do
    let w ← sortWords ["--input"] ["--pretty"] rest
    return .search (← expression w) (w.values.lookup "--input") (w.flags.contains "--pretty")
  | "check" :: rest => do
    let w ← sortWords [] ["--ast"] rest
    return .check (← expression w) (w.flags.contains "--ast")
  | "codegen" :: rest => do
    let w ← sortWords
      ["--config", "--prefix", "--style", "--namespace", "--input-var", "--fn-name"] [] rest
    let style ← nullCheck? (w.values.lookup "--style")
    return .generate {
      expression := ← expression w
      temporaries := w.values.lookup "--prefix"
      nullCheck := style
      support := w.values.lookup "--namespace"
      input := w.values.lookup "--input-var"
      functionName := w.values.lookup "--fn-name" } (w.values.lookup "--config")
  | word :: _ => .error ("unrecognized subcommand '" ++ word ++ "'")
  | [] => .error "a subcommand is required: search, check or codegen"

end Invocation

end PathQuery.Command
