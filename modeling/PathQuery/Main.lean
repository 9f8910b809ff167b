import PathQuery.Command.Invocation

open PathQuery Command

def inputOr (given : Option String) : IO (Option String) := do
  match given with
  | some text => return some text
  | none =>
    let stdin ← IO.getStdin
    if ← stdin.isTty then return none
    let bytes ← readAll stdin ByteArray.empty
    match String.fromUTF8? bytes with
    | some text => return some text
    | none => throw (IO.userError "stream did not contain valid UTF-8")
where
  readAll (stream : IO.FS.Stream) (sofar : ByteArray) : IO ByteArray := do
    let mut bytes := sofar
    repeat
      let chunk ← stream.read 65536
      if chunk.isEmpty then break
      bytes := bytes ++ chunk
    return bytes

def readConfig (path : String) : IO ConfigFile := do
  try
    return ⟨path, .ok (← IO.FS.readFile path)⟩
  catch e =>
    return ⟨path, .error (toString e)⟩

def perform : Invocation → IO (Except CommandError (List String))
  | .search e input pretty => do
    return (search e (← inputOr input)).map fun j ↦
      [if pretty then (Value.ofJson j).pretty else j.compact]
  | .check e withOutline =>
    return (check e withOutline).map fun r ↦ r.canonical :: r.outline.toList
  | .generate options path => do
    let file ← path.mapM readConfig
    return (generate { options with configFile := file }).map ([·])

def main (args : List String) : IO UInt32 := do
  match Invocation.ofWords args with
  | .error message =>
    IO.eprintln ("error: " ++ message)
    return 2
  | .ok invocation =>
    match ← perform invocation with
    | .ok lines =>
      for line in lines do
        IO.println line
      return 0
    | .error e =>
      IO.eprintln e.message
      return 1
