import VaultSearch.CommandLine.Session

namespace VaultSearch.CommandLine

open Text

def usage : Text := "usage: notesearch [-h] [--no-sync] [--transport \x7bsse,stdio\x7d]".toList

def Address.text : Address → Text
  | stdio => "standard input and output".toList
  | sse host listenPort => host ++ [':'] ++ .ofInt listenPort

def intervalText (n : Int) : Text := if n = 0 then "disabled".toList else .ofInt n

def settingLines (a : Arguments) (c : Config) : List Text :=
  ["NOTESEARCH_ROOT:  ".toList ++ c.root.text,
    "SAVED SEARCHES:   ".toList ++ c.savedPath.text,
    "FUZZY THRESHOLD:  ".toList ++ c.threshold.text,
    "SYNC INTERVAL:    ".toList ++ intervalText (if a.noSync then 0 else c.syncInterval),
    "ADDRESS:          ".toList ++ (a.transport.address c).text]

def environment : List Text → IO Environment
  | [] => pure {}
  | name :: names => do
    let rest ← environment names
    match ← IO.getEnv (String.ofList name) with
    | none => pure rest
    | some value => pure (rest.put name value.toList)

def exitCode : ConfigError → Nat
  | .noHome => failure
  | .setting _ _ _ => badUsage

def printLines (ts : List Text) : IO Unit := ts.forM fun t => IO.println (String.ofList t)

def start (ws : List Text) : IO UInt32 := do
  match Command.read ws with
  | .help =>
    printLines [usage]
    pure 0
  | .invalid =>
    IO.eprintln (String.ofList usage)
    pure badUsage.toUInt32
  | .serve a =>
    match Config.ofEnvironment (← environment Config.variableNames) with
    | .error e =>
      IO.eprintln (String.ofList e.message)
      pure (exitCode e).toUInt32
    | .ok c =>
      printLines (settingLines a c)
      pure 0

end VaultSearch.CommandLine

def main (args : List String) : IO UInt32 := VaultSearch.CommandLine.start (args.map String.toList)
