import WikiPage.Program

/-!
# Files of the program

The program on real files. A command that fails ends with status 1, and arguments that make no command
with status 2.
-/

namespace WikiPage

/-- What is found under a path. -/
def contentsOf (path : String) : IO FileContents := do
  try
    let data ← IO.FS.readBinFile path
    pure (.bytes data)
  catch
    | .noFileOrDirectory .. => pure .absent
    | .inappropriateType _ 21 _ => pure .directory
    | .inappropriateType .. => pure .misplaced
    | e => throw e

def Outcome.perform (outcome : Outcome) (path : String) : IO Unit := do
  (← IO.getStdout).putStr outcome.shown
  match outcome.written with
  | some text => IO.FS.writeFile path text
  | none => pure ()

def CommandLine.perform (c : CommandLine) : IO UInt32 := do
  let home := (← IO.getEnv "HOME").getD "~"
  let defaultPath := defaultConfig home
  let config ← contentsOf (c.configPath defaultPath)
  let file ← contentsOf c.command.file
  match c.run defaultPath config file with
  | .error failure =>
    IO.eprintln failure.report
    pure 1
  | .ok outcome =>
    outcome.perform c.command.file
    pure 0

end WikiPage

def main (args : List String) : IO UInt32 :=
  match WikiPage.CommandLine.read? args with
  | some c => c.perform
  | none => do
    IO.eprintln "error: the arguments make no command"
    pure 2
