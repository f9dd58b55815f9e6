import LC3.CommandLine.Invocation

/-!
# The program

Carries out the command line on the files of the system.
-/

open LC3 LC3.CommandLine

/-- The failure that the system reports, as far as it is told apart. -/
def fileError : IO.Error → FileError
  | .noFileOrDirectory .. => .missing
  | .alreadyExists .. => .alreadyThere
  | .inappropriateType .. => .isDirectory
  | .permissionDenied .. => ⟨13, "Permission denied"⟩
  | _ => ⟨5, "Input/output error"⟩

/-- What becomes of an action on files. -/
def attempt {α : Type} (act : IO α) : IO (Except FileError α) := do
  try return .ok (← act)
  catch e => return .error (fileError e)

/-- Makes an entry, unless there is one of its kind. -/
def make (path : String) : Entry → IO Unit
  | .directory => IO.FS.createDirAll path
  | .file _ => IO.FS.withFile path .append fun _ => pure ()

/-- Carries out an interaction. -/
def carryOut {α : Type} : Interaction α → IO α
  | .done a => return a
  | .read path next => do carryOut (next (← attempt (IO.FS.readBinFile path)))
  | .write path bytes next => do carryOut (next (← attempt (IO.FS.writeBinFile path bytes)))
  | .ensure path entry next => do carryOut (next (← attempt (make path entry)))

def usage : String :=
  "usage: lc3kit [-h] [--version] [--log-level LEVEL] [--log-file FILE] command ...\n\n" ++
  "  asm [-o FILE] [--format hex|bin|obj] [--symbols] input\n" ++
  "  raw input\n" ++
  "  disasm [--asm] [--source] input\n" ++
  "  run [--asm] [--max-steps N] [--input TEXT] [--trace] input\n"

def main (args : List String) : IO UInt32 := do
  match ← carryOut (invoke args) with
  | .error f =>
    IO.eprintln f.message
    return 1
  | .ok (.refused r) =>
    IO.eprint (usage ++ "\nerror: " ++ r.message ++ "\n")
    return 2
  | .ok .help =>
    IO.print usage
    return 0
  | .ok (.report r) =>
    IO.print r.output
    IO.eprint r.errors
    return UInt32.ofNat r.status
