import LC3.CommandLine.Command
import LC3.CommandLine.Task

/-!
# Logs

Messages may go to a file. What they say is no matter of this library; that their file is there
before a command does anything is.
-/

namespace LC3.CommandLine.LogSettings

/-- Makes the file for messages at a path, and the directories around it. -/
def makeFile (path : String) : Task Unit := do
  Task.makeDirectory (Path.root path) (Path.parts path).dropLast.reverse
  Task.makeFile (Path.normal path)

/-- Makes the settings hold. A level and a path need a value. -/
def prepare (s : LogSettings) : Task Unit := do
  if s.level.isNone then throw (.fault .levelMissing)
  match s.file with
  | none => return ()
  | some none => throw (.fault .pathMissing)
  | some (some path) => makeFile path

end LC3.CommandLine.LogSettings
