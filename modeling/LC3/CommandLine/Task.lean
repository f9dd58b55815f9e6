import LC3.Assembly
import LC3.CommandLine.Files
import LC3.Image.Format

/-!
# Tasks

A task works with files and may fail. It reads programs from assembly source, raw images and object
images; a diagnostic or a file that cannot be opened makes it fail, and is reported as an error.
-/

namespace LC3.CommandLine

structure Report where
  status : Nat
  output : String
  errors : String
  deriving DecidableEq, Repr

/-- Why a command fails. -/
inductive Failure where
  | fault (f : Fault)
  | file (e : FileError) (path : String)
  deriving DecidableEq, Repr

/-- The report of a failure. Only diagnostics and file errors are reported; any other fault is
passed on. -/
def Failure.report : Failure → Except Failure Report
  | fault (.diagnostic message _) => .ok ⟨1, "", s!"Assembly error: {message}\n"⟩
  | fault f => .error (.fault f)
  | file e path => .ok ⟨1, "", "Error: " ++ e.message path ++ "\n"⟩

def Failure.message : Failure → String
  | fault f => f.message
  | file e path => e.message path

/-- What a command does with files; it may fail. -/
abbrev Task :=
  ExceptT Failure Interaction

namespace Task

def ofExcept {α : Type} : Except Fault α → Task α
  | .ok a => pure a
  | .error f => throw (.fault f)

/-! ## Files -/

/-- A path that is opened holds no zero character. -/
def checkPath (path : String) : Task Unit :=
  if path.toList.contains '\x00' then throw (.fault .zeroInPath) else pure ()

/-- Goes on with what has become of a path. -/
def ofFile {α : Type} (path : String) : Except FileError α → Task α
  | .ok a => pure a
  | .error e => throw (.file e path)

/-- The contents of a file. -/
def readBytes (path : String) : Task ByteArray := do
  checkPath path
  ofFile path (← liftM (Interaction.read path .done))

def writeBytes (path : String) (bytes : ByteArray) : Task Unit := do
  checkPath path
  ofFile path (← liftM (Interaction.write path bytes .done))

/-- Makes a file without contents, unless there is a file already. -/
def makeFile (path : String) : Task Unit := do
  checkPath path
  ofFile path (← liftM (Interaction.ensure path (.file .empty) .done))

/-- Makes the directory that parts behind a root lead to, the last part first, unless there is one
already. Where it cannot be made because those around it are missing, they are made first. -/
def makeDirectory (root : String) (parts : List String) : Task Unit := do
  let path := Path.ofParts root parts.reverse
  checkPath path
  match ← liftM (Interaction.ensure path .directory .done), parts with
  | .error .missing, _ :: around =>
    makeDirectory root around
    ofFile path (← liftM (Interaction.ensure path .directory .done))
  | r, _ => ofFile path r

/-- The text with every line end as a line feed: a carriage return alone or in front of a line
feed is one line end. -/
def lineFeeds : List Char → List Char
  | [] => []
  | '\r' :: '\n' :: s => '\n' :: lineFeeds s
  | '\r' :: s => '\n' :: lineFeeds s
  | c :: s => c :: lineFeeds s

/-- The contents of a text file. -/
def readText (path : String) : Task String := do
  match String.fromUTF8? (← readBytes path) with
  | some s => return String.ofList (lineFeeds s.toList)
  | none => throw (.fault .encoding)

/-! ## Inputs -/

/-- The program of an assembly source. -/
def assembleFile (path : String) : Task Program := do
  let outcome ← ofExcept (Assembly.assemble (← readText path))
  ofExcept outcome.unwrap

/-- The program of an input, whose path is brought into normal form: assembly source, an object
image or a raw image. -/
def loadFile (path : String) (assembly : Bool) : Task Program := do
  let path := Path.normal path
  if assembly then assembleFile path
  else if Path.isObject path then ofExcept (Image.readObject (← readBytes path).toList)
  else ofExcept (Image.readRaw (← readText path)).unwrap

end Task

end LC3.CommandLine
