import LC3.CommandLine.Log
import LC3.CommandLine.Table
import LC3.Listing
import LC3.Machine.Run

/-!
# Invocations

What the commands do, and how an invocation ends: `invoke` takes the arguments to an interaction
with files and, unless they are refused or ask for help, to a report.
-/

namespace LC3.CommandLine

/-! ## Commands -/

namespace Report

/-- Lines of text, each with a line feed. -/
def ofLines (lines : List String) : String :=
  String.join (lines.map (· ++ "\n"))

/-- A report without errors. -/
def success (output : String) : Report :=
  ⟨0, output, ""⟩

end Report

def symbolTable (p : Program) : Table where
  title := "Symbol table"
  heads := ["Address", "Label"]
  rows := p.symbolRows.map fun (a, name) => [a, name]

/-- An image as it is printed: an object image in hexadecimal digits. -/
def printedImage : Image → String
  | .text s => s
  | .bytes bs =>
    let digits := bs.flatMap fun b => List.leftpad 2 '0' (Nat.toDigits 16 b.toNat)
    String.ofList digits ++ "\n"

def imageBytes : Image → ByteArray
  | .text s => s.toUTF8
  | .bytes bs => ⟨bs.toArray⟩

/-- Writes an image to a file, or prints it if no file is named. -/
def putImage (p : Program) (image : Image) (output : Option String) : Task String :=
  match output.filter (· ≠ "") with
  | none => return printedImage image
  | some path => do
    Task.writeBytes path (imageBytes image)
    return s!"Assembled {p.size} words at x" ++ Numeral.hex p.orig ++ s!" -> {path}\n"

def assembleCommand (input : String) (s : AssembleSettings) : Task Report := do
  let p ← Task.assembleFile input
  let image ← Task.ofExcept (Image.write p s.format)
  let text ← putImage p image s.output
  let table := if s.symbols then Report.ofLines (symbolTable p).lines else ""
  return .success (text ++ table)

/-- The origin, the size and the addresses of a program. -/
def summary (p : Program) : List String :=
  let orig := "x" ++ Numeral.hex p.orig
  let last := Word.ofInt (p.orig + p.size - 1)
  ["Origin:  " ++ orig, s!"Words:   {p.size}"] ++
    if p.code.isEmpty then []
    else ["Range:   " ++ orig ++ "-x" ++ Numeral.hex last.toNat]

def checkCommand (input : String) : Task Report := do
  let p ← Task.loadFile input false
  return .success (Report.ofLines (summary p))

/-- The name in front of a line of a listing. -/
def lineLabel (names : AddressNames) (a : Word) : String :=
  names[(a.toNat : Int)]?.getD ""

/-- A line of a listing: address, word, label and text. -/
def listingLine (names : AddressNames) (line : Listing.Line) : String :=
  "x" ++ Numeral.hex line.address.toNat ++ "  " ++ Numeral.hex line.word ++ "  " ++
    Listing.column 12 (lineLabel names line.address) ++ line.text

/-- A listing as it is printed. -/
def listingLines (p : Program) : List String :=
  let names := p.symbols.addressNames
  p.listing.map (listingLine names)

def listCommand (input : String) (s : ListSettings) : Task Report := do
  let p ← Task.loadFile input s.assembly
  return .success <|
    if s.source then p.source else Report.ofLines (listingLines p)

/-- What a run has printed. A line feed ends it if it has printed anything. -/
def printedText (output : String) : String :=
  if output = "" ∨ output.toList.getLast? = some '\n' then output else output ++ "\n"

def runText (run : Run) (trace : Bool) : String :=
  let traced := if trace then run.executed.reverse.map Executed.traceLine else []
  let status := if run.halted then "halted" else "step budget exhausted"
  Report.ofLines traced ++ printedText run.machine.console.output ++
    Report.ofLines [s!"[{status} after {run.steps} steps]", run.machine.registers.display]

def runCommand (input : String) (s : RunSettings) : Task Report := do
  let p ← Task.loadFile input s.assembly
  match s.budget with
  | none => throw (.fault .budgetMissing)
  | some budget =>
    let run := ((Machine.powerOn.push s.keys).load p).run budget.toNat
    return .success (runText run s.trace)

def Command.task : Command → Task Report
  | assemble input s => assembleCommand input s
  | check input => checkCommand input
  | list input s => listCommand input s
  | run input s => runCommand input s

/-! ## Whole invocations -/

/-- How an invocation ends. -/
inductive Ending where
  | refused (r : Refusal)
  | help
  | report (r : Report)
  deriving DecidableEq, Repr

def version : String :=
  "lc3kit 0.1.0"

/-- Carries out a command. Its failure is reported as far as it can be. -/
def Command.report (c : Command) : Interaction (Except Failure Report) := do
  match ← c.task.run with
  | .ok r => return .ok r
  | .error failure => return failure.report

/-- Does what arguments ask for. A failure to log is not reported, but ends the invocation. -/
def invoke (args : List String) : Interaction (Except Failure Ending) :=
  match Command.ofArguments args with
  | .error (.refused r) => return .ok (.refused r)
  | .error .help => return .ok .help
  | .error .version => return .ok (.report (.success (version ++ "\n")))
  | .ok (log, command) => do
    match ← log.prepare.run with
    | .ok () => return .report <$> (← command.report)
    | .error failure => return .error failure

end LC3.CommandLine
