import LC3.CommandLine.Arguments
import LC3.Image.Format
import LC3.Text.Integer

/-!
# Commands

What the tool is asked to do. The first operand names a command, and everything behind it belongs
to the command: its options, in any order, and the path of its input.
-/

namespace LC3.CommandLine

/-- Where messages go. -/
structure LogSettings where
  /-- The least level of messages that are shown, unless it is given with no value. -/
  level : Option String
  /-- The path of a file for messages, if one is wanted. The path may be given with no value. -/
  file : Option (Option String)

structure AssembleSettings where
  output : Option String
  format : Image.Format
  symbols : Bool

structure ListSettings where
  /-- The input is assembly source. -/
  assembly : Bool
  /-- A source text is wanted, not a table. -/
  source : Bool

structure RunSettings where
  assembly : Bool
  /-- The steps that may be taken, unless they are given with no value. -/
  budget : Option Int
  /-- The characters queued for the keyboard. -/
  keys : String
  trace : Bool

inductive Command where
  | assemble (input : String) (settings : AssembleSettings)
  | check (input : String)
  | list (input : String) (settings : ListSettings)
  | run (input : String) (settings : RunSettings)

/-- The format of images unless the user names one. -/
def defaultFormat : Image.Format := .hex

/-- The steps that a run may take unless the user says otherwise. -/
def defaultBudget : Int := 100000

/-- Warnings and errors are shown, and no file is written. -/
def defaultLog : LogSettings :=
  ⟨some "WARNING", none⟩

namespace Command

/-! ## Options -/

/-- A flag that sets something. -/
def flag {σ : Type} (f : σ → σ) : Action σ :=
  .flag fun s => .ok (f s)

/-- An option with a value that has to be understood. -/
def valued {σ α : Type} (spelling : String) (read : String → Option α) (f : Option α → σ → σ) :
    Action σ :=
  .value fun v s =>
    match v with
    | none => .ok (f none s)
    | some v =>
      match read v with
      | some a => .ok (f (some a) s)
      | none => .error (.refused (.badValue spelling v))

/-- An option that stops the reading of arguments. -/
def stopping {σ : Type} (why : Stop) : Action σ :=
  .flag fun _ => .error why

def helpOptions {σ : Type} : Grammar σ :=
  [("-h", stopping .help), ("--help", stopping .help)]

/-- The levels of messages that may be asked for. -/
def logLevels : List String :=
  ["DEBUG", "INFO", "WARNING", "ERROR"]

/-- The options in front of the command. -/
def generalOptions : Grammar LogSettings :=
  let level v := logLevels.find? (· = v)
  helpOptions ++ [
    ("--version", stopping .version),
    ("--log-level", valued "--log-level" level fun v s => { s with level := v }),
    ("--log-file", valued "--log-file" some fun v s => { s with file := some v })]

def assembleOptions : Grammar AssembleSettings :=
  let output spelling := valued spelling some fun v s => { s with output := v }
  let setFormat v s := { s with format := v.getD defaultFormat }
  helpOptions ++ [
    ("-o", output "-o"),
    ("--output", output "--output"),
    ("--format", valued "--format" Image.Format.ofName? setFormat),
    ("--symbols", flag fun s => { s with symbols := true })]

def listOptions : Grammar ListSettings :=
  helpOptions ++ [
    ("--asm", flag fun s => { s with assembly := true }),
    ("--source", flag fun s => { s with source := true })]

def runOptions : Grammar RunSettings :=
  helpOptions ++ [
    ("--asm", flag fun s => { s with assembly := true }),
    ("--max-steps", valued "--max-steps" Text.typedInteger? fun v s => { s with budget := v }),
    ("--input", valued "--input" some fun v s => { s with keys := v.getD "" }),
    ("--trace", flag fun s => { s with trace := true })]

/-! ## Reading -/

/-- What has been read of a command's arguments. -/
structure Reading (σ : Type) where
  settings : σ
  input : Option String
  unknown : List String

namespace Reading

variable {σ : Type}

def addUnknown (r : Reading σ) (arg : String) : Reading σ :=
  { r with unknown := r.unknown ++ [arg] }

def setInput (r : Reading σ) (arg : String) : Reading σ :=
  { r with input := some arg }

/-- Reads the tokens of a command. The first operand is the input; a separator right before or
behind it is dropped. -/
def readAll : Reading σ → List (Token σ) → Except Stop (Reading σ)
  | r, [] => .ok r
  | r, .unknown arg :: ts => (r.addUnknown arg).readAll ts
  | r, .change f :: ts => do
    let settings ← f r.settings
    readAll { r with settings } ts
  | r, .operand arg _ :: ts =>
    match r.input, ts with
    | none, .separator :: ts => (r.setInput arg).readAll ts
    | none, ts => (r.setInput arg).readAll ts
    | some _, ts => (r.addUnknown arg).readAll ts
  | r, .separator :: ts =>
    match r.input, ts with
    | none, .operand arg _ :: ts => (r.setInput arg).readAll ts
    | _, ts => (r.addUnknown "--").readAll ts

end Reading

/-- Refuses the arguments if any are unknown. -/
def requireKnown (unknown : List String) : Except Stop Unit :=
  if unknown.isEmpty then .ok () else .error (.refused (.unknown unknown))

def orRefuse {α : Type} : Except Refusal α → Except Stop α
  | .ok a => .ok a
  | .error r => .error (.refused r)

/-- Reads the arguments of a command: the input and the settings. Arguments that are `unknown`
already are refused in the end. -/
def readWith {σ : Type} (g : Grammar σ) (settings : σ) (unknown args : List String) :
    Except Stop (String × σ) := do
  let r ← Reading.readAll ⟨settings, none, []⟩ (← orRefuse (g.tokens args))
  match r.input with
  | none => throw (.refused .inputMissing)
  | some input =>
    requireKnown (unknown ++ r.unknown)
    return (input, r.settings)

/-- Reads the arguments of the command of this name. -/
def readNamed (unknown : List String) (name : String) (args : List String) :
    Except Stop Command :=
  match name with
  | "asm" => do
    let (input, s) ← readWith assembleOptions ⟨none, defaultFormat, false⟩ unknown args
    return .assemble input s
  | "raw" => do
    let (input, _) ← readWith (helpOptions : Grammar Unit) () unknown args
    return .check input
  | "disasm" => do
    let (input, s) ← readWith listOptions ⟨false, false⟩ unknown args
    return .list input s
  | "run" => do
    let (input, s) ← readWith runOptions ⟨false, some defaultBudget, "", false⟩ unknown args
    return .run input s
  | name => .error (.refused (.unknownCommand name))

/-- Reads the tokens in front of a command, and the command. Without a command, help is shown. -/
def readTokens (s : LogSettings) (unknown : List String) :
    List (Token LogSettings) → Except Stop (LogSettings × Command)
  | [] => do
    requireKnown unknown
    throw .help
  | .unknown arg :: ts => readTokens s (unknown ++ [arg]) ts
  | .change f :: ts => do
    let s ← f s
    readTokens s unknown ts
  | .operand name args :: _ => return (s, ← readNamed unknown name args)
  | .separator :: _ => .error (.refused (.unknownCommand "--"))

/-- The command that arguments stand for, and where messages go. -/
def ofArguments (args : List String) : Except Stop (LogSettings × Command) := do
  readTokens defaultLog [] (← orRefuse (generalOptions.tokens args))

end Command

end LC3.CommandLine
