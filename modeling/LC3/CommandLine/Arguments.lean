import LC3.Text.Digit

/-!
# Arguments

How a list of arguments is told apart into options and operands. An option is a flag or takes a
value; its value is attached to it or is the next argument. A long option, behind two dashes, may
be shortened as long as only one option begins so, and takes an attached value behind an equals
sign. Short options, behind one dash, may be written together. Two dashes alone separate the
options from operands; attached to an option, they stand for no value.

A `Grammar` lists options with what they do to settings. `Grammar.tokens` is the reading of
arguments; what operands mean is left to `LC3.CommandLine.Command`.
-/

namespace LC3.CommandLine

/-- Why arguments are refused. -/
inductive Refusal where
  | ambiguous (arg : String)
  | unknown (args : List String)
  | valueMissing (spelling : String)
  | valueUnexpected (spelling : String)
  | badValue (spelling value : String)
  | inputMissing
  | unknownCommand (name : String)
  deriving DecidableEq, Repr

def Refusal.message : Refusal → String
  | ambiguous arg => s!"{arg} may stand for several options"
  | unknown args => "unknown arguments: " ++ " ".intercalate args
  | valueMissing spelling => s!"{spelling} needs a value"
  | valueUnexpected spelling => s!"{spelling} takes no value"
  | badValue spelling value => s!"{spelling} cannot be {value}"
  | inputMissing => "an input file is needed"
  | unknownCommand name => s!"there is no command {name}"

/-- Why reading the arguments ends before any command is known. -/
inductive Stop where
  | refused (r : Refusal)
  | help
  | version
  deriving DecidableEq, Repr

/-- A change of settings, which may end the reading. -/
abbrev Change (σ : Type) :=
  σ → Except Stop σ

/-- What an option does. -/
inductive Action (σ : Type) where
  | flag (change : Change σ)
  /-- The option has a value, unless it is given with no value. -/
  | value (change : Option String → Change σ)

/-- The spellings of options, with their actions. -/
abbrev Grammar (σ : Type) :=
  List (String × Action σ)

/-- An option found in an argument, with the text attached to it. -/
structure Found (σ : Type) where
  spelling : String
  action : Action σ
  attached : Option (List Char)

/-- What an argument is, as far as its own text shows. -/
inductive Mark (σ : Type) where
  | operand
  | separator
  | unknown
  | option (found : Found σ)

/-- A part of the arguments that is understood as one. -/
inductive Token (σ : Type) where
  /-- An operand, with the arguments behind it. -/
  | operand (arg : String) (behind : List String)
  | separator
  | unknown (arg : String)
  | change (f : Change σ)

namespace Grammar

variable {σ : Type}

/-! ## Marks -/

/-- A minus sign and a number, whole or with a point. A line feed may follow it. -/
def isNegativeNumber : List Char → Bool
  | '-' :: s =>
    let s := if s.getLast? = some '\n' then s.dropLast else s
    match s.dropWhile Text.isDecimalDigit with
    | [] => !s.isEmpty
    | '.' :: fraction => !fraction.isEmpty && fraction.all Text.isDecimalDigit
    | _ => false
  | _ => false

/-- An argument cut at its first equals sign. -/
def cutEquals (s : List Char) : List Char × Option (List Char) :=
  match s.dropWhile (· ≠ '=') with
  | [] => (s, none)
  | _ :: text => (s.takeWhile (· ≠ '='), some text)

/-- The action of a spelling. -/
def action? (g : Grammar σ) (spelling : List Char) : Option (Action σ) :=
  g.lookup (String.ofList spelling)

/-- The options that an argument may be short for. -/
def candidates (g : Grammar σ) (s : List Char) : List (Found σ) :=
  match s with
  | '-' :: '-' :: _ =>
    let (name, attached) := cutEquals s
    g.filterMap fun (spelling, action) =>
      if name.isPrefixOf spelling.toList then some ⟨spelling, action, attached⟩ else none
  | '-' :: c :: text =>
    g.filterMap fun (spelling, action) =>
      if spelling.toList = ['-', c] then some ⟨spelling, action, some text⟩
      else if s.isPrefixOf spelling.toList then some ⟨spelling, action, none⟩
      else none
  | _ => []

/-- What an argument in front of any separator is. An argument that begins with a dash and is no
option can still be an operand: a negative number, or a text with spaces. -/
def mark (g : Grammar σ) (arg : String) : Except Refusal (Mark σ) :=
  match arg.toList with
  | '-' :: c :: text =>
    let s := '-' :: c :: text
    let (name, attached) := cutEquals s
    match g.action? name with
    | some action => .ok (.option ⟨String.ofList name, action, attached⟩)
    | none =>
      match g.candidates s with
      | [found] => .ok (.option found)
      | [] => .ok (if isNegativeNumber s || s.contains ' ' then .operand else .unknown)
      | _ => .error (.ambiguous arg)
  | _ => .ok .operand

/-- Marks every argument. Behind a separator there are only operands. -/
def marks (g : Grammar σ) : List String → Except Refusal (List (String × Mark σ))
  | [] => .ok []
  | arg :: rest =>
    if arg = "--" then .ok ((arg, .separator) :: rest.map fun operand => (operand, .operand))
    else return (arg, ← g.mark arg) :: (← g.marks rest)

/-! ## Options in one argument -/

/-- The options written in one argument, and what they change. -/
structure Cluster (σ : Type) where
  changes : List (Change σ)
  /-- The last option takes the next argument as its value. -/
  waiting : Option (String × (Option String → Change σ))

def Cluster.cons (f : Change σ) (c : Cluster σ) : Cluster σ :=
  { c with changes := f :: c.changes }

/-- An option with nothing attached. -/
def alone (spelling : String) : Action σ → Cluster σ
  | .flag f => ⟨[f], none⟩
  | .value f => ⟨[], some (spelling, f)⟩

/-- A long option stands behind two dashes. -/
def isLong (spelling : String) : Bool :=
  "--".toList.isPrefixOf spelling.toList

/-- The value that an attached text stands for. -/
def attachedValue (text : List Char) : Option String :=
  if text = ['-', '-'] then none else some (String.ofList text)

/-- An option with a text attached: the value, or further short options behind a short flag. -/
def attached (g : Grammar σ) (spelling : String) (action : Action σ) (text : List Char) :
    Except Refusal (Cluster σ) :=
  match action, text with
  | .value f, text => .ok ⟨[f (attachedValue text)], none⟩
  | .flag _, [] => .error (.valueUnexpected spelling)
  | .flag f, c :: text =>
    match if isLong spelling then none else g.action? ['-', c] with
    | none => .error (.valueUnexpected spelling)
    | some action =>
      let next := String.ofList ['-', c]
      if text.isEmpty then .ok ((alone next action).cons f)
      else return (← g.attached next action text).cons f

/-- The options written in the argument of an option. -/
def cluster (g : Grammar σ) (found : Found σ) : Except Refusal (Cluster σ) :=
  match found.attached with
  | none => .ok (alone found.spelling found.action)
  | some text => g.attached found.spelling found.action text

/-! ## Tokens -/

def refusal (r : Refusal) : Token σ :=
  .change fun _ => .error (.refused r)

def Cluster.tokens (c : Cluster σ) : List (Token σ) :=
  c.changes.map Token.change

/-- The tokens of marked arguments. A value that is missing or not wanted ends them. -/
def group (g : Grammar σ) : List (String × Mark σ) → List (Token σ)
  | [] => []
  | (arg, .operand) :: rest => .operand arg (rest.map (·.1)) :: g.group rest
  | (_, .separator) :: rest => .separator :: g.group rest
  | (arg, .unknown) :: rest => .unknown arg :: g.group rest
  | (_, .option found) :: rest =>
    match g.cluster found with
    | .error r => [refusal r]
    | .ok c =>
      match c.waiting with
      | none => c.tokens ++ g.group rest
      | some (spelling, f) =>
        match rest with
        | (value, .operand) :: rest => c.tokens ++ .change (f (some value)) :: g.group rest
        | _ => [refusal (.valueMissing spelling)]

/-- The tokens of arguments. -/
def tokens (g : Grammar σ) (args : List String) : Except Refusal (List (Token σ)) :=
  return g.group (← g.marks args)

end Grammar

end LC3.CommandLine
