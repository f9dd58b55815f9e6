import LC3.Program
import LC3.Text.Digit

/-!
# Outcomes

Reading a source text or a raw image ends in an outcome: a program, or a message for the user.
`unwrap` raises the message of a failure together with the line number that it begins with.
-/

namespace LC3

inductive Outcome where
  | success (program : Program)
  | failure (message : String)

namespace Outcome

/-- The outcome with these parts. A success has a program and no message, a failure a message and
no program. -/
def ofParts (success : Bool) (program : Option Program) (message : Option String) :
    Except Fault Outcome :=
  match success, program, message with
  | true, none, _ => .error .programMissing
  | true, some _, some _ => .error .messageUnexpected
  | true, some p, none => .ok (.success p)
  | false, _, none => .error .messageMissing
  | false, some _, some _ => .error .programUnexpected
  | false, none, some s => .ok (.failure s)

/-- The outcome of a reading that ends in a program or a message. -/
def ofExcept : Except String Program → Outcome
  | .ok p => .success p
  | .error s => .failure s

def isSuccess : Outcome → Bool
  | success _ => true
  | failure _ => false

def describe : Outcome → String
  | success p => "ParseResult.ok(orig=x" ++ Numeral.hex p.orig ++ s!", {p.size} words)"
  | failure s => "ParseResult.failure(" ++ Text.quote s ++ ")"

/-! ## Line numbers -/

/-- The text between `Line ` at the beginning and the first colon. -/
def lineText? : List Char → Option (List Char)
  | 'L' :: 'i' :: 'n' :: 'e' :: ' ' :: s => some (s.takeWhile (· ≠ ':'))
  | _ => none

/-- The number that digits stand for. The length limit counts the digits up to the first that is no
decimal digit. -/
def numberOfDigits (ds : List Char) : Except Fault Nat :=
  let count := (ds.takeWhile Text.isDecimalDigit).length
  if maxDigits < count then .error (.numeralTooLong count)
  else
    match ds.mapM Text.decimalValue? with
    | some values => .ok (Numeral.valueOf 10 values)
    | none => .error (.notDecimal (String.ofList ds))

/-- The line number that a message begins with. -/
def lineNumber (message : String) : Except Fault (Option Nat) :=
  match lineText? message.toList with
  | none => .ok none
  | some ds =>
    if !ds.isEmpty && ds.all Text.isDigit then some <$> numberOfDigits ds else .ok none

/-- The program of a success. The message of a failure is raised as a diagnostic. -/
def unwrap : Outcome → Except Fault Program
  | success p => .ok p
  | failure s => do throw (.diagnostic s (← lineNumber s))

end Outcome

end LC3
