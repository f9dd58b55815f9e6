/-!
# String literals

A string literal stands between double quotation marks. Inside, a backslash and one of `0`, `n`,
`r`, `"` and the backslash itself stand for a character; every other character but the quotation
mark stands for itself.
-/

namespace LC3.Assembly.StringLiteral

/-- Why a token is no string literal. Positions count the characters of the token. -/
inductive Flaw where
  | tooShort
  | notQuoted
  /-- A quotation mark before the end. -/
  | quoteInside (position : Nat)
  /-- The closing quotation mark belongs to an escape. -/
  | quoteEscaped
  | unknownEscape (position : Nat) (c : Char)
  deriving DecidableEq, Repr

def Flaw.message : Flaw → String
  | tooShort => "a string needs at least the two quotation marks"
  | notQuoted =>
    "the string must start and end with double quotation marks (e.g. \"I'm a string\")"
  | quoteInside position =>
    s!"at index {position}: unescaped double quote found before the end of the string"
  | quoteEscaped => "unterminated string literal; the closing quote is backslash-escaped"
  | unknownEscape position c =>
    s!"at index {position}: unsupported escape character '" ++ c.toString ++ "'"

/-- The character that an escape stands for. -/
def escaped? : Char → Option Char
  | '0' => some '\x00'
  | 'n' => some '\n'
  | 'r' => some '\r'
  | '"' => some '"'
  | '\\' => some '\\'
  | _ => none

/-- The text between the quotation marks, whose first character is at `position`. -/
def decodeBody (position : Nat) : List Char → Except Flaw (List Char)
  | [] => .ok []
  | '"' :: _ => .error (.quoteInside position)
  | ['\\'] => .error .quoteEscaped
  | '\\' :: c :: s =>
    match escaped? c with
    | none => .error (.unknownEscape position c)
    | some d => return d :: (← decodeBody (position + 2) s)
  | c :: s => return c :: (← decodeBody (position + 1) s)

/-- The text that a string literal stands for. -/
def decode (token : List Char) : Except Flaw (List Char) :=
  if token.length < 2 then .error .tooShort
  else if token.head? = some '"' ∧ token.getLast? = some '"' then decodeBody 1 token.tail.dropLast
  else .error .notQuoted

end LC3.Assembly.StringLiteral
