import LC3.Text.Printable

/-!
# Quoted text

`quote s` shows a text between quotation marks, so that blanks, controls and unassigned characters
in it can be seen: the apostrophe marks its ends unless the text holds apostrophes and no double
quotation mark.
-/

namespace LC3.Text

def apostrophe : Char := '\x27'

/-- The lower-case hexadecimal digits of a code point, at least `width` of them. -/
def codeDigits (width : Nat) (c : Char) : List Char :=
  List.leftpad width '0' (Nat.toDigits 16 c.toNat)

/-- The shortest numeric escape of a character: two, four or eight digits. -/
def escapeCode (c : Char) : List Char :=
  if c.toNat < 0x100 then '\\' :: 'x' :: codeDigits 2 c
  else if c.toNat < 0x10000 then '\\' :: 'u' :: codeDigits 4 c
  else '\\' :: 'U' :: codeDigits 8 c

/-- How a character is shown between two `mark`s. -/
def escapeChar (mark c : Char) : List Char :=
  if c = mark || c = '\\' then ['\\', c]
  else if c = '\n' then ['\\', 'n']
  else if c = '\r' then ['\\', 'r']
  else if c = '\t' then ['\\', 't']
  else if isPrintable c then [c]
  else escapeCode c

/-- The quotation mark that needs fewer escapes, the apostrophe by default. -/
def quotationMark (s : List Char) : Char :=
  if s.contains apostrophe && !s.contains '"' then '"' else apostrophe

def quote (s : String) : String :=
  let mark := quotationMark s.toList
  String.ofList (mark :: s.toList.flatMap (escapeChar mark) ++ [mark])

end LC3.Text
