import LC3.Text.Quoted

/-!
# Faults

A fault is a request that cannot be answered at all: a numeral beyond the length limit, an index
outside its range, a raised diagnostic. Whatever is wrong with a source text or an image is a
diagnostic and no fault, unless a numeral in it is too long.
-/

namespace LC3

/-- Decimal numerals of more digits are neither read nor written. -/
def maxDigits : Nat := 4300

inductive Fault where
  /-- A decimal numeral of this many digits was to be read. -/
  | numeralTooLong (digits : Nat)
  /-- An integer of more than `maxDigits` decimal digits was to be written. -/
  | integerTooLong
  /-- The text is all digits, but no decimal numeral. -/
  | notDecimal (text : String)
  /-- A field of no bits. -/
  | shiftCount
  | registerIndex (n : Int)
  | cellIndex
  | imageSize (words : Nat)
  | wordTooBig
  | wordNegative
  /-- An outcome that claims success has no program. -/
  | programMissing
  | programUnexpected
  | messageMissing
  | messageUnexpected
  /-- A diagnostic, with the source line it names. -/
  | diagnostic (message : String) (line : Option Nat)
  /-- A text file that is not UTF-8. -/
  | encoding
  /-- A path that holds a zero character. -/
  | zeroInPath
  /-- The level of messages was given with no value. -/
  | levelMissing
  /-- The path of the file for messages was given with no value. -/
  | pathMissing
  /-- The budget of a run was given with no value. -/
  | budgetMissing
  deriving DecidableEq, Repr

namespace Fault

/-- How much of a text that is no numeral is shown. -/
def shownText (text : String) : String :=
  String.ofList ((Text.quote text).toList.take 200)

def message : Fault → String
  | numeralTooLong digits =>
    s!"Exceeds the limit ({maxDigits} digits) for integer string conversion: value has {digits} " ++
      "digits; use sys.set_int_max_str_digits() to increase the limit"
  | integerTooLong =>
    s!"Exceeds the limit ({maxDigits} digits) for integer string conversion; " ++
      "use sys.set_int_max_str_digits() to increase the limit"
  | notDecimal text => "invalid literal for int() with base 10: " ++ shownText text
  | shiftCount => "negative shift count"
  | registerIndex n =>
    s!"Numeric register index out of bounds: expected between 0 and 7 inclusive, but got {n}"
  | cellIndex => "list index out of range"
  | imageSize words => s!"memory image must have 65536 words, got {words}"
  | wordTooBig => "int too big to convert"
  | wordNegative => "can't convert negative int to unsigned"
  | programMissing => "successful ParseResult requires a Program"
  | programUnexpected => "failed ParseResult cannot carry a Program"
  | messageMissing => "failed ParseResult requires a string message"
  | messageUnexpected => "successful ParseResult cannot carry a message"
  | diagnostic message _ => message
  | encoding => ""
  | zeroInPath => "embedded null byte"
  | levelMissing => "attribute name must be string, not 'list'"
  | pathMissing => "expected str, bytes or os.PathLike object, not list"
  | budgetMissing => "'<' not supported between instances of 'int' and 'list'"

end Fault

end LC3
