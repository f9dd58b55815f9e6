import LC3.Text.Blank

/-!
# Tokens

A source text is split into lines, and each line into tokens. Blanks and commas separate tokens and
a semicolon starts a comment. A quoted string is one token, whatever it holds; a quotation mark
that is never closed on its line is no string, and the rest of the line is split into words.

A text is a `String`, a sequence of Unicode scalar values: no surrogate stands in a text, neither
here nor anywhere else in the library.
-/

namespace LC3.Assembly

/-- The lines of a text. A line ends at a line feed, together with a carriage return before it. -/
def splitLines : List Char → List (List Char)
  | [] => [[]]
  | '\r' :: '\n' :: s => [] :: splitLines s
  | '\n' :: s => [] :: splitLines s
  | c :: s =>
    match splitLines s with
    | [] => [[c]]
    | line :: lines => (c :: line) :: lines

def isSeparator (c : Char) : Bool :=
  Text.isBlank c || c = ','

/-- A word goes on through this character. -/
def inWord (c : Char) : Bool :=
  !isSeparator c && c ≠ ';'

/-- The words of a line up to its comment. Quotation marks have no meaning here. -/
def words : List Char → List (List Char)
  | [] => []
  | c :: s =>
    if c = ';' then []
    else if isSeparator c then words s
    else (c :: s.takeWhile inWord) :: words (s.dropWhile inWord)
termination_by s => s.length
decreasing_by
  · simp
  · have : (s.dropWhile inWord).length ≤ s.length := (List.dropWhile_suffix inWord).length_le
    simp only [List.length_cons]
    omega

/-- Splits the text behind an opening quotation mark: the string up to its closing mark, and the
rest. A backslash takes the next character into the string. -/
def closeQuote : List Char → Option (List Char × List Char)
  | [] => none
  | '"' :: s => some (['"'], s)
  | '\\' :: c :: s => (closeQuote s).map fun (body, rest) => ('\\' :: c :: body, rest)
  | c :: s => (closeQuote s).map fun (body, rest) => (c :: body, rest)

theorem closeQuote_length {s body rest : List Char} (h : closeQuote s = some (body, rest)) :
    rest.length < s.length := by
  fun_induction closeQuote s generalizing body with
  | case1 => simp at h
  | case2 s => simp_all
  | case3 c s ih =>
    obtain ⟨⟨b, r⟩, hc, he⟩ := Option.map_eq_some_iff.1 h
    obtain ⟨-, rfl⟩ := Prod.mk.inj he
    have := ih hc
    simp only [List.length_cons]
    omega
  | case4 c s _ _ ih =>
    obtain ⟨⟨b, r⟩, hc, he⟩ := Option.map_eq_some_iff.1 h
    obtain ⟨-, rfl⟩ := Prod.mk.inj he
    have := ih hc
    simp only [List.length_cons]
    omega

/-- The tokens of a line. -/
def lineTokens : List Char → List (List Char)
  | [] => []
  | c :: s =>
    if c = ';' then []
    else if isSeparator c then lineTokens s
    else if c = '"' then
      match _h : closeQuote s with
      | some (body, rest) => ('"' :: body) :: lineTokens rest
      | none => words (c :: s)
    else (c :: s.takeWhile inWord) :: lineTokens (s.dropWhile inWord)
termination_by s => s.length
decreasing_by
  · simp
  · have := closeQuote_length _h
    simp only [List.length_cons]
    omega
  · have : (s.dropWhile inWord).length ≤ s.length := (List.dropWhile_suffix inWord).length_le
    simp only [List.length_cons]
    omega

/-- The tokens of a text, line by line. -/
def tokenize (text : String) : List (List String) :=
  (splitLines text.toList).map fun line => (lineTokens line).map String.ofList

end LC3.Assembly
