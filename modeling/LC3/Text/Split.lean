/-!
# Splitting

`splitOn c s` cuts a text at every `c`. There is one part more than there are cuts, and a part may
be empty.
-/

namespace LC3.Text

def splitOn (mark : Char) : List Char → List (List Char)
  | [] => [[]]
  | c :: s =>
    if c = mark then [] :: splitOn mark s
    else
      match splitOn mark s with
      | [] => [[c]]
      | part :: parts => (c :: part) :: parts

end LC3.Text
