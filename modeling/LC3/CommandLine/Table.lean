/-!
# Tables

A table in a box of lines, with a title centred above it. A column is as wide as its widest cell,
and has one blank on both sides.
-/

namespace LC3.CommandLine

structure Table where
  title : String
  heads : List String
  rows : List (List String)

namespace Table

/-- The left end, the line, the crossing and the right end of a border. -/
structure Border where
  left : String
  line : Char
  cross : String
  right : String

/-- The width of each column, blanks apart. -/
def widths (t : Table) : List Nat :=
  t.rows.foldl (fun ws row => List.zipWith (fun w cell => max w cell.length) ws row)
    (t.heads.map String.length)

def border (ws : List Nat) (b : Border) : String :=
  b.left ++ b.cross.intercalate (ws.map fun w => "".pushn b.line (w + 2)) ++ b.right

/-- A row of cells, which fill up their columns, between lines. -/
def row (ws : List Nat) (line : String) (cells : List String) : String :=
  let shown := List.zipWith (fun w cell => " " ++ cell.pushn ' ' (w - cell.length) ++ " ") ws cells
  line ++ line.intercalate shown ++ line

/-- A text in the middle of a field; of an odd number of blanks, more stand on the right. -/
def centred (width : Nat) (s : String) : String :=
  let blanks := width - s.length
  "".pushn ' ' (blanks / 2) ++ s ++ "".pushn ' ' (blanks - blanks / 2)

def lines (t : Table) : List String :=
  let ws := t.widths
  let top := border ws ⟨"┏", '━', "┳", "┓"⟩
  [centred top.length t.title, top, row ws "┃" t.heads, border ws ⟨"┡", '━', "╇", "┩"⟩] ++
    t.rows.map (row ws "│") ++ [border ws ⟨"└", '─', "┴", "┘"⟩]

end Table

end LC3.CommandLine
