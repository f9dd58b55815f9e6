/-!
# The console

The characters that wait for the keyboard, and what the display has printed.
-/

namespace LC3

structure Console where
  input : List Char
  output : String
  deriving DecidableEq

namespace Console

def empty : Console :=
  ⟨[], ""⟩

/-- Queues characters behind those that wait. -/
def push (c : Console) (text : String) : Console :=
  { c with input := c.input ++ text.toList }

def print (c : Console) (ch : Char) : Console :=
  { c with output := c.output.push ch }

def pending (c : Console) : String :=
  String.ofList c.input

end Console

end LC3
