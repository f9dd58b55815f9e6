import LC3.Machine

/-!
# Operations

What a session can be asked to do, and what it answers. Integers are wrapped to words by the
operation that takes them.
-/

namespace LC3.Session

inductive Operation where
  | load (p : Program)
  | loadSource (text : String)
  | loadRaw (text : String)
  | symbols
  /-- Attaches a new stepper, which keeps a trace or not. -/
  | attachStepper (tracing : Bool)
  | step
  | steps (count : Int)
  /-- Steps a copy, which becomes the session's machine. -/
  | stepCopy
  | run (budget : Int) (tracing : Bool)
  | trace
  | getRegister (n : Int)
  | setRegister (n v : Int)
  | setPC (v : Int)
  | setIR (v : Int)
  | setPSR (v : Int)
  | setCondition (v : Int)
  | condition
  | reset
  | fields
  | display
  | describe
  | setDepth (v : Int)
  | push (text : String)
  | peek (a : Int)
  | poke (a v : Int)
  | read (a : Int)
  | write (a v : Int)
  /-- Clears the mark that an access has reached a device. -/
  | untouch
  /-- Attaches probes; the reader answers a fixed value. -/
  | attachProbe (a : Int) (reader : Option Int) (writer : Bool)
  | accesses
  | loadWords (a : Int) (words : List Int)
  | slice (start stop : Int)
  | item (n : Int)
  | size
  | hexdump (start length : Int)
  | save
  | restore
  | same

/-- What an operation answers. -/
inductive Answer where
  | none
  | symbols (t : SymbolTable)
  /-- Whether a step has touched a device. -/
  | touched (b : Bool)
  | steps (states : List (Bool × Registers))
  /-- A step of a copy: whether it touched a device, the machine that was copied, and whether the
  copy's memory is still the same. -/
  | stepCopy (touched : Bool) (old : Machine) (sameMemory : Bool)
  | run (steps : Nat) (halted : Bool) (trace : List String)
  | trace (lines : List String)
  | word (w : Word)
  | words (ws : List Word)
  | condition (c : Option Condition)
  | fields (r : Registers)
  | text (s : String)
  /-- How the machine and its registers describe themselves. -/
  | describe (machine registers : String)
  | accesses (list : List Access)
  | size (n : Nat)
  | same (memory registers symbols : Bool)

end LC3.Session
