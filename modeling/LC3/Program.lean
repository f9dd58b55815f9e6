import LC3.Numeral
import LC3.SymbolTable

/-!
# Programs

A program is an origin, the words from there on, and a symbol table. Its integers are wrapped to
words only where it is loaded or shown, so a program may hold any integers.
-/

namespace LC3

structure Program where
  orig : Int
  code : List Int
  symbols : SymbolTable

namespace Program

/-- A program of machine words. -/
def ofWords (orig : Word) (code : List Word) (symbols : SymbolTable) : Program where
  orig := orig.toNat
  code := code.map fun w => (w.toNat : Int)
  symbols := symbols

/-- The number of words. -/
def size (p : Program) : Nat :=
  p.code.length

/-- The symbols with their addresses as text, ordered by address and then by name. -/
def symbolRows (p : Program) : List (String × String) :=
  let byAddress := p.symbols.bindings.mergeSort fun b c => b.2 ≤ c.2
  byAddress.map fun (name, a) => ("x" ++ Numeral.hex a, name)

/-- One line for each symbol, ordered by address and then by name. -/
def symbolLines (p : Program) : List String :=
  p.symbolRows.map fun (a, name) => a ++ "  " ++ name

end Program

end LC3
