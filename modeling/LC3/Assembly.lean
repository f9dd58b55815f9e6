import LC3.Assembly.Encoding
import LC3.Assembly.Origin
import LC3.Assembly.Token
import LC3.Outcome

/-!
# Assembling

`assemble` takes a source text to a program: its tokens are laid out from the origin on, and every
command is then encoded with all labels known. The first diagnostic ends it.
-/

namespace LC3.Assembly

/-- The program that token lines stand for. -/
def program (lines : List (List String)) : Except Diagnostic Program := do
  let origin ← findOrigin lines
  let layout ← layout lines origin.address origin.start
  let code ← machineCode lines layout.symbols origin.address origin.start
  return {
    orig := origin.address
    code := code.map fun w => (w.toNat : Int)
    symbols := layout.symbols }

/-- Assembles a source text. -/
def assemble (text : String) : Except Fault Outcome :=
  match program (tokenize text) with
  | .ok p => .ok (.success p)
  | .error d => return .failure (← d.message)

end LC3.Assembly
