import Std.Data.ExtTreeMap.Lemmas
import LC3.Word

/-!
# Symbol tables

A symbol table binds names to addresses. Names are ordered by code points. An address that several
names are bound to is shown under the least of them, which is found in different ways: `nameOf?`
searches the bindings, `cellNames` and `addressNames` list the names of all addresses at once.
-/

namespace LC3

abbrev SymbolTable := Std.ExtTreeMap String Int

/-- A name for each of some addresses. -/
abbrev AddressNames := Std.ExtTreeMap Int String

namespace SymbolTable

/-- A later binding of a name overrides an earlier one. -/
def ofList (bindings : List (String × Int)) : SymbolTable :=
  bindings.foldl (fun t b => t.insert b.1 b.2) ∅

/-- All bindings, by name. -/
def bindings (t : SymbolTable) : List (String × Int) :=
  t.toList

/-- The bindings of `t`, and those of `s` with names that are not in `t`. -/
def override (s t : SymbolTable) : SymbolTable :=
  t.bindings.foldl (fun u b => u.insert b.1 b.2) s

/-- The least name of a cell: its address is congruent to the symbol's modulo 2^16. -/
def nameOf? (t : SymbolTable) (a : Word) : Option String :=
  (t.bindings.find? fun b => Word.ofInt b.2 = a).map (·.1)

/-! ## Names by address -/

/-- The names of the cells. Of several names for a cell the first one stays. -/
def cellNames (t : SymbolTable) : AddressNames :=
  t.bindings.foldl (fun names b => names.insertIfNew (Word.ofInt b.2).toNat b.1) ∅

/-- The names of the cells alone, bound to their addresses. -/
def reduced (t : SymbolTable) : SymbolTable :=
  ofList (t.cellNames.toList.map fun b => (b.2, b.1))

/-- The names of the addresses that are bound. The names are met from the last one on, and each
replaces the one before. -/
def addressNames (t : SymbolTable) : AddressNames :=
  t.bindings.reverse.foldl (fun names b => names.insert b.2 b.1) ∅

end SymbolTable

end LC3
