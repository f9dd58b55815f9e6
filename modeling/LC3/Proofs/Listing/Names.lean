import LC3.CommandLine.Invocation
import LC3.Proofs.Listing.FixedPoint
import LC3.Proofs.Listing.Target
import Mathlib.Data.List.Find

/-!
# Names in listings

A listing shows names in two places, in front of a line and as targets of jumps, loads and stores,
and takes them from three tables: `cellNames`, where the first name for a cell stays, the same of
the table that is `reduced` to the names found so, and `addressNames`, where later names replace
earlier ones and the order is turned round. All three give the least name (`getElem?_cellNames`,
`nameOf?_reduced`, `getElem?_addressNames`), so that an address has one name in all views of a
program (`listing_names_alike`).
-/

namespace LC3

namespace SymbolTable

variable {t : SymbolTable} {name : String}

/-! ## Tables from bindings -/

/-- What is there first stays. -/
theorem getElem?_foldl_insertIfNew (address : String × Int → Int) (l : List (String × Int))
    (names : AddressNames) (a : Int) :
    (l.foldl (fun names b => names.insertIfNew (address b) b.1) names)[a]? =
      names[a]?.or ((l.find? fun b => address b = a).map (·.1)) := by
  induction l generalizing names with
  | nil => rw [List.foldl_nil, List.find?_nil, Option.map_none, Option.or_none]
  | cons b l ih =>
    rw [List.foldl_cons, ih, Std.ExtTreeMap.getElem?_insertIfNew, List.find?_cons]
    by_cases hb : address b = a
    · cases hn : names[a]? <;> simp [hb, hn, Std.ExtTreeMap.mem_iff_isSome_getElem?]
    · simp [hb]

/-- Turned round, what is there last stays. -/
theorem getElem?_foldl_insert_reverse (l : List (String × Int)) (a : Int) :
    (l.reverse.foldl (fun names b => names.insert b.2 b.1) (∅ : AddressNames))[a]? =
      (l.find? fun b => b.2 = a).map (·.1) := by
  rw [List.foldl_reverse]
  induction l with
  | nil => rfl
  | cons b l ih =>
    rw [List.foldr_cons, Std.ExtTreeMap.getElem?_insert, ih, List.find?_cons]
    by_cases hb : b.2 = a <;> simp [hb]

theorem getElem?_ofList {l : List (String × Int)} (hl : l.Pairwise fun b c => b.1 ≠ c.1) {a : Int} :
    (ofList l)[name]? = some a ↔ (name, a) ∈ l := by
  have hdistinct : l.Pairwise fun b c => ¬compare b.1 c.1 = .eq :=
    hl.imp fun hne heq => hne (Std.LawfulEqCmp.eq_of_compare heq)
  have hbound {v : Int} (hv : (name, v) ∈ l) : (ofList l)[name]? = some v := by
    rw [ofList, foldl_insert]
    exact Std.ExtTreeMap.getElem?_insertMany_list_of_mem Std.ReflCmp.compare_self hdistinct hv
  refine ⟨fun h => ?_, hbound⟩
  cases hn : (l.map Prod.fst).contains name with
  | true =>
    obtain ⟨⟨_, v⟩, hv, rfl⟩ := List.mem_map.mp (List.contains_iff_mem.mp hn)
    rw [hbound hv] at h
    cases h
    exact hv
  | false =>
    rw [ofList, foldl_insert, Std.ExtTreeMap.getElem?_insertMany_list_of_contains_eq_false hn,
      Std.ExtTreeMap.getElem?_empty] at h
    cases h

/-! ## Names by address -/

theorem getElem?_cellNames (t : SymbolTable) (w : Word) :
    t.cellNames[(w.toNat : Int)]? = t.nameOf? w := by
  rw [cellNames, getElem?_foldl_insertIfNew, Std.ExtTreeMap.getElem?_empty, Option.none_or, nameOf?]
  simp only [Int.ofNat_inj, BitVec.toNat_inj]

theorem mem_cellNames {a : Int} :
    (a, name) ∈ t.cellNames.toList ↔ ∃ w : Word, a = w.toNat ∧ t.nameOf? w = some name := by
  rw [Std.ExtTreeMap.mem_toList_iff_getElem?_eq_some]
  constructor
  · intro h
    have hfind := h
    rw [cellNames, getElem?_foldl_insertIfNew, Std.ExtTreeMap.getElem?_empty, Option.none_or,
      Option.map_eq_some_iff] at hfind
    obtain ⟨b, hb, -⟩ := hfind
    have ha : ((Word.ofInt b.2).toNat : Int) = a := by simpa using List.find?_some hb
    rw [← ha, getElem?_cellNames] at h
    exact ⟨_, ha.symm, h⟩
  · rintro ⟨w, rfl, hw⟩
    rw [getElem?_cellNames, hw]

theorem nameOf?_inj {v w : Word} (hv : t.nameOf? v = some name) (hw : t.nameOf? w = some name) :
    v = w := by
  obtain ⟨a, ha, rfl⟩ := getElem?_of_nameOf? hv
  obtain ⟨b, hb, rfl⟩ := getElem?_of_nameOf? hw
  rw [ha] at hb
  cases hb
  rfl

theorem getElem?_reduced {a : Int} :
    t.reduced[name]? = some a ↔ ∃ w : Word, a = w.toNat ∧ t.nameOf? w = some name := by
  have hdistinct : (t.cellNames.toList.map fun b => (b.2, b.1)).Pairwise fun b c => b.1 ≠ c.1 := by
    rw [List.pairwise_map]
    refine Std.ExtTreeMap.distinct_keys_toList.imp_of_mem fun {b c} hb hc hne heq => hne ?_
    obtain ⟨v, hv, hbv⟩ := mem_cellNames.mp hb
    obtain ⟨w, hw, hcw⟩ := mem_cellNames.mp hc
    change b.2 = c.2 at heq
    rw [heq] at hbv
    rw [hv, hw, nameOf?_inj hbv hcw]
    exact Std.ReflCmp.compare_self
  rw [reduced, getElem?_ofList hdistinct, List.mem_map, ← mem_cellNames]
  constructor
  · rintro ⟨b, hb, heq⟩
    cases heq
    exact hb
  · intro h
    exact ⟨_, h, rfl⟩

theorem nameOf?_reduced (t : SymbolTable) (w : Word) : t.reduced.nameOf? w = t.nameOf? w := by
  apply Option.ext
  intro name
  constructor
  · intro h
    obtain ⟨a, ha, rfl⟩ := getElem?_of_nameOf? h
    obtain ⟨w, rfl, hw⟩ := getElem?_reduced.mp ha
    rw [Word.ofInt_toNat, hw]
  · intro h
    refine nameOf?_eq_some.mpr
      ⟨w.toNat, getElem?_reduced.mpr ⟨w, rfl, h⟩, Word.ofInt_toNat w, fun other a ha hw => ?_⟩
    obtain ⟨v, rfl, hv⟩ := getElem?_reduced.mp ha
    rw [Word.ofInt_toNat] at hw
    rw [hw, h] at hv
    cases hv
    exact String.le_refl name

/-- All symbols are bound to addresses of cells. -/
def InMemory (t : SymbolTable) : Prop :=
  ∀ (name : String) (a : Int), t[name]? = some a → 0 ≤ a ∧ a < memorySize

theorem getElem?_addressNames (h : t.InMemory) (w : Word) :
    t.addressNames[(w.toNat : Int)]? = t.nameOf? w := by
  rw [addressNames, getElem?_foldl_insert_reverse, nameOf?]
  congr 1
  refine List.find?_congr fun b hb => decide_eq_decide.mpr ?_
  obtain ⟨h0, hlt⟩ := h b.1 b.2 (mem_bindings.mp hb)
  have hsize : (memorySize : Int) = 0x10000 := rfl
  rw [Word.ofInt_eq_iff, Int.emod_eq_of_lt h0 (hsize ▸ hlt)]

end SymbolTable

/-! ## One name in all views -/

namespace Listing

/-- The name under which a cell appears, or that it appears without any: in the table of the cells,
in the table that is reduced to it, in front of a line, and wherever the text of a word shows it as
a target. -/
structure AppearsAs (symbols : SymbolTable) (a : Word) (name? : Option String) : Prop where
  cell : symbols.cellNames[(a.toNat : Int)]? = name?
  reduced : symbols.reduced.cellNames[(a.toNat : Int)]? = name?
  label : CommandLine.lineLabel symbols.addressNames a = name?.getD ""
  target : ∀ {pc w : Word} {d : Int}, IsWritten w → (decode w).reach? = some d →
    Word.ofInt (pc.toNat + 1 + d) = a →
      word symbols (some pc) w = lead (decode w) ++ name?.getD ("#" ++ toString d)

theorem appearsAs_nameOf? {symbols : SymbolTable} (h : symbols.InMemory) (a : Word) :
    AppearsAs symbols a (symbols.nameOf? a) where
  cell := symbols.getElem?_cellNames a
  reduced := by rw [SymbolTable.getElem?_cellNames, SymbolTable.nameOf?_reduced]
  label := by rw [CommandLine.lineLabel, SymbolTable.getElem?_addressNames h]
  target := by
    rintro pc w d hw hd rfl
    rw [word_of_isWritten hw, instruction_eq_lead hd, shownTarget]

end Listing

namespace Program

/-- The text of a word of a listing does not depend on which names are left out. -/
theorem getElem?_listing (p : Program) (i : Nat) :
    p.listing[i]? = p.code[i]?.map fun w =>
      let a := Word.ofInt (p.orig + i)
      ⟨a, w, Listing.word p.symbols (some a) (Word.ofInt w)⟩ := by
  simp only [listing, Listing.word_congr p.symbols.nameOf?_reduced]
  rw [List.getElem?_map, List.getElem?_zipIdx, Nat.zero_add, Option.map_map]
  rfl

/-- Every word of a program is listed with its address and its text, for which it makes no difference
that the listing leaves the other names of the cells out, and it is printed behind the name of its
cell. All views of a program show a cell under the same name, the least one. -/
theorem listing_names_alike {p : Program} (h : p.symbols.InMemory) :
    (∀ i : Nat, p.listing[i]? = p.code[i]?.map fun w =>
      let a := Word.ofInt (p.orig + i)
      ⟨a, w, Listing.word p.symbols (some a) (Word.ofInt w)⟩) ∧
    (∀ i : Nat, (CommandLine.listingLines p)[i]? = p.code[i]?.map fun w =>
      let a := Word.ofInt (p.orig + i)
      "x" ++ Numeral.hex a.toNat ++ "  " ++ Numeral.hex w ++ "  " ++
        Listing.column 12 ((p.symbols.nameOf? a).getD "") ++
          Listing.word p.symbols (some a) (Word.ofInt w)) ∧
    ∀ a : Word, Listing.AppearsAs p.symbols a (p.symbols.nameOf? a) := by
  refine ⟨p.getElem?_listing, fun i => ?_, Listing.appearsAs_nameOf? h⟩
  rw [CommandLine.listingLines, List.getElem?_map, getElem?_listing, Option.map_map]
  simp only [Function.comp_def, CommandLine.listingLine, CommandLine.lineLabel,
    SymbolTable.getElem?_addressNames h]

/-- A load that reaches past the last address a cell with two names, from a cell with one. -/
theorem listing_names_alike_wrapped :
    let p : Program := ⟨0xFFFE, [0x2001, 0xF025],
      SymbolTable.ofList [("ZERO", 0), ("FIRST", 0), ("START", 0xFFFE)]⟩
    p.symbols.InMemory ∧
      p.listing[0]? = some ⟨0xFFFE, 0x2001, "LD R0, FIRST"⟩ ∧
      (CommandLine.listingLines p)[0]? = some "xFFFE  2001  START       LD R0, FIRST" ∧
      Listing.AppearsAs p.symbols 0 (some "FIRST") := by
  intro p
  have h : p.symbols.InMemory := by
    intro name a ha
    have hmem := SymbolTable.mem_bindings.mpr ha
    rw [show p.symbols.bindings = [("FIRST", 0), ("START", 0xFFFE), ("ZERO", 0)] by decide] at hmem
    simp only [List.mem_cons, Prod.mk.injEq, List.not_mem_nil, or_false] at hmem
    rcases hmem with ⟨-, rfl⟩ | ⟨-, rfl⟩ | ⟨-, rfl⟩ <;> decide
  obtain ⟨hlines, hprinted, hcells⟩ := listing_names_alike h
  have hname : p.symbols.nameOf? 0 = some "FIRST" := by decide
  refine ⟨h, (hlines 0).trans ?_, (hprinted 0).trans ?_, hname ▸ hcells 0⟩
  · have htext : Listing.word p.symbols (some 0xFFFE) 0x2001 = "LD R0, FIRST" := by decide
    exact congrArg (fun text => some (Listing.Line.mk 0xFFFE 0x2001 text)) htext
  · decide

end Program

end LC3
