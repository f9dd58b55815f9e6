import LC3.Proofs.Listing.Source

/-!
# Source texts are fixed points

A source text shows one label for each cell that has any, the least of those that can be written.
Assembling the text binds exactly these labels (`getElem?_primary_labels`), and they determine the
text: the program that comes out has the same source text (`source_primary`).
-/

namespace LC3

namespace Listing

section

variable {s t : SymbolTable}

/-- Operands show symbols only under the names of their cells. -/
theorem target_congr (h : ∀ w, s.nameOf? w = t.nameOf? w) (address : Option Word) {n : Nat}
    (offset : BitVec n) : target s address offset = target t address offset := by
  unfold target
  simp only [h]

theorem word_congr (h : ∀ w, s.nameOf? w = t.nameOf? w) (address : Option Word) (w : Word) :
    word s address w = word t address w := by
  have htarget {n : Nat} (offset : BitVec n) := target_congr h address offset
  have hinstruction (i : Instruction) : instruction s address i = instruction t address i := by
    unfold instruction
    simp only [htarget]
  unfold word
  simp only [hinstruction]

end

end Listing

namespace Program

open Assembly

theorem labelAt_congr {s t : SymbolTable} (h : ∀ w, s.nameOf? w = t.nameOf? w) (a : Int) :
    labelAt s a = labelAt t a := by
  unfold labelAt
  rw [h]

theorem labelWidth_primary (t : SymbolTable) : labelWidth t.primary = labelWidth t := by
  have hb : t.primary.bindings =
      t.bindings.filter fun b => t.nameOf? (Word.ofInt b.2) = some b.1 :=
    Std.ExtTreeMap.toList_filter
  unfold labelWidth
  simp only [SymbolTable.nameOf?_primary, hb, List.filter_filter, Bool.and_self]

variable {p q : Program}

/-- The program binds the name to the address of a cell, and of the names for the cell that can be
written it is the least. -/
structure BindsLeast (p : Program) (name : String) (a : Int) : Prop where
  inside : p.orig ≤ a ∧ a < p.orig + p.size
  bound : p.symbols[name]? = some a
  isLabelName : isLabelName name = true
  isCommand : isCommand name = false
  least : ∀ name', p.symbols[name']? = some a → Assembly.isLabelName name' = true →
    Assembly.isCommand name' = false → name ≤ name'

theorem getElem?_primary_labels (h : p.IsImage) {name : String} {a : Int} :
    p.labels.primary[name]? = some a ↔ p.BindsLeast name a := by
  have hl := areLabels h
  rw [SymbolTable.getElem?_primary, SymbolTable.nameOf?_eq_some]
  constructor
  · rintro ⟨ha, -, -, -, hle⟩
    obtain ⟨hs, hlabel⟩ := getElem?_labels.mp ha
    obtain ⟨hin, hn, hc⟩ := hasLabel_iff.mp hlabel
    refine ⟨hin, hs, hn, hc, fun name' hs' hn' hc' => ?_⟩
    exact hle name' a (getElem?_labels.mpr ⟨hs', hasLabel_iff.mpr ⟨hin, hn', hc'⟩⟩) rfl
  · intro hb
    have ha := getElem?_labels.mpr
      ⟨hb.bound, hasLabel_iff.mpr ⟨hb.inside, hb.isLabelName, hb.isCommand⟩⟩
    refine ⟨ha, a, ha, rfl, fun y u hy hu => ?_⟩
    -- Both addresses are those of cells, so that they are equal and not just congruent.
    have hra := hl.range name a ha
    have hru := hl.range y u hy
    have hm : (memorySize : Int) = 0x10000 := rfl
    obtain rfl : u = a := Listing.ofInt_inj_of_near hu (by omega) (by omega)
    obtain ⟨hs, hlabel⟩ := getElem?_labels.mp hy
    obtain ⟨-, hn, hc⟩ := hasLabel_iff.mp hlabel
    exact hb.least y hs hn hc

theorem symbols_of_program (h : p.IsImage) (hq : program p.sourceTokens = .ok q) :
    q.symbols = p.labels.primary := by
  simp only [program, bind_eq_ok, pure_eq_ok, findOrigin_source h, Except.ok.injEq,
    exists_eq_left', layout_source h] at hq
  obtain ⟨code, -, rfl⟩ := hq
  rfl

theorem labels_primary (ho : q.orig = p.orig) (hc : q.code = p.code)
    (hs : q.symbols = p.labels.primary) : q.labels = p.labels.primary := by
  have hsame (name : String) (v : Int) : q.hasLabel name v = p.hasLabel name v := by
    unfold hasLabel size
    rw [ho, hc]
  apply Std.ExtTreeMap.ext_getElem?
  intro name
  apply Option.ext
  intro v
  rw [getElem?_labels, hs, hsame]
  constructor
  · exact And.left
  · intro hv
    exact ⟨hv, (getElem?_labels.mp (SymbolTable.getElem?_primary.mp hv).1).2⟩

/-- A program with the same words and the shown labels has the same source text. -/
theorem source_primary (ho : q.orig = p.orig) (hc : q.code = p.code)
    (hs : q.symbols = p.labels.primary) : q.source = p.source := by
  have hname := SymbolTable.nameOf?_primary p.labels
  unfold source
  simp only [labels_primary ho hc hs, ho, hc, labelWidth_primary, labelAt_congr hname,
    Listing.word_congr hname]

/-- The source text of an image of at most `xFC00` words is assembled to the same image, with the
least name that can be written for each cell as its only symbols, and the outcome has the same
source text again. -/
theorem source_of_assemble (h : p.IsImage) (hsize : p.size ≤ 0xFC00) :
    ∃ q, assemble p.source = .ok (.success q) ∧ q.orig = p.orig ∧ q.code = p.code ∧
      (∀ name a, q.symbols[name]? = some a ↔ p.BindsLeast name a) ∧ q.source = p.source := by
  obtain ⟨table, hprogram⟩ := program_source h
  have hq := (hprogram ⟨p.orig, p.code, table⟩).mpr ⟨rfl, not_wraps_of_size hsize⟩
  have hs := symbols_of_program h hq
  refine ⟨⟨p.orig, p.code, table⟩, ?_, rfl, rfl, fun name a => ?_, source_primary rfl rfl hs⟩
  · rw [assemble_eq_success, tokenize_source h]
    exact hq
  · rw [hs]
    exact getElem?_primary_labels h

/-- Three names for one cell, of which the least cannot be written, and a name for no cell. -/
theorem source_of_assemble_names :
    let p : Program := ⟨0x3000, [0x0401, 0xF025, 5, 0xD000], SymbolTable.ofList
      [("STOP", 0x3002), ("DONE", 0x3002), ("ADD", 0x3002), ("far", -1)]⟩
    p.IsImage ∧ p.size ≤ 0xFC00 ∧ ∃ q, assemble p.source = .ok (.success q) ∧
      q.symbols["DONE"]? = some 0x3002 ∧ q.symbols["STOP"]? = none ∧ q.source = p.source := by
  intro p
  have h : p.IsImage := ⟨by decide, by decide, by decide, by decide⟩
  have hbindings : p.symbols.bindings =
      [("ADD", 0x3002), ("DONE", 0x3002), ("STOP", 0x3002), ("far", -1)] := by decide
  obtain ⟨q, hq, -, -, hsymbols, hsource⟩ := source_of_assemble h (by decide)
  refine ⟨h, by decide, q, hq, ?_, Option.eq_none_iff_forall_ne_some.mpr fun a ha => ?_, hsource⟩
  · refine (hsymbols _ _).mpr ⟨by decide, by decide, by decide, by decide +kernel, ?_⟩
    intro name hname hn hc
    have hmem := SymbolTable.mem_bindings.mpr hname
    rw [hbindings] at hmem
    simp only [List.mem_cons, Prod.mk.injEq, List.not_mem_nil, or_false] at hmem
    rcases hmem with ⟨rfl, -⟩ | ⟨rfl, -⟩ | ⟨rfl, -⟩ | ⟨-, h⟩
    · exact absurd hc (by decide +kernel)
    · decide
    · decide
    · cases h
  · have hs := (hsymbols _ _).mp ha
    have hstop : p.symbols["STOP"]? = some 0x3002 := by decide
    obtain rfl := Option.some.inj (hs.bound.symm.trans hstop)
    exact absurd (hs.least "DONE" (by decide) (by decide) (by decide +kernel)) (by decide)

end Program

end LC3
