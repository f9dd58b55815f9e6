import LC3.Proofs.Assembly.Grammar
import LC3.Proofs.Listing.Rows
import Mathlib.Data.List.Forall2

/-!
# Source texts are assembled again

The source text of an image is split into its rows, which are laid out and encoded again
(`program_source`). `assemble_source_iff` is the outcome: never another image, and an image unless
it is so long that the target of some word lies outside memory while a label stands at the cell
with the same address modulo 2^16. `not_wraps_of_size` bounds how long that is.
-/

namespace LC3.Program

open Assembly

/-- The origin and the words are machine words, and the image fits into memory. -/
structure IsImage (p : Program) : Prop where
  orig_nonneg : 0 ≤ p.orig
  orig_lt : p.orig < memorySize
  word : ∀ w ∈ p.code, 0 ≤ w ∧ w < 0x10000
  fits : p.orig + p.size ≤ memorySize

/-- Some word shows a label for a target that lies outside memory. -/
def Wraps (p : Program) : Prop :=
  ∃ (i : Nat) (w d : Int), p.code[i]? = some w ∧ (decode (Word.ofInt w)).reach? = some d ∧
    Listing.Wraps p.labels (p.orig + i + 1 + d)

/-! ## Labels -/

theorem getElem?_labels {p : Program} {name : String} {v : Int} :
    p.labels[name]? = some v ↔ p.symbols[name]? = some v ∧ p.hasLabel name v = true :=
  SymbolTable.getElem?_filter

theorem hasLabel_iff {p : Program} {name : String} {v : Int} :
    p.hasLabel name v = true ↔
      (p.orig ≤ v ∧ v < p.orig + p.size) ∧ isLabelName name = true ∧ isCommand name = false := by
  simp [hasLabel, and_assoc]

variable {p : Program}

theorem areLabels (h : p.IsImage) : Listing.AreLabels p.labels := by
  have hmem {name : String} {v : Int} (hv : p.labels[name]? = some v) :=
    hasLabel_iff.mp (getElem?_labels.mp hv).2
  refine ⟨fun name v hv => (hmem hv).2.1, fun name v hv => (hmem hv).2.2, fun name v hv => ?_⟩
  have hr := (hmem hv).1
  have h0 := h.orig_nonneg
  have h1 := h.fits
  omega

/-! ## Texts -/

/-- The token lines of the source text. -/
def sourceTokens (p : Program) : List (List String) :=
  [".ORIG", "x" ++ Numeral.hex p.orig] ::
    (Listing.rows p.labels p.orig p.code ++ [[".END"], []])

theorem shows_origin (h : 0 ≤ p.orig) (width : Nat) :
    Shows (Listing.column width "" ++ ".ORIG x" ++ Numeral.hex p.orig)
      [".ORIG", "x" ++ Numeral.hex p.orig] := by
  have hx : Plain ("x" ++ Numeral.hex p.orig) := by
    rw [← Int.toNat_of_nonneg h, ← Numeral.marked_four]
    exact Listing.plain_marked 4 p.orig.toNat
  have ht : ".ORIG x" ++ Numeral.hex p.orig = ".ORIG" ++ (" " ++ ("x" ++ Numeral.hex p.orig)) := by
    rw [← String.toList_inj]
    simp
  rw [String.append_assoc, ht]
  exact Listing.shows_column_empty width
    ((Listing.shows_name hx).blank.word (show Plain ".ORIG" by decide) (by simp +decide))

theorem shows_rows (h : p.IsImage) (k : Nat) (ws : List Int) (hk : k + ws.length ≤ p.size) :
    List.Forall₂ Shows
      ((ws.zipIdx k).map fun (w, i) =>
        let a := p.orig + (i : Nat)
        Listing.column (labelWidth p.labels) (labelAt p.labels a) ++
          Listing.word p.labels (some (Word.ofInt a)) (Word.ofInt w))
      (Listing.rows p.labels (p.orig + k) ws) := by
  induction ws generalizing k with
  | nil => exact .nil
  | cons w ws ih =>
    rw [List.length_cons] at hk
    have h0 := h.orig_nonneg
    have h1 := h.fits
    have hr := ih (k + 1) (by omega)
    rw [Nat.cast_add, Nat.cast_one, ← Int.add_assoc] at hr
    exact .cons (Listing.shows_row (areLabels h) (by omega) (by omega) w) hr

theorem tokenize_source (h : p.IsImage) : tokenize p.source = p.sourceTokens := by
  have hrows := shows_rows h 0 p.code (by simp [size])
  have hend : Shows (Listing.column (labelWidth p.labels) "" ++ ".END") [".END"] :=
    Listing.shows_column_empty _ (Listing.shows_name (by decide))
  rw [Nat.cast_zero, Int.add_zero] at hrows
  have hall := List.Forall₂.cons (shows_origin h.orig_nonneg (labelWidth p.labels))
    (List.rel_append hrows (.cons hend .nil))
  exact (tokenize_lines (by simp) hall).trans (by simp [sourceTokens])

/-! ## Assembling -/

theorem findOrigin_source (h : p.IsImage) : findOrigin p.sourceTokens = .ok ⟨p.orig, 1⟩ := by
  have hv : Literal.value? ("x" ++ Numeral.hex p.orig) = .ok (some p.orig) := by
    rw [← Int.toNat_of_nonneg h.orig_nonneg, ← Numeral.marked_four, Literal.value?_marked]
  have ho : isOrigin ".ORIG" = true := by decide
  have ha : originAddress [".ORIG", "x" ++ Numeral.hex p.orig] = .ok p.orig := by
    have hr : 0 ≤ p.orig ∧ p.orig < memorySize := ⟨h.orig_nonneg, h.orig_lt⟩
    simp [originAddress, ho, hv, hr, orFault, bind, Except.bind, pure, Except.pure]
  simp [findOrigin, sourceTokens, List.findIdx?_cons, ha, atLine, bind, Except.bind, pure,
    Except.pure]

theorem bodyFrom_source (h : p.IsImage) :
    bodyFrom p.sourceTokens 1 = .ok ⟨Listing.rowStatements p.labels 2 p.orig p.code, true⟩ := by
  have hend : statements (2 + p.code.length) [[".END"], []] = .ok ⟨[], true⟩ := by
    rw [statements, if_pos (by decide)]
  refine (Listing.statements_rows (areLabels h) 2 p.orig p.code hend).trans ?_
  rw [List.append_nil]

theorem symbols_of_placeAll (h : p.IsImage) {line : Nat} {table : SymbolTable} {stop : Int}
    (hp : placeAll ∅ p.orig (Listing.rowStatements p.labels line p.orig p.code) =
      .ok (table, stop)) : table = p.labels.primary := by
  have hl := areLabels h
  apply Std.ExtTreeMap.ext_getElem?
  intro x
  apply Option.ext
  intro v
  have h0 := h.orig_nonneg
  have hfits := h.fits
  rw [getElem?_placeAll hp, SymbolTable.getElem?_primary]
  simp only [Listing.labelAt_rowStatements]
  constructor
  · rintro (hx | ⟨n, ⟨hlt, hn⟩, rfl⟩)
    · simp at hx
    · unfold size at hfits
      exact ⟨Listing.getElem?_of_nameOf? hl (by omega) (by omega) hn, hn⟩
  · rintro ⟨hv, hn⟩
    have hr := (hasLabel_iff.mp (getElem?_labels.mp hv).2).1
    obtain ⟨n, rfl⟩ := Int.le.dest hr.1
    unfold size at hr
    exact .inr ⟨n, ⟨by omega, hn⟩, rfl⟩

theorem layout_source (h : p.IsImage) :
    layout p.sourceTokens p.orig 1 = .ok ⟨p.labels.primary, p.size⟩ := by
  obtain ⟨table, hp⟩ := Listing.placeAll_rows (areLabels h) 2 h.orig_nonneg p.code h.fits (t := ∅)
    (by simp)
  obtain rfl := symbols_of_placeAll h hp
  have hsize : p.orig + p.code.length - p.orig = p.size := by
    rw [size]
    omega
  simp [layout, bodyFrom_source h, hp, hsize, bind, Except.bind, pure, Except.pure]

theorem resolves_primary (h : p.IsImage) : Listing.Resolves p.labels.primary p.labels :=
  ⟨areLabels h, fun _ _ hv hn => SymbolTable.getElem?_primary.mpr ⟨hv, hn⟩⟩

/-- The source text is a program if no word wraps, and then it is the same image. -/
theorem program_source (h : p.IsImage) :
    ∃ table, ∀ q, program p.sourceTokens = .ok q ↔
      q = ⟨p.orig, p.code, table⟩ ∧ ¬p.Wraps := by
  have hl := resolves_primary h
  have hcode : machineCode p.sourceTokens p.labels.primary p.orig 1 =
      encodeAll p.labels.primary p.orig _ := machineCode_eq (bodyFrom_source h) rfl
  have hback : (p.code.map Word.ofInt).map (fun w => (w.toNat : Int)) = p.code := by
    rw [List.map_map]
    refine (List.map_congr_left fun w hw => ?_).trans (List.map_id _)
    obtain ⟨h0, hlt⟩ := h.word w hw
    exact Word.toNat_ofInt_of_range h0 (by omega)
  refine ⟨p.labels.primary, fun q => ?_⟩
  simp only [program, bind_eq_ok, pure_eq_ok, findOrigin_source h, Except.ok.injEq,
    exists_eq_left', layout_source h, hcode, Listing.encodeAll_rows hl]
  constructor
  · rintro ⟨us, ⟨rfl, hw⟩, rfl⟩
    refine ⟨by rw [hback], ?_⟩
    rintro ⟨i, w, d, hi, hd, hwrap⟩
    exact hw i w hi d hd hwrap
  · rintro ⟨rfl, hw⟩
    refine ⟨_, ⟨rfl, fun i w hi d hd hwrap => hw ⟨i, w, d, hi, hd, hwrap⟩⟩, ?_⟩
    rw [hback]

theorem not_wraps_of_size (hp : p.size ≤ 0xFC00) : ¬p.Wraps := by
  rintro ⟨i, w, d, hi, hd, name, v, hv, he, hne⟩
  have hr := (hasLabel_iff.mp (getElem?_labels.mp hv).2).1
  have hd := Instruction.reach?_bounds hd
  have hi : i < p.size := (List.getElem?_eq_some_iff.mp hi).1
  exact hne (Listing.ofInt_inj_of_near he (by omega) (by omega))

/-- Assembling the source text of an image never gives another image. It succeeds exactly if no
word shows a label for a target outside memory. -/
theorem assemble_source_iff (h : p.IsImage) :
    ((∃ q, assemble p.source = .ok (.success q)) ↔ ¬p.Wraps) ∧
      ∀ q, assemble p.source = .ok (.success q) → q.orig = p.orig ∧ q.code = p.code := by
  obtain ⟨table, hprogram⟩ := program_source h
  simp only [assemble_eq_success, tokenize_source h, hprogram]
  constructor
  · constructor
    · rintro ⟨q, -, hw⟩
      exact hw
    · intro hw
      exact ⟨_, rfl, hw⟩
  · rintro q ⟨rfl, -⟩
    exact ⟨rfl, rfl⟩

/-- Names that cannot be written, a name for no cell, and two names for one cell. -/
theorem assemble_source_iff_names :
    let p : Program := ⟨0x3000, [0x0401, 0xF025, 5, 0xD000], SymbolTable.ofList
      [("DONE", 0x3002), ("STOP", 0x3002), ("add", 0x3001), ("x1", 0x3001), ("far", -1)]⟩
    p.IsImage ∧ ∃ q, assemble p.source = .ok (.success q) ∧ q.orig = p.orig ∧ q.code = p.code := by
  intro p
  have h : p.IsImage := ⟨by decide, by decide, by decide, by decide⟩
  obtain ⟨hiff, hsame⟩ := assemble_source_iff h
  obtain ⟨q, hq⟩ := hiff.mpr (not_wraps_of_size (by decide))
  exact ⟨h, q, hq, hsame q hq⟩

/-- A call at the end of an image that reaches to its beginning shows the label there, and the text
cannot be assembled again. -/
theorem assemble_source_wraps :
    let p : Program := ⟨0, List.replicate 0xFC00 0 ++ [0x4BFF], SymbolTable.ofList [("A", 0)]⟩
    p.IsImage ∧ ¬∃ q, assemble p.source = .ok (.success q) := by
  intro p
  have hlen : (List.replicate 0xFC00 (0 : Int)).length = 0xFC00 := List.length_replicate
  have hsize : p.size = 0xFC01 := by rw [size, List.length_append, hlen, List.length_singleton]
  have hlast : p.code[0xFC00]? = some 0x4BFF := by
    rw [List.getElem?_append_right (Nat.le_of_eq hlen), hlen]
    rfl
  have h : p.IsImage := by
    refine ⟨by decide, by decide, fun w hw => ?_, by rw [hsize]; decide⟩
    rcases List.mem_append.mp hw with hw | hw
    · rw [List.eq_of_mem_replicate hw]
      decide
    · rw [List.mem_singleton.mp hw]
      decide
  have hlabel : p.labels["A"]? = some 0 := by
    refine getElem?_labels.mpr ⟨by decide, hasLabel_iff.mpr ⟨⟨by decide, ?_⟩, by decide, by decide⟩⟩
    rw [hsize]
    decide
  have hw : p.Wraps :=
    ⟨0xFC00, 0x4BFF, 1023, hlast, by decide, "A", 0, hlabel, by decide, by decide⟩
  refine ⟨h, ?_⟩
  obtain ⟨table, hprogram⟩ := program_source h
  rintro ⟨q, hq⟩
  rw [assemble_eq_success, tokenize_source h, hprogram] at hq
  exact hq.2 hw

end LC3.Program
