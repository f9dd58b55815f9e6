import LC3.Machine
import LC3.Proofs.Assembly.Grammar
import LC3.Proofs.Image.Object
import LC3.Proofs.Listing.Source
import LC3.Proofs.Memory

/-!
# Assembled images

What is assembled is an image: it lies in memory, it is made of words, and its labels stand from its
origin to its end. For that reason it can be written as an object image, and loading it puts every
word at its own address (`LoadsInPlace`).
-/

namespace LC3

/-! ## Labels -/

/-- The labels of program lines stand where the lines do, the last of them perhaps behind all
words. -/
theorem Assembly.ProgramLines.labels {symbols : SymbolTable} {a : Int} {lines : List (List String)}
    {bs : List (String × Int)} {ws : List Word} (h : ProgramLines symbols a lines bs ws) :
    ∀ b ∈ bs, IsLabel b.1 ∧ a ≤ b.2 ∧ b.2 ≤ a + ws.length := by
  induction h with
  | stop => simp
  | labelledStop hl _ => simpa using hl
  | empty _ ih => exact ih
  | command _ _ ih =>
    intro b hb
    obtain ⟨hn, hlow, hhigh⟩ := ih b hb
    exact ⟨hn, by omega, by simp only [List.length_append]; omega⟩
  | label hl _ ih =>
    exact List.forall_mem_cons.mpr ⟨⟨hl, by simp, by simp⟩, ih⟩
  | labelledCommand hl _ _ ih =>
    refine List.forall_mem_cons.mpr ⟨⟨hl, by simp, by simp; omega⟩, fun b hb => ?_⟩
    obtain ⟨hn, hlow, hhigh⟩ := ih b hb
    exact ⟨hn, by omega, by simp only [List.length_append]; omega⟩

namespace Program

variable {p : Program}

/-- The symbols are labels of the image, of which one may stand right behind the last word. -/
def LabelsInside (p : Program) : Prop :=
  ∀ name a, p.symbols[name]? = some a →
    Assembly.IsLabel name ∧ p.orig ≤ a ∧ a ≤ min (p.orig + p.size) 0xFFFF

theorem isImage_of_means {lines : List (List String)} (h : Assembly.Means lines p) : p.IsImage := by
  obtain ⟨-, -, -, hr, -, -, -, hw⟩ := h
  have hsize : (memorySize : Int) = 0x10000 := rfl
  refine ⟨hr.1, by simp only; omega, fun w hw => ?_, by simpa [size, hsize] using hw⟩
  obtain ⟨v, -, rfl⟩ := List.mem_map.mp hw
  have := v.isLt
  omega

theorem labelsInside_of_means {lines : List (List String)} (h : Assembly.Means lines p) :
    p.LabelsInside := by
  obtain ⟨-, -, -, -, h, hs, hl, -⟩ := h
  intro name a ha
  have hb := (hs name a).mp ha
  obtain ⟨hn, hlow, hhigh⟩ := h.labels _ hb
  have hmax := hl _ hb
  refine ⟨hn, hlow, le_min ?_ hmax⟩
  simpa [size] using hhigh

/-! ## Object images -/

theorem IsImage.write_object (h : p.IsImage) :
    Image.write p .obj = .ok (.bytes ((Image.wordsOf p).flatMap Image.bytesOf)) := by
  have hrange : ∀ w ∈ Image.wordsOf p, 0 ≤ w ∧ w ≤ 0xFFFF := by
    have hsize : (memorySize : Int) = 0x10000 := rfl
    refine List.forall_mem_cons.mpr ⟨⟨h.orig_nonneg, ?_⟩, fun w hw => ⟨(h.word w hw).1, ?_⟩⟩
    · have := h.orig_lt
      omega
    · have := (h.word w hw).2
      omega
  exact Image.write_obj_eq_ok.mpr (Image.objectBytes_eq_ok.mpr ⟨hrange, rfl⟩)

/-! ## Loading -/

/-- A machine that loads the program holds every word at its own address, counted from the origin on
without wrapping, and goes on there; all other cells are as they were. -/
structure LoadsInPlace (p : Program) (m : Machine) : Prop where
  word : ∀ (i : Nat) (w : Int), p.code[i]? = some w →
    ∃ a : Word, (a.toNat : Int) = p.orig + i ∧ (((m.load p).memory.peek a).toNat : Int) = w
  rest : ∀ a : Word, (a.toNat : Int) < p.orig ∨ p.orig + p.size ≤ a.toNat →
    (m.load p).memory.peek a = m.memory.peek a
  pc : p.code ≠ [] → ((m.load p).registers.pc.toNat : Int) = p.orig

theorem IsImage.loadsInPlace (h : p.IsImage) (m : Machine) : p.LoadsInPlace m := by
  have hsize : (memorySize : Int) = 0x10000 := rfl
  have h0 := h.orig_nonneg
  have hlt := h.orig_lt
  have hfits : p.orig + p.code.length ≤ 0x10000 := h.fits
  have horig : ((Word.ofInt p.orig).toNat : Int) = p.orig := Word.toNat_ofInt_of_range h0 (by omega)
  have hpeek (a : Word) : (m.load p).memory.peek a =
      (p.code.map Word.ofInt)[(a - Word.ofInt p.orig).toNat]?.getD (m.memory.peek a) :=
    Memory.peek_load (by rw [List.length_map]; omega) m.memory (Word.ofInt p.orig) a
  constructor
  · intro i w hw
    have hi := (List.getElem?_eq_some_iff.mp hw).1
    obtain ⟨hw0, hwlt⟩ := h.word w (List.mem_of_getElem? hw)
    have ha : ((Word.ofInt (p.orig + i)).toNat : Int) = p.orig + i :=
      Word.toNat_ofInt_of_range (by omega) (by omega)
    have hsub : (Word.ofInt (p.orig + i) - Word.ofInt p.orig).toNat = i := by
      rw [BitVec.toNat_sub]
      omega
    refine ⟨Word.ofInt (p.orig + i), ha, ?_⟩
    rw [hpeek, hsub, List.getElem?_map, hw]
    exact Word.toNat_ofInt_of_range hw0 (by omega)
  · intro a ha
    have hsub : p.code.length ≤ (a - Word.ofInt p.orig).toNat := by
      unfold size at ha
      rw [BitVec.toNat_sub]
      omega
    rw [hpeek, List.getElem?_eq_none (by rwa [List.length_map])]
    rfl
  · intro hne
    have hpc : (m.load p).registers.pc = Word.ofInt p.orig := by
      rw [Machine.load, if_neg (by simpa using hne)]
    rw [hpc, horig]

/-- What is assembled lies in memory, with all words and labels in range. It has an object image,
and no machine wraps around the end of memory to load it. -/
theorem image_of_assemble {text : String} (h : Assembly.assemble text = .ok (.success p)) :
    p.IsImage ∧ p.LabelsInside ∧ (∃ bs, Image.write p .obj = .ok (.bytes bs)) ∧
      ∀ m, p.LoadsInPlace m := by
  rw [Assembly.assemble_eq_success, Assembly.program_iff] at h
  have hp := isImage_of_means h
  exact ⟨hp, labelsInside_of_means h, ⟨_, hp.write_object⟩, hp.loadsInPlace⟩

/-- A character that is no word, and a label at the last address, behind all words. -/
theorem image_of_assemble_last :
    let text := ".ORIG xFFFD\nFACE .stringz \"😀\"\nLAST .end"
    let p : Program :=
      ⟨0xFFFD, [0xF600, 0], SymbolTable.ofList [("FACE", 0xFFFD), ("LAST", 0xFFFF)]⟩
    Assembly.assemble text = .ok (.success p) ∧ p.IsImage ∧ p.LabelsInside ∧
      Image.write p .obj = .ok (.bytes [0xFF, 0xFD, 0xF6, 0, 0, 0]) ∧
      p.LoadsInPlace .powerOn := by
  intro text p
  have htokens : Assembly.tokenize text =
      [[".ORIG", "xFFFD"], ["FACE", ".stringz", "\"😀\""], ["LAST", ".end"]] := by
    decide +kernel
  have hp : Assembly.assemble text = .ok (.success p) := by
    rw [Assembly.assemble_eq_success, htokens]
    rfl
  obtain ⟨himage, hlabels, -, hloads⟩ := image_of_assemble hp
  have hbytes : Image.write p .obj = .ok (.bytes [0xFF, 0xFD, 0xF6, 0, 0, 0]) := by decide
  exact ⟨hp, himage, hlabels, hbytes, hloads _⟩

end Program

end LC3
