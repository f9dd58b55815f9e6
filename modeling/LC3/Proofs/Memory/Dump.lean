import LC3.Memory
import LC3.Proofs.Image.Digits
import LC3.Proofs.Memory
import Mathlib.Data.List.Forall2

/-!
# Dumps

What a dump of memory shows. `DumpRow` says how a row reads: an address, the words of eight cells
from there on, and one character for each of them (`ShownAs`). `hexdump_rows` is that a dump has as
many rows as cover the cells asked for, and that each shows the cells at its address, also where
addresses wrap around. A word is shown as a character only if the whole word is its code, so that a
character in the low byte is not shown if the high byte is not zero (`ShownAs.lowByte`).
-/

namespace LC3.Memory

open Numeral

/-! ## Fields of a row -/

/-- The four capital hexadecimal digits of a word. -/
structure HexOf (s : List Char) (w : Word) : Prop where
  length : s.length = 4
  writes : Writes 16 s w.toNat
  capital : ∀ c ∈ s, ('0' ≤ c ∧ c ≤ '9') ∨ ('A' ≤ c ∧ c ≤ 'F')

/-- The character shows a code: as itself if it is printable, and as a full stop otherwise. -/
def ShownAs (code : Nat) (c : Char) : Prop :=
  0x20 ≤ code ∧ code ≤ 0x7E ∧ c.toNat = code ∨ ¬(0x20 ≤ code ∧ code ≤ 0x7E) ∧ c = '.'

/-- A row about the eight cells from `n` on. Addresses count modulo 2^16. The words have a blank
before each of them, and all three columns are two blanks apart. -/
inductive DumpRow (m : Memory) (n : Int) : List Char → Prop where
  | intro {address text : List Char} {words : List (List Char)} (ha : HexOf address (Word.ofInt n))
      (hw : List.Forall₂ (fun (i : Nat) word => HexOf word (m.peek (Word.ofInt (n + i))))
        (List.range 8) words)
      (ht : List.Forall₂ (fun (i : Nat) c => ShownAs (m.peek (Word.ofInt (n + i))).toNat c)
        (List.range 8) text) :
      DumpRow m n ('x' :: address ++ ' ' :: words.flatMap (' ' :: ·) ++ ' ' :: ' ' :: text)

theorem hexOf_hex (w : Word) : HexOf (Numeral.hex w.toNat).toList w := by
  have hlt : w.toNat < 16 ^ 4 := w.isLt
  have hdigits : (Numeral.hex w.toNat).toList = List.leftpad 4 '0' (digits 16 w.toNat) := by
    rw [Numeral.hex, padded, if_neg (by omega), Int.natAbs_natCast, String.toList_ofList]
  have hlast := leftpad_digits (by decide : 1 < 16) (by decide : 0 < 4) hlt
  refine ⟨?_, ?_, ?_⟩
  · rw [hdigits, hlast, length_lastDigits]
  · rw [hdigits]
    exact (writes_digits 16 (by decide) (by decide) w.toNat).zeros (by decide) _
  · intro c hc
    rw [hdigits, hlast] at hc
    obtain ⟨d, hd, rfl⟩ := mem_lastDigits (by decide) hc
    interval_cases d <;> decide

theorem toNat_ofNat_of_le {n : Nat} (h : n ≤ 0x7E) : (Char.ofNat n).toNat = n := by
  rw [Char.ofNat, dif_pos (.inl (by omega))]
  rfl

theorem shownAs_shownChar (w : Word) : ShownAs w.toNat (shownChar w) := by
  unfold ShownAs shownChar
  split
  · rename_i h
    exact .inl ⟨h.1, by omega, toNat_ofNat_of_le (by omega)⟩
  · rename_i h
    exact .inr ⟨by omega, rfl⟩

theorem dumpRow_dumpRow (m : Memory) (n : Int) :
    DumpRow m n (m.dumpRow (Word.ofInt n)).toList := by
  have hcell (i : Nat) : Word.ofInt n + BitVec.ofNat 16 i = Word.ofInt (n + i) := by
    rw [Word.ofInt, Word.ofInt, BitVec.ofInt_add, BitVec.ofInt_natCast]
  let word (i : Nat) := (Numeral.hex (m.peek (Word.ofInt (n + i))).toNat).toList
  let shown (i : Nat) := shownChar (m.peek (Word.ofInt (n + i)))
  have hblanks (f : Nat → List Char) : ' ' :: [' '].intercalate ((List.range 8).map f) =
      ((List.range 8).map f).flatMap (' ' :: ·) := rfl
  have hrow : (m.dumpRow (Word.ofInt n)).toList =
      'x' :: (Numeral.hex (Word.ofInt n).toNat).toList ++
        ' ' :: ((List.range 8).map word).flatMap (' ' :: ·) ++
          ' ' :: ' ' :: (List.range 8).map shown := by
    rw [← hblanks]
    simp [dumpRow, hcell, word, shown, String.toList_intercalate, Function.comp_def]
  rw [hrow]
  refine .intro (hexOf_hex _) ?_ ?_
  · rw [List.forall₂_map_right_iff, List.forall₂_same]
    exact fun i _ => hexOf_hex _
  · rw [List.forall₂_map_right_iff, List.forall₂_same]
    exact fun i _ => shownAs_shownChar _

/-! ## Rows of a dump -/

theorem HexOf.lineFeed_not_mem {s : List Char} {w : Word} (h : HexOf s w) : '\n' ∉ s := by
  intro hc
  exact absurd (h.writes.isAlphanum hc) (by decide)

theorem ShownAs.ne_lineFeed {code : Nat} {c : Char} (h : ShownAs code c) : c ≠ '\n' := by
  rintro rfl
  rcases h with ⟨h, -, hc⟩ | ⟨-, hc⟩
  · change 10 = code at hc
    omega
  · exact absurd hc (by decide)

theorem DumpRow.lineFeed_not_mem {m : Memory} {n : Int} {row : List Char} (h : DumpRow m n row) :
    '\n' ∉ row := by
  obtain ⟨ha, hw, ht⟩ := h
  have hwords := ((List.forall₂_and_left _ _).mp
    (hw.flip.imp fun _ _ h => ⟨h.lineFeed_not_mem, h⟩)).1
  have htext := ((List.forall₂_and_left _ _).mp
    (ht.flip.imp fun _ _ h => ⟨ShownAs.ne_lineFeed h, h⟩)).1
  simp only [List.cons_append, List.mem_cons, List.mem_append, List.mem_flatMap, not_or]
  refine ⟨by decide, ⟨ha.lineFeed_not_mem, by decide, ?_⟩, by decide, by decide,
    fun h => htext _ h rfl⟩
  rintro ⟨word, hword, hblank | hmem⟩
  · exact absurd hblank (by decide)
  · exact hwords word hword hmem

/-- The characters of a word and of its low byte are the same exactly if the word has no high byte or
the low byte is shown as a full stop. -/
theorem ShownAs.lowByte {w : Word} {c : Char} (h : ShownAs w.toNat c) :
    ShownAs (w.toNat % 0x100) c ↔
      w.toNat < 0x100 ∨ ¬(0x20 ≤ w.toNat % 0x100 ∧ w.toNat % 0x100 ≤ 0x7E) ∨
        w.toNat % 0x100 = '.'.toNat := by
  rcases Nat.lt_or_ge w.toNat 0x100 with hlt | hge
  · rw [Nat.mod_eq_of_lt hlt]
    exact ⟨fun _ => .inl hlt, fun _ => h⟩
  · obtain ⟨-, hle, -⟩ | ⟨-, rfl⟩ := h
    · omega
    · unfold ShownAs
      simp only [eq_comm (a := '.'.toNat), and_true]
      omega

/-- A dump has as many rows as cover the cells asked for, one to a line, and each shows the eight
cells at its address. The characters are those of the low bytes where these are shown as full stops
anyway, and otherwise exactly where the high bytes are zero. -/
theorem hexdump_rows (m : Memory) (start length : Int) :
    (∃ rows : List (List Char),
      (m.hexdump start length).toList = ['\n'].intercalate rows ∧
        (max length 0 ≤ 8 * rows.length ∧ 8 * rows.length < max length 0 + 8) ∧
        ∀ (k : Nat) row, rows[k]? = some row → '\n' ∉ row ∧ DumpRow m (start + 8 * k) row) ∧
      ∀ (w : Word) (c : Char), ShownAs w.toNat c →
        (ShownAs (w.toNat % 0x100) c ↔
          w.toNat < 0x100 ∨ ¬(0x20 ≤ w.toNat % 0x100 ∧ w.toNat % 0x100 ≤ 0x7E) ∨
            w.toNat % 0x100 = '.'.toNat) := by
  let count := (length.toNat + 7) / 8
  let row (k : Nat) := (m.dumpRow (Word.ofInt (start + 8 * k))).toList
  refine ⟨⟨(List.range count).map row, ?_, ?_, fun k r hr => ?_⟩, fun w c => ShownAs.lowByte⟩
  · simp [hexdump, String.toList_intercalate, Function.comp_def, row, count]
  · rw [List.length_map, List.length_range]
    omega
  · obtain ⟨hk, rfl⟩ := List.getElem?_eq_some_iff.mp hr
    rw [List.getElem_map, List.getElem_range]
    exact ⟨(dumpRow_dumpRow m _).lineFeed_not_mem, dumpRow_dumpRow m _⟩

/-- The cell at x3000 holds the code of an `H` below a high byte, and a full stop is shown for it. -/
theorem hexdump_highByte : (blank.poke 0x3000 0x4148).hexdump 0x3000 1 =
    "x3000  4148 0000 0000 0000 0000 0000 0000 0000  ........" := by
  have hpeek (a : Word) : (blank.poke 0x3000 0x4148).peek a = if a = 0x3000 then 0x4148 else 0 := by
    rw [peek_poke, peek, blank, Vector.getElem_replicate]
  simp only [hexdump, dumpRow, hpeek]
  decide

end LC3.Memory
