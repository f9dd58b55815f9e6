import LC3.Proofs.Image.Digits
import LC3.Proofs.Image.Object

/-!
# Images that are read back

Of a binary image nothing has to be guessed: all its digits are zeros and ones, so it is read for
what it is. An object image has no layout at all. `images_exact` puts together what is read back
from the two, and which bytes and which programs have no place in an object image.
-/

namespace LC3.Image

open Numeral

theorem baseOf_lastDigits_two (ws : List Int) :
    baseOf (ws.map fun w => lastDigits 2 16 w.toNat).flatten = .binary := by
  refine if_pos (List.all_eq_true.mpr fun c hc => ?_)
  obtain ⟨l, hl, hc⟩ := List.mem_flatten.mp hc
  obtain ⟨w, -, rfl⟩ := List.mem_map.mp hl
  obtain ⟨d, hd, rfl⟩ := mem_lastDigits (by decide) hc
  interval_cases d <;> decide

theorem readRaw_bin {p : Program} (h : ∀ w ∈ wordsOf p, 0 ≤ w ∧ w ≤ 0xFFFF) :
    readRaw (lines (padded 2 16) (wordsOf p)) = .success { p with symbols := ∅ } := by
  have hrange : ∀ w ∈ wordsOf p, 0 ≤ w ∧ w < memorySize := fun w hw =>
    ⟨(h w hw).1, Int.lt_of_le_sub_one (h w hw).2⟩
  have hbinary := baseOf_lastDigits_two (wordsOf p)
  exact readRaw_of_ok
    ((programOfRaw_padded .binary hrange).trans (ofDigits_lastDigits .binary hrange hbinary rfl))

theorem readObject_obj {p : Program} (h : ∀ w ∈ wordsOf p, 0 ≤ w ∧ w ≤ 0xFFFF) :
    ∃ bs, write p .obj = .ok (.bytes bs) ∧ readObject bs = .ok { p with symbols := ∅ } := by
  have hbytes := objectBytes_eq_ok.mpr ⟨h, rfl⟩
  exact ⟨_, write_obj_eq_ok.mpr hbytes, readObject_eq_ok.mpr ⟨write_obj_eq_ok.mpr hbytes, rfl⟩⟩

/-- An integer that is no word has no place in an object image. -/
theorem write_obj_overflow (p : Program) :
    write p .obj = .error .wordNegative ∨ write p .obj = .error .wordTooBig ↔
      ∃ w ∈ wordsOf p, ¬(0 ≤ w ∧ w ≤ 0xFFFF) := by
  have hwrite (f : Fault) : write p .obj = .error f ↔ objectBytes (wordsOf p) = .error f := by
    rw [write, return_eq_error]
  rw [hwrite, hwrite]
  constructor
  · rintro (h | h)
    all_goals
      obtain ⟨before, w, after, hw, -, hf⟩ := objectBytes_eq_error.mp h
      exact ⟨w, by rw [hw]; simp, by omega⟩
  · rintro ⟨w, hw, hn⟩
    cases h : objectBytes (wordsOf p) with
    | ok bs => exact absurd ((objectBytes_eq_ok.mp h).1 w hw) hn
    | error f =>
      obtain ⟨-, -, -, -, -, ⟨-, rfl⟩ | ⟨-, rfl⟩⟩ := objectBytes_eq_error.mp h
      · exact .inl rfl
      · exact .inr rfl

/-- Binary and object images are read back as the program, but for its symbols. All bytes that make
whole words, one at least, are the object image of what is read from them, and all others are
refused. A program with an integer that is no word has no object image. -/
theorem images_exact (p : Program) (bs : List UInt8) :
    ((∀ w ∈ wordsOf p, 0 ≤ w ∧ w ≤ 0xFFFF) →
      (∃ text, write p .bin = .ok (.text text) ∧
        readRaw text = .success { p with symbols := ∅ }) ∧
      ∃ bytes, write p .obj = .ok (.bytes bytes) ∧
        readObject bytes = .ok { p with symbols := ∅ }) ∧
    ((∃ message, readObject bs = .error (.diagnostic message none)) ↔
      bs.length % 2 = 1 ∨ bs.length < 2) ∧
    (¬(bs.length % 2 = 1 ∨ bs.length < 2) →
      ∃ q, readObject bs = .ok q ∧ (∀ w ∈ wordsOf q, 0 ≤ w ∧ w ≤ 0xFFFF) ∧
        write q .obj = .ok (.bytes bs)) ∧
    (write p .obj = .error .wordNegative ∨ write p .obj = .error .wordTooBig ↔
      ∃ w ∈ wordsOf p, ¬(0 ≤ w ∧ w ≤ 0xFFFF)) := by
  refine ⟨fun h => ⟨⟨_, rfl, readRaw_bin h⟩, readObject_obj h⟩, readObject_eq_error, fun h => ?_,
    write_obj_overflow p⟩
  obtain ⟨q, hq⟩ := (readObject_ok_or_error bs).resolve_right (mt readObject_eq_error.mp h)
  have hwrite := (readObject_eq_ok.mp hq).1
  exact ⟨q, hq, (objectBytes_eq_ok.mp (write_obj_eq_ok.mp hwrite)).1, hwrite⟩

end LC3.Image
