import LC3.Memory
import LC3.Registers

/-!
# Laws of cells and registers

What is read after a write, and after words are loaded.
-/

namespace LC3

namespace Memory

theorem peek_poke (m : Memory) (a v b : Word) :
    (m.poke a v).peek b = if b = a then v else m.peek b := by
  unfold peek poke
  simp only [Vector.getElem_set, BitVec.toNat_inj, eq_comm]

theorem ext_peek {m m' : Memory} (h : ∀ a, m.peek a = m'.peek a) : m = m' := by
  suffices m.cells = m'.cells by
    cases m
    exact congrArg Memory.mk this
  refine Vector.ext fun i hi => ?_
  have := h (BitVec.ofNat 16 i)
  simpa only [peek, BitVec.toNat_ofNat, Nat.mod_eq_of_lt (show i < 2 ^ 16 from hi)] using this

/-- A cell holds the last of the loaded words that come round to it, and what it held before if none
does. -/
theorem peek_load_last (m : Memory) (a : Word) (ws : List Word) (b : Word) :
    (∃ i w, ws[i]? = some w ∧ a + BitVec.ofNat 16 i = b ∧
        (∀ j, i < j → j < ws.length → a + BitVec.ofNat 16 j ≠ b) ∧ (m.load a ws).peek b = w) ∨
      (∀ i < ws.length, a + BitVec.ofNat 16 i ≠ b) ∧ (m.load a ws).peek b = m.peek b := by
  induction ws generalizing m a with
  | nil => exact .inr ⟨by simp, rfl⟩
  | cons w ws ih =>
    have hnext (i : Nat) : a + 1 + BitVec.ofNat 16 i = a + BitVec.ofNat 16 (i + 1) := by
      rw [BitVec.ofNat_add]
      ac_rfl
    rw [load, List.length_cons]
    have ih := ih (m.poke a w) (a + 1)
    simp only [hnext] at ih
    rcases ih with ⟨i, v, hv, hi, hlast, hpeek⟩ | ⟨hnone, hpeek⟩
    · refine .inl ⟨i + 1, v, hv, hi, fun j hij hj => ?_, hpeek⟩
      obtain ⟨j, rfl⟩ := Nat.exists_eq_succ_of_ne_zero (by omega : j ≠ 0)
      exact hlast j (by omega) (by omega)
    · rw [peek_poke] at hpeek
      by_cases hb : b = a
      · rw [if_pos hb] at hpeek
        refine .inl ⟨0, w, rfl, by simp [hb], fun j hij hj => ?_, hpeek⟩
        obtain ⟨j, rfl⟩ := Nat.exists_eq_succ_of_ne_zero (by omega : j ≠ 0)
        exact hnone j (by omega)
      · rw [if_neg hb] at hpeek
        refine .inr ⟨fun j hj => ?_, hpeek⟩
        cases j with
        | zero => simpa using Ne.symm hb
        | succ j => exact hnone j (by omega)

theorem peek_load {ws : List Word} (h : ws.length ≤ 65536) (m : Memory) (a b : Word) :
    (m.load a ws).peek b = ws[(b - a).toNat]?.getD (m.peek b) := by
  -- Of so few words only one belongs to the cell, and it is known by its distance.
  have hdistance {i : Nat} (hi : i < ws.length) (hb : a + BitVec.ofNat 16 i = b) :
      (b - a).toNat = i := by
    rw [← hb, BitVec.add_comm, BitVec.add_sub_cancel]
    exact Nat.mod_eq_of_lt (show i < 65536 by omega)
  rcases peek_load_last m a ws b with ⟨i, w, hw, hi, -, hpeek⟩ | ⟨hnone, hpeek⟩
  · rw [hdistance (List.getElem?_eq_some_iff.mp hw).1 hi, hw, hpeek]
    rfl
  · have hfar : ws.length ≤ (b - a).toNat := Nat.le_of_not_lt fun hlt => by
      refine hnone _ hlt ?_
      rw [BitVec.ofNat_toNat, BitVec.setWidth_eq, BitVec.add_comm, BitVec.sub_add_cancel]
    rw [List.getElem?_eq_none hfar, hpeek]
    rfl

end Memory

namespace Registers

theorem get_set (r : Registers) (n : Reg) (v : Word) (k : Reg) :
    (r.set n v).get k = if k = n then v else r.get k := by
  unfold get set
  simp only [Vector.getElem_set, BitVec.toNat_inj, eq_comm]

/-- A register that does not exist is not set, whether or not its number can be reported. -/
theorem set?_eq_error (r : Registers) {n : Int} (h : ¬ (0 ≤ n ∧ n < 8)) (w : Word) :
    ∃ f, r.set? n w = .error f := by
  rw [set?, index?, if_neg h]
  cases Numeral.decimal n <;> exact ⟨_, rfl⟩

end Registers

end LC3
