import LC3.Proofs.Computation
import LC3.Proofs.Image.Digits

/-!
# Object images

An object image holds two bytes for each word and nothing else, so it is written exactly if every
integer of the program is a word. Reading accepts exactly what writing produces
(`readObject_eq_ok`): bytes of an even number, and at least two (`readObject_eq_error`).
-/

namespace LC3.Image

/-- The high and the low byte of a word. -/
def bytesOf (w : Int) : List UInt8 :=
  [UInt8.ofNat (w.toNat / 256), UInt8.ofNat w.toNat]

theorem wordBytes_eq_ok {w : Int} {bs : List UInt8} :
    wordBytes w = .ok bs ↔ (0 ≤ w ∧ w ≤ 0xFFFF) ∧ bs = bytesOf w := by
  unfold wordBytes memorySize
  split
  · simp only [reduceCtorEq, false_iff]
    omega
  · split
    · simp only [reduceCtorEq, false_iff]
      omega
    · rw [Except.ok.injEq, eq_comm, bytesOf]
      exact (and_iff_right (by omega)).symm

theorem objectBytes_eq_ok {words : List Int} {bs : List UInt8} :
    objectBytes words = .ok bs ↔
      (∀ w ∈ words, 0 ≤ w ∧ w ≤ 0xFFFF) ∧ bs = words.flatMap bytesOf := by
  have hmap : ∀ bss, words.mapM wordBytes = .ok bss ↔
      (∀ w ∈ words, 0 ≤ w ∧ w ≤ 0xFFFF) ∧ bss = words.map bytesOf := by
    induction words with
    | nil =>
      intro bss
      rw [List.mapM_nil, pure_eq_ok, eq_comm]
      simp
    | cons w words ih =>
      intro bss
      simp only [List.mapM_cons, bind_eq_ok, pure_eq_ok, wordBytes_eq_ok, ih, List.forall_mem_cons,
        List.map_cons]
      constructor
      · rintro ⟨b, ⟨hw, rfl⟩, bss, ⟨hws, rfl⟩, rfl⟩
        exact ⟨⟨hw, hws⟩, rfl⟩
      · rintro ⟨⟨hw, hws⟩, rfl⟩
        exact ⟨_, ⟨hw, rfl⟩, _, ⟨hws, rfl⟩, rfl⟩
  simp only [objectBytes, bind_eq_ok, pure_eq_ok, hmap, List.flatMap_def]
  constructor
  · rintro ⟨bss, ⟨hw, rfl⟩, rfl⟩
    exact ⟨hw, rfl⟩
  · rintro ⟨hw, rfl⟩
    exact ⟨_, ⟨hw, rfl⟩, rfl⟩

/-! ## What is not written -/

theorem wordBytes_eq_error {w : Int} {f : Fault} :
    wordBytes w = .error f ↔ w < 0 ∧ f = .wordNegative ∨ 0xFFFF < w ∧ f = .wordTooBig := by
  unfold wordBytes memorySize
  split
  · rename_i hneg
    rw [Except.error.injEq, eq_comm, and_iff_right hneg, or_iff_left]
    rintro ⟨hbig, -⟩
    omega
  · rename_i hneg
    rw [or_iff_right fun h => hneg h.1]
    split
    · rename_i hbig
      rw [Except.error.injEq, eq_comm, and_iff_right (by omega)]
    · rename_i hbig
      simp only [reduceCtorEq, false_iff]
      rintro ⟨h, -⟩
      omega

/-- The first integer that is no word decides why an image is not written. -/
theorem objectBytes_eq_error {words : List Int} {f : Fault} :
    objectBytes words = .error f ↔
      ∃ before w after, words = before ++ w :: after ∧ (∀ v ∈ before, 0 ≤ v ∧ v ≤ 0xFFFF) ∧
        (w < 0 ∧ f = .wordNegative ∨ 0xFFFF < w ∧ f = .wordTooBig) := by
  rw [objectBytes, return_eq_error]
  induction words with
  | nil => simp [pure_ne_error]
  | cons v words ih =>
    simp only [List.mapM_cons, bind_eq_error, pure_ne_error, and_false, exists_false, or_false, ih,
      wordBytes_eq_error, wordBytes_eq_ok]
    constructor
    · rintro (hv | ⟨b, ⟨hv, rfl⟩, before, w, after, rfl, hbefore, hw⟩)
      · exact ⟨[], v, words, rfl, by simp, hv⟩
      · exact ⟨v :: before, w, after, rfl, List.forall_mem_cons.mpr ⟨hv, hbefore⟩, hw⟩
    · rintro ⟨before, w, after, he, hbefore, hw⟩
      cases before with
      | nil =>
        cases he
        exact .inl hw
      | cons u before =>
        cases he
        obtain ⟨hv, hbefore⟩ := List.forall_mem_cons.mp hbefore
        exact .inr ⟨_, ⟨hv, rfl⟩, before, w, after, rfl, hbefore, hw⟩

/-! ## Reading -/

theorem bytesOf_pair (high low : UInt8) :
    bytesOf (256 * high.toNat + low.toNat : Nat) = [high, low] := by
  have hh := high.toNat_lt
  have hl := low.toNat_lt
  unfold bytesOf
  congr 2
  · rw [← UInt8.toNat_inj, UInt8.toNat_ofNat', Int.toNat_natCast]
    omega
  · rw [← UInt8.toNat_inj, UInt8.toNat_ofNat', Int.toNat_natCast]
    omega

theorem wordsOfBytes?_bytesOf {w : Int} (h : 0 ≤ w ∧ w ≤ 0xFFFF) (bs : List UInt8) :
    wordsOfBytes? (bytesOf w ++ bs) = (wordsOfBytes? bs).map (w :: ·) := by
  have hw : ((256 * (UInt8.ofNat (w.toNat / 256)).toNat + (UInt8.ofNat w.toNat).toNat : Nat) :
      Int) = w := by
    rw [UInt8.toNat_ofNat', UInt8.toNat_ofNat']
    omega
  rw [bytesOf, List.cons_append, List.cons_append, List.nil_append, wordsOfBytes?, hw]
  cases wordsOfBytes? bs <;> rfl

theorem wordsOfBytes?_eq_some {bs : List UInt8} {ws : List Int} :
    wordsOfBytes? bs = some ws ↔ objectBytes ws = .ok bs := by
  rw [objectBytes_eq_ok]
  constructor
  · intro h
    fun_induction wordsOfBytes? bs generalizing ws with
    | case1 =>
      cases h
      exact ⟨by simp, rfl⟩
    | case2 => cases h
    | case3 high low bs ih =>
      obtain ⟨words, hwords, he⟩ := Option.bind_eq_some_iff.mp h
      cases he
      obtain ⟨hrange, rfl⟩ := ih hwords
      have hh := high.toNat_lt
      have hl := low.toNat_lt
      refine ⟨List.forall_mem_cons.mpr ⟨by omega, hrange⟩, ?_⟩
      rw [List.flatMap_cons, bytesOf_pair]
      rfl
  · rintro ⟨hrange, rfl⟩
    induction ws with
    | nil => rfl
    | cons w ws ih =>
      obtain ⟨hw, hws⟩ := List.forall_mem_cons.mp hrange
      rw [List.flatMap_cons, wordsOfBytes?_bytesOf hw, ih hws]
      rfl

theorem wordsOfBytes?_eq_none {bs : List UInt8} :
    wordsOfBytes? bs = none ↔ bs.length % 2 = 1 := by
  fun_induction wordsOfBytes? bs with
  | case1 => simp
  | case2 => simp
  | case3 high low bs ih =>
    have hlength : (high :: low :: bs).length % 2 = bs.length % 2 := by
      simp only [List.length_cons]
      omega
    rw [hlength, ← ih]
    cases wordsOfBytes? bs <;> simp

theorem write_obj_eq_ok {p : Program} {bs : List UInt8} :
    write p .obj = .ok (.bytes bs) ↔ objectBytes (wordsOf p) = .ok bs := by
  rw [write, bind_eq_ok]
  simp [pure_eq_ok]

/-- What is read from bytes is a program that is written as them. -/
theorem readObject_eq_ok {bs : List UInt8} {p : Program} :
    readObject bs = .ok p ↔ write p .obj = .ok (.bytes bs) ∧ p.symbols = ∅ := by
  have hp : readObject bs = .ok p ↔ (wordsOfBytes? bs).bind programOf = some p := by
    unfold readObject
    cases (wordsOfBytes? bs).bind programOf <;> simp
  rw [hp, Option.bind_eq_some_iff, write_obj_eq_ok]
  simp only [programOf_eq_some, wordsOfBytes?_eq_some]
  constructor
  · rintro ⟨words, hw, rfl, hs⟩
    exact ⟨hw, hs⟩
  · rintro ⟨hw, hs⟩
    exact ⟨_, hw, rfl, hs⟩

/-- Reading fails in no other way than with a diagnostic. -/
theorem readObject_ok_or_error (bs : List UInt8) :
    (∃ p, readObject bs = .ok p) ∨
      ∃ message, readObject bs = .error (.diagnostic message none) := by
  unfold readObject
  cases (wordsOfBytes? bs).bind programOf <;> simp

/-- Bytes are refused if they make no whole words, and not even one. -/
theorem readObject_eq_error {bs : List UInt8} :
    (∃ message, readObject bs = .error (.diagnostic message none)) ↔
      bs.length % 2 = 1 ∨ bs.length < 2 := by
  have hnone : (wordsOfBytes? bs).bind programOf = none ↔ bs.length % 2 = 1 ∨ bs.length < 2 := by
    match bs with
    | [] => simp [wordsOfBytes?, programOf]
    | [_] => simp [wordsOfBytes?]
    | high :: low :: bs =>
      have hcons : (wordsOfBytes? (high :: low :: bs)).bind programOf = none ↔
          wordsOfBytes? (high :: low :: bs) = none := by
        rw [wordsOfBytes?]
        cases wordsOfBytes? bs <;> simp [programOf]
      rw [hcons, wordsOfBytes?_eq_none, List.length_cons, List.length_cons]
      omega
  rw [← hnone, readObject]
  cases (wordsOfBytes? bs).bind programOf <;> simp

end LC3.Image
