import LC3.Proofs.Image.Digits

/-!
# Hexadecimal images

What is read from the hexadecimal image of a program. The reader takes digits for binary if all of
them are zeros and ones, and nothing in the image says otherwise. `readRaw_hex` shows that the image
is read back if and only if some word has another digit. The images of all other programs are
refused, unless the number of their words is a multiple of four: then each four words are read as
one, and the result is always another program.
-/

namespace LC3.Image

open Numeral

/-! ## Words that look binary -/

/-- The four hexadecimal digits of a word are zeros and ones. -/
def LooksBinary (w : Int) : Prop :=
  w / 0x1000 % 0x10 ≤ 1 ∧ w / 0x100 % 0x10 ≤ 1 ∧ w / 0x10 % 0x10 ≤ 1 ∧ w % 0x10 ≤ 1

instance (w : Int) : Decidable (LooksBinary w) :=
  inferInstanceAs (Decidable (_ ∧ _ ∧ _ ∧ _))

/-- The number that the four hexadecimal digits of a word write in base two. -/
def asBits (w : Int) : Int :=
  8 * (w / 0x1000 % 0x10) + 4 * (w / 0x100 % 0x10) + 2 * (w / 0x10 % 0x10) + w % 0x10

/-- The number that the hexadecimal digits of words in a row write in base two. -/
def joined (ws : List Int) : Int :=
  ws.foldl (fun n w => 0x10 * n + asBits w) 0

/-! ## Digits of words -/

theorem digit_isBinary_iff {d : Nat} (hd : d < 16) :
    (d.digitChar.toUpper = '0' ∨ d.digitChar.toUpper = '1') ↔ d ≤ 1 := by
  interval_cases d <;> decide

theorem lastDigits_word (n : Nat) :
    lastDigits 16 4 n =
      [(n / 0x1000 % 16).digitChar.toUpper, (n / 0x100 % 16).digitChar.toUpper,
        (n / 0x10 % 16).digitChar.toUpper, (n % 16).digitChar.toUpper] := by
  simp only [lastDigits, Nat.div_div_eq_div_mul]
  rfl

theorem looksBinary_iff {w : Int} (h : 0 ≤ w) :
    LooksBinary w ↔ ∀ c ∈ lastDigits 16 4 w.toNat, c = '0' ∨ c = '1' := by
  have hlt (n : Nat) : n % 16 < 16 := Nat.mod_lt n (by decide)
  simp only [lastDigits_word, List.mem_cons, List.not_mem_nil, or_false, forall_eq_or_imp,
    forall_eq, digit_isBinary_iff (hlt _)]
  unfold LooksBinary
  omega

theorem filterMap_looksBinary {w : Int} (h : 0 ≤ w) (hb : LooksBinary w) :
    ∃ ds, (lastDigits 16 4 w.toNat).filterMap (digitValue? 2) = ds ∧ ds.length = 4 ∧
      (valueOf 2 ds : Int) = asBits w := by
  have hone {d : Nat} (hd : d ≤ 1) : digitValue? 2 d.digitChar.toUpper = some d := by
    interval_cases d <;> rfl
  obtain ⟨h3, h2, h1, h0⟩ := hb
  refine ⟨[w.toNat / 0x1000 % 16, w.toNat / 0x100 % 16, w.toNat / 0x10 % 16, w.toNat % 16],
    ?_, rfl, ?_⟩
  · rw [lastDigits_word, List.filterMap_cons_some (hone (by omega)),
      List.filterMap_cons_some (hone (by omega)), List.filterMap_cons_some (hone (by omega)),
      List.filterMap_cons_some (hone (by omega)), List.filterMap_nil]
  · simp only [valueOf, List.foldl_cons, List.foldl_nil, asBits]
    push_cast
    omega

theorem groupValue_binary {ws : List Int} (h : ∀ w ∈ ws, 0 ≤ w ∧ LooksBinary w) :
    groupValue .binary (ws.map fun w => lastDigits 16 4 w.toNat).flatten = joined ws := by
  have key : ∀ ws : List Int, (∀ w ∈ ws, 0 ≤ w ∧ LooksBinary w) → ∀ ds : List Nat,
      (valueOf 2 (ds ++ (ws.map fun w => lastDigits 16 4 w.toNat).flatten.filterMap
        (digitValue? 2)) : Int) = ws.foldl (fun n w => 0x10 * n + asBits w) (valueOf 2 ds) := by
    intro ws
    induction ws with
    | nil => intro _ ds; simp
    | cons w ws ih =>
      intro h ds
      obtain ⟨es, hes, hlen, hval⟩ := filterMap_looksBinary (h w (by simp)).1 (h w (by simp)).2
      have hstep : (valueOf 2 (ds ++ es) : Int) = 0x10 * valueOf 2 ds + asBits w := by
        rw [valueOf_append_list, hlen, ← hval]
        push_cast
        omega
      rw [List.map_cons, List.flatten_cons, List.filterMap_append, hes, ← List.append_assoc,
        ih (fun w' hw' => h w' (by simp [hw'])), hstep, List.foldl_cons]
  exact key ws h []

/-! ## Rows of words -/

section Rows

variable {ws : List Int} (h : ∀ w ∈ ws, 0 ≤ w ∧ w < memorySize)
include h

theorem programOfRaw_lines :
    programOfRaw (lines Numeral.hex ws) =
      ofDigits (ws.map fun w => lastDigits 16 4 w.toNat).flatten :=
  programOfRaw_padded .hexadecimal h

/-- Words are taken for binary exactly if all of them look so. -/
theorem baseOf_words :
    baseOf (ws.map fun w => lastDigits 16 4 w.toNat).flatten =
      if ∀ w ∈ ws, LooksBinary w then .binary else .hexadecimal := by
  unfold baseOf
  congr 1
  simp only [List.all_flatten, List.all_map, List.all_eq_true, Function.comp, Bool.or_eq_true,
    decide_eq_true_eq, eq_iff_iff]
  exact forall₂_congr fun w hw => (looksBinary_iff (h w hw).1).symm

theorem ofDigits_hexadecimal (hw : ∃ w ∈ ws, ¬LooksBinary w) {p : Program}
    (hp : programOf ws = some p) :
    ofDigits (ws.map fun w => lastDigits 16 4 w.toNat).flatten = .ok p := by
  have hall : ¬∀ w ∈ ws, LooksBinary w := by simpa using hw
  exact ofDigits_lastDigits .hexadecimal h ((baseOf_words h).trans (if_neg hall)) hp

theorem ofDigits_binary (hw : ∀ w ∈ ws, LooksBinary w) (hdvd : ws.length % 4 = 0) {p : Program}
    (hp : programOf ((groups 4 ws).map joined) = some p) :
    ofDigits (ws.map fun w => lastDigits 16 4 w.toNat).flatten = .ok p := by
  have hlen : ∀ l ∈ ws.map fun w => lastDigits 16 4 w.toNat, l.length = 4 := by
    simp [length_lastDigits]
  have hgroups : groups 16 (ws.map fun w => lastDigits 16 4 w.toNat).flatten =
      (groups 4 (ws.map fun w => lastDigits 16 4 w.toNat)).map List.flatten :=
    groups_mul_flatten (n := 4) (k := 4) (by decide) (by decide) hlen (by rwa [List.length_map])
  have hval : ((groups 4 ws).map fun g => groupValue .binary
      (g.map fun w => lastDigits 16 4 w.toNat).flatten) = (groups 4 ws).map joined := by
    refine List.map_congr_left fun g hg => groupValue_binary fun w hwg => ?_
    have hmem : w ∈ (groups 4 ws).flatten := List.mem_flatten.mpr ⟨g, hg, hwg⟩
    rw [flatten_groups] at hmem
    exact ⟨(h w hmem).1, hw w hmem⟩
  unfold ofDigits
  rw [baseOf_words h, if_pos hw, Base.wordDigits, length_flatten hlen, List.length_map,
    if_neg (by omega), hgroups, groups_map, List.map_map, List.map_map]
  have hp : programOf ((groups 4 ws).map fun g => groupValue .binary
      (g.map fun w => lastDigits 16 4 w.toNat).flatten) = some p := by rw [hval, hp]
  simp only [Function.comp_def, hp]

theorem ofDigits_refused (hw : ∀ w ∈ ws, LooksBinary w) (hdvd : ws.length % 4 ≠ 0) :
    ofDigits (ws.map fun w => lastDigits 16 4 w.toNat).flatten =
      .error (.length (4 * ws.length) .binary) := by
  have hlen : ∀ l ∈ ws.map fun w => lastDigits 16 4 w.toNat, l.length = 4 := by
    simp [length_lastDigits]
  unfold ofDigits
  rw [baseOf_words h, if_pos hw, Base.wordDigits, length_flatten hlen, List.length_map,
    if_pos (by omega)]

end Rows

/-! ## Programs -/

/-- What is read from the hexadecimal image of a program of words. It is the program, without its
symbols, exactly if some word has a hexadecimal digit other than zero and one. Otherwise the digits
are taken for binary: if they make whole words, each four words are read as one, and if not, the
image is refused. -/
theorem readRaw_hex {p : Program} (h : ∀ w ∈ wordsOf p, 0 ≤ w ∧ w < memorySize) :
    ∃ text, write p .hex = .ok (.text text) ∧
      (readRaw text = .success { p with symbols := ∅ } ↔ ∃ w ∈ wordsOf p, ¬LooksBinary w) ∧
      ((∀ w ∈ wordsOf p, LooksBinary w) → (wordsOf p).length % 4 = 0 →
        ∃ orig code, (groups 4 (wordsOf p)).map joined = orig :: code ∧
          readRaw text = .success ⟨orig, code, ∅⟩) ∧
      ((∀ w ∈ wordsOf p, LooksBinary w) → (wordsOf p).length % 4 ≠ 0 →
        readRaw text = .failure (RawFlaw.length (4 * (wordsOf p).length) .binary).message) := by
  have hread := programOfRaw_lines h
  have hregrouped (hb : ∀ w ∈ wordsOf p, LooksBinary w) (hdvd : (wordsOf p).length % 4 = 0) :
      ∃ orig code, (groups 4 (wordsOf p)).map joined = orig :: code ∧
        readRaw (lines Numeral.hex (wordsOf p)) = .success ⟨orig, code, ∅⟩ := by
    have hne : (groups 4 (wordsOf p)).map joined ≠ [] := by
      rw [wordsOf, groups]
      simp
    obtain ⟨orig, code, hcons⟩ := List.exists_cons_of_ne_nil hne
    have hp : programOf ((groups 4 (wordsOf p)).map joined) = some ⟨orig, code, ∅⟩ := by
      rw [hcons]
      rfl
    exact ⟨orig, code, hcons, readRaw_of_ok (hread.trans (ofDigits_binary h hb hdvd hp))⟩
  have hrefused (hb : ∀ w ∈ wordsOf p, LooksBinary w) (hdvd : (wordsOf p).length % 4 ≠ 0) :
      readRaw (lines Numeral.hex (wordsOf p)) =
        .failure (RawFlaw.length (4 * (wordsOf p).length) .binary).message :=
    readRaw_of_error (hread.trans (ofDigits_refused h hb hdvd))
  refine ⟨lines Numeral.hex (wordsOf p), rfl, ⟨fun hsame => ?_, fun hw => ?_⟩, hregrouped, hrefused⟩
  · by_contra hall
    have hb : ∀ w ∈ wordsOf p, LooksBinary w := by simpa using hall
    by_cases hdvd : (wordsOf p).length % 4 = 0
    · -- A quarter of the words cannot be all of them.
      obtain ⟨orig, code, hcons, hread⟩ := hregrouped hb hdvd
      rw [hread, Outcome.success.injEq] at hsame
      have hquarter := length_groups (by decide) hdvd
      have hlen := congrArg List.length hcons
      rw [List.length_map, List.length_cons] at hlen
      have hcode : code = p.code := congrArg Program.code hsame
      have hsize : (wordsOf p).length = p.code.length + 1 := rfl
      rw [hcode] at hlen
      omega
    · rw [hrefused hb hdvd] at hsame
      cases hsame
  · exact readRaw_of_ok (hread.trans (ofDigits_hexadecimal h hw rfl))

/-- Words of zeros and ones are read as another program: one word at another origin. -/
theorem readRaw_hex_regrouped :
    let p : Program := ⟨0x0011, [0, 0, 0, 0x1111, 0x0000, 0x0010, 0x0101], ∅⟩
    (∀ w ∈ wordsOf p, 0 ≤ w ∧ w < memorySize) ∧ ∃ text, write p .hex = .ok (.text text) ∧
      readRaw text = .success ⟨0x3000, [0xF025], ∅⟩ ∧
        readRaw text ≠ .success { p with symbols := ∅ } := by
  intro p
  have h : ∀ w ∈ wordsOf p, 0 ≤ w ∧ w < memorySize := by decide
  have hb : ∀ w ∈ wordsOf p, LooksBinary w := by decide
  obtain ⟨text, hw, hiff, hregrouped, -⟩ := readRaw_hex h
  obtain ⟨orig, code, hcons, hread⟩ := hregrouped hb (by decide)
  have hjoined : (groups 4 (wordsOf p)).map joined = [0x3000, 0xF025] := by
    simp [wordsOf, p, groups, joined, asBits]
  obtain ⟨rfl, rfl⟩ := List.cons.inj (hjoined.symm.trans hcons)
  refine ⟨h, text, hw, hread, fun hsame => ?_⟩
  obtain ⟨w, hw, hn⟩ := hiff.mp hsame
  exact hn (hb w hw)

end LC3.Image
