import LC3.Proofs.Assembly.Spelling
import LC3.Proofs.Image.Digits
import Mathlib.Data.List.Basic

/-!
# What a raw image says

`Uncommented` says what counts of a text: its lines, each up to its comment. If a character there
may not stand in a raw image, the first one is reported. Otherwise nothing but the digits matters:
`WritesWords` says which words they write, and `readRaw_digits` that these are read.
-/

namespace LC3.Image

open Numeral

/-! ## Texts without their comments -/

/-- There is nothing, or a semicolon with a note that goes on to the end of the line. -/
def IsComment (s : List Char) : Prop :=
  '\n' ∉ s ∧ ∀ c ∈ s.head?, c = ';'

/-- The lines of a text without their comments. Only a line feed ends a line. -/
inductive Uncommented : List Char → List (List Char) → Prop where
  | last {line comment : List Char} (hl : '\n' ∉ line ∧ ';' ∉ line) (hc : IsComment comment) :
      Uncommented (line ++ comment) [line]
  | feed {line comment s : List Char} {lines : List (List Char)} (hl : '\n' ∉ line ∧ ';' ∉ line)
      (hc : IsComment comment) (hs : Uncommented s lines) :
      Uncommented (line ++ comment ++ '\n' :: s) (line :: lines)

/-- What stands in front of the first mark belongs to the first part. -/
theorem splitOn_append {mark : Char} {part s first : List Char} {rest : List (List Char)}
    (h : mark ∉ part) (hs : Text.splitOn mark s = first :: rest) :
    Text.splitOn mark (part ++ s) = (part ++ first) :: rest := by
  induction part with
  | nil => exact hs
  | cons c part ih =>
    have hne : c ≠ mark := fun hc => h (hc ▸ List.mem_cons_self)
    have hpart : mark ∉ part := fun hmem => h (List.mem_cons_of_mem c hmem)
    rw [List.cons_append, Text.splitOn, if_neg hne, ih hpart]
    rfl

theorem dropComment_append {line comment : List Char} (hl : ';' ∉ line) (hc : IsComment comment) :
    dropComment (line ++ comment) = line := by
  have hline : ∀ c ∈ line, decide (c ≠ ';') = true := fun c hmem =>
    decide_eq_true fun he => hl (he ▸ hmem)
  rw [dropComment, List.takeWhile_append_of_pos hline]
  cases comment with
  | nil => simp
  | cons c comment => simp [hc.2 c rfl]

theorem Uncommented.eq_lines {s : List Char} {lines : List (List Char)} (h : Uncommented s lines) :
    lines = (rawLines s).map dropComment := by
  unfold rawLines
  induction h with
  | @last line comment hl hc =>
    have hsplit := splitOn_append (s := []) (by simp [hl.1, hc.1] : '\n' ∉ line ++ comment) rfl
    rw [List.append_nil] at hsplit
    rw [hsplit]
    simp [dropComment_append hl.2 hc]
  | @feed line comment s lines hl hc hs ih =>
    rw [splitOn_append (by simp [hl.1, hc.1]) rfl, ih]
    simp [dropComment_append hl.2 hc]

/-- A line is what stands in front of its first semicolon, and a comment. -/
theorem exists_comment {s : List Char} (h : '\n' ∉ s) :
    ∃ line comment, s = line ++ comment ∧ ('\n' ∉ line ∧ ';' ∉ line) ∧ IsComment comment := by
  by_cases hc : ';' ∈ s
  · obtain ⟨line, note, rfl, hline⟩ := List.eq_append_cons_of_mem hc
    have hn : '\n' ∉ line ∧ '\n' ∉ ';' :: note := by simpa using h
    exact ⟨line, ';' :: note, rfl, ⟨hn.1, hline⟩, hn.2, by simp⟩
  · exact ⟨s, [], (List.append_nil s).symm, ⟨h, hc⟩, by simp [IsComment]⟩

theorem exists_uncommented (s : List Char) : ∃ lines, Uncommented s lines := by
  induction hlen : s.length using Nat.strongRecOn generalizing s with
  | _ n ih =>
    subst hlen
    by_cases h : '\n' ∈ s
    · obtain ⟨first, s, rfl, hfirst⟩ := List.eq_append_cons_of_mem h
      obtain ⟨line, comment, rfl, hl, hc⟩ := exists_comment hfirst
      obtain ⟨lines, hs⟩ := ih s.length (by simp; omega) s rfl
      exact ⟨_, .feed hl hc hs⟩
    · obtain ⟨line, comment, rfl, hl, hc⟩ := exists_comment h
      exact ⟨_, .last hl hc⟩

/-- What a text is without its comments is what is left of its lines when they are dropped. -/
theorem uncommented_iff {s : List Char} {lines : List (List Char)} :
    Uncommented s lines ↔ lines = (rawLines s).map dropComment := by
  constructor
  · exact Uncommented.eq_lines
  · rintro rfl
    obtain ⟨lines, h⟩ := exists_uncommented s
    rwa [← h.eq_lines]

/-! ## Strange characters -/

def IsHexDigit (c : Char) : Prop :=
  ('0' ≤ c ∧ c ≤ '9') ∨ ('a' ≤ c ∧ c ≤ 'f') ∨ ('A' ≤ c ∧ c ≤ 'F')

/-- The character is neither white space nor a digit. -/
def Strange (c : Char) : Prop :=
  Text.isBlank c = false ∧ ¬IsHexDigit c

/-- This is the first strange character, and the number of its line. -/
def FirstStrange (lines : List (List Char)) (n : Nat) (c : Char) : Prop :=
  ∃ before l r after, lines = before ++ (l ++ c :: r) :: after ∧ n = before.length + 1 ∧
    Strange c ∧ (∀ line ∈ before, ∀ d ∈ line, ¬Strange d) ∧ ∀ d ∈ l, ¬Strange d

instance (c : Char) : Decidable (IsHexDigit c) :=
  inferInstanceAs (Decidable (_ ∨ _ ∨ _))

theorem isHexDigit_iff (c : Char) : IsHexDigit c ↔ place c < 16 := by
  by_cases hc : c.toNat < 128
  · exact Assembly.forall_ascii (P := fun c => IsHexDigit c ↔ place c < 16) (by decide +kernel) hc
  · have hrange : ¬IsHexDigit c := by
      simp only [IsHexDigit, Char.le_def, UInt32.le_iff_toNat_le]
      change ¬((48 ≤ c.toNat ∧ c.toNat ≤ 57) ∨ (97 ≤ c.toNat ∧ c.toNat ≤ 102) ∨
        (65 ≤ c.toNat ∧ c.toNat ≤ 70))
      omega
    simp [hrange, place_of_le (Nat.not_lt.mp hc)]

theorem isRawChar_iff {c : Char} : isRawChar c = true ↔ ¬Strange c := by
  have hdigit : (digitValue? 16 c).isSome = true ↔ IsHexDigit c := by
    rw [isHexDigit_iff, digitValue?_sixteen]
    split <;> simp [*]
  rw [isRawChar, Bool.or_eq_true, hdigit, Strange, not_and_not_right, Bool.eq_false_iff,
    imp_iff_not_or, Ne, not_not]

theorem firstStrange_of_findBadChar {lines : List (List Char)} {k n : Nat} {c : Char}
    (h : findBadChar k lines = some (n, c)) :
    ∃ before l r after, lines = before ++ (l ++ c :: r) :: after ∧ n = before.length + k ∧
      Strange c ∧ (∀ line ∈ before, ∀ d ∈ line, ¬Strange d) ∧ ∀ d ∈ l, ¬Strange d := by
  induction lines generalizing k with
  | nil => cases h
  | cons line lines ih =>
    rw [findBadChar] at h
    split at h
    · rename_i d hd
      cases h
      obtain ⟨hc, l, r, rfl, hl⟩ := List.find?_eq_some_iff_append.mp hd
      refine ⟨[], l, r, lines, rfl, by simp, ?_, by simp, fun d hd => ?_⟩
      · rwa [Bool.not_eq_true', ← Bool.not_eq_true, isRawChar_iff, not_not] at hc
      · exact isRawChar_iff.mp (by simpa using hl d hd)
    · rename_i hnone
      obtain ⟨before, l, r, after, rfl, rfl, hc, hbefore, hl⟩ := ih h
      have hline : ∀ d ∈ line, ¬Strange d := fun d hd =>
        isRawChar_iff.mp (by simpa using List.find?_eq_none.mp hnone d hd)
      exact ⟨line :: before, l, r, after, rfl, by simp; omega, hc,
        List.forall_mem_cons.mpr ⟨hline, hbefore⟩, hl⟩

/-! ## Words in digits -/

/-- The digits write these words, with `width` digits of the base for each. -/
inductive WritesWords (base width : Nat) : List Char → List Int → Prop where
  | nil : WritesWords base width [] []
  | cons {group ds : List Char} {n : Nat} {ws : List Int} (hl : group.length = width)
      (hn : Digits base group n) (h : WritesWords base width ds ws) :
      WritesWords base width (group ++ ds) (n :: ws)

theorem WritesWords.lt {base width : Nat} (hb : base ≤ 16) {ds : List Char} {ws : List Int}
    (h : WritesWords base width ds ws) : ∀ w ∈ ws, 0 ≤ w ∧ w < base ^ width := by
  induction h with
  | nil => simp
  | @cons group ds n ws hl hn h ih =>
    obtain ⟨values, hvalues, rfl⟩ := (digits_iff hb).mp hn
    have hlt := (writes_of_digitValues? hvalues).1.lt
    rw [hl] at hlt
    exact List.forall_mem_cons.mpr ⟨⟨by omega, by exact_mod_cast hlt⟩, ih⟩

theorem digits_iff_groupValue (b : Base) {s : List Char} {n : Nat} :
    Digits b.radix s n ↔
      s ≠ [] ∧ (∀ c ∈ s, place c < b.radix) ∧ groupValue b s = n := by
  obtain ⟨-, h16, -, -⟩ := b.limits
  have hvalues (hs : ∀ c ∈ s, place c < b.radix) :
      s.filterMap (digitValue? b.radix) = s.map place := by
    refine List.filterMap_eq_map_iff_forall_eq_some.mpr fun c hc => ?_
    rw [digitValue?_eq h16, if_pos (hs c hc)]
  constructor
  · rintro ⟨hne, hs, rfl⟩
    refine ⟨hne, hs, ?_⟩
    rw [groupValue, hvalues hs, valueOf_eq_ofDigits, List.map_reverse]
  · rintro ⟨hne, hs, hn⟩
    rw [groupValue, hvalues hs, valueOf_eq_ofDigits, ← List.map_reverse, Int.ofNat_inj] at hn
    exact ⟨hne, hs, hn.symm⟩

theorem writesWords_flatten (b : Base) {gs : List (List Char)}
    (h : ∀ g ∈ gs, g.length = b.wordDigits ∧ ∀ c ∈ g, place c < b.radix) :
    WritesWords b.radix b.wordDigits gs.flatten (gs.map (groupValue b)) := by
  induction gs with
  | nil => exact .nil
  | cons g gs ih =>
    obtain ⟨⟨hl, hg⟩, hgs⟩ := List.forall_mem_cons.mp h
    obtain ⟨-, -, hpos, -⟩ := b.limits
    have hne : g ≠ [] := List.ne_nil_of_length_pos (by omega)
    exact .cons hl ((digits_iff_groupValue b).mpr ⟨hne, hg, rfl⟩) (ih hgs)

theorem writesWords_iff (b : Base) {ds : List Char} {ws : List Int} :
    WritesWords b.radix b.wordDigits ds ws ↔
      b.wordDigits ∣ ds.length ∧ (∀ c ∈ ds, place c < b.radix) ∧
        ws = (groups b.wordDigits ds).map (groupValue b) := by
  obtain ⟨-, -, hpos, -⟩ := b.limits
  constructor
  · intro h
    induction h with
    | nil => simp [groups]
    | @cons group ds n ws hl hn h ih =>
      obtain ⟨hdvd, hds, rfl⟩ := ih
      obtain ⟨-, hgroup, hvalue⟩ := (digits_iff_groupValue b).mp hn
      refine ⟨?_, List.forall_mem_append.mpr ⟨hgroup, hds⟩, ?_⟩
      · rw [List.length_append, hl]
        exact Nat.dvd_add_self_left.mpr hdvd
      · rw [groups_append hl hpos, List.map_cons, hvalue]
  · rintro ⟨hdvd, hds, rfl⟩
    have hgroups : ∀ g ∈ groups b.wordDigits ds,
        g.length = b.wordDigits ∧ ∀ c ∈ g, place c < b.radix := by
      refine fun g hg => ⟨length_of_mem_groups hpos hdvd hg, fun c hc => hds c ?_⟩
      rw [← flatten_groups b.wordDigits ds]
      exact List.mem_flatten.mpr ⟨g, hg, hc⟩
    have h := writesWords_flatten b hgroups
    rwa [flatten_groups] at h

/-! ## What digits are read as -/

/-- The base of digits, and how many of them make a word. -/
def numeration (ds : List Char) : Nat × Nat :=
  if ds.any fun c => c ≠ '0' && c ≠ '1' then (16, 4) else (2, 16)

theorem baseOf_eq_binary {ds : List Char} :
    baseOf ds = .binary ↔ ∀ c ∈ ds, c = '0' ∨ c = '1' := by
  unfold baseOf
  split <;> simp_all

theorem numeration_eq (ds : List Char) :
    numeration ds = ((baseOf ds).radix, (baseOf ds).wordDigits) := by
  have hany : ds.any (fun c => c ≠ '0' && c ≠ '1') = true ↔ ¬baseOf ds = .binary := by
    simp [baseOf_eq_binary]
  unfold numeration
  cases hb : baseOf ds with
  | binary => exact if_neg fun h => hany.mp h hb
  | hexadecimal => exact if_pos (hany.mpr (by simp [hb]))

theorem place_lt_radix {ds : List Char} (h : ∀ c ∈ ds, IsHexDigit c) :
    ∀ c ∈ ds, place c < (baseOf ds).radix := by
  intro c hc
  cases hb : baseOf ds with
  | binary =>
    rcases baseOf_eq_binary.mp hb c hc with rfl | rfl <;> decide
  | hexadecimal => exact (isHexDigit_iff c).mp (h c hc)

theorem ofDigits_eq_ok {ds : List Char} {p : Program} :
    ofDigits ds = .ok p ↔
      (baseOf ds).wordDigits ∣ ds.length ∧
        (groups (baseOf ds).wordDigits ds).map (groupValue (baseOf ds)) = wordsOf p ∧
          p.symbols = ∅ := by
  rw [← programOf_eq_some, Nat.dvd_iff_mod_eq_zero]
  unfold ofDigits
  split
  · rename_i hn
    simp [hn]
  · rename_i hn
    rw [and_iff_right (not_not.mp hn)]
    cases programOf ((groups (baseOf ds).wordDigits ds).map (groupValue (baseOf ds))) <;> simp

theorem ofDigits_eq_ok_iff_writesWords {ds : List Char} (h : ∀ c ∈ ds, IsHexDigit c)
    {p : Program} :
    ofDigits ds = .ok p ↔
      WritesWords (numeration ds).1 (numeration ds).2 ds (wordsOf p) ∧ p.symbols = ∅ := by
  rw [numeration_eq, writesWords_iff, and_iff_right (place_lt_radix h), ofDigits_eq_ok, and_assoc,
    eq_comm (a := wordsOf p)]

theorem exists_ofDigits_eq_ok {ds : List Char} :
    (∃ p, ofDigits ds = .ok p) ↔ ds ≠ [] ∧ (numeration ds).2 ∣ ds.length := by
  simp only [ofDigits_eq_ok, numeration_eq]
  constructor
  · rintro ⟨p, hdvd, hwords, -⟩
    refine ⟨?_, hdvd⟩
    rintro rfl
    rw [groups] at hwords
    cases hwords
  · rintro ⟨hne, hdvd⟩
    have hwords : (groups (baseOf ds).wordDigits ds).map (groupValue (baseOf ds)) ≠ [] := by
      obtain ⟨c, ds, rfl⟩ := List.exists_cons_of_ne_nil hne
      rw [groups, List.map_cons]
      exact List.cons_ne_nil _ _
    obtain ⟨orig, code, hcons⟩ := List.exists_cons_of_ne_nil hwords
    exact ⟨⟨orig, code, ∅⟩, hdvd, hcons, rfl⟩

theorem programOfRaw_eq_ofDigits {text : String} {lines : List (List Char)}
    (hl : Uncommented text.toList lines) (h : ∀ line ∈ lines, ∀ c ∈ line, ¬Strange c) :
    programOfRaw text = ofDigits (lines.flatten.filter (!Text.isBlank ·)) :=
  programOfRaw_of_lines (uncommented_iff.mp hl).symm fun line hline c hc =>
    isRawChar_iff.mpr (h line hline c hc)

theorem isHexDigit_of_kept {lines : List (List Char)}
    (h : ∀ line ∈ lines, ∀ c ∈ line, ¬Strange c) :
    ∀ c ∈ lines.flatten.filter (!Text.isBlank ·), IsHexDigit c := by
  intro c hc
  obtain ⟨hmem, hb⟩ := List.mem_filter.mp hc
  obtain ⟨line, hline, hc⟩ := List.mem_flatten.mp hmem
  by_contra hn
  exact h line hline c hc ⟨by simpa using hb, hn⟩

theorem programOfRaw_eq_badChar {text : String} {lines : List (List Char)}
    (hl : Uncommented text.toList lines) (h : ∃ line ∈ lines, ∃ c ∈ line, Strange c) :
    ∃ n c, FirstStrange lines n c ∧ programOfRaw text = .error (.badChar n c) := by
  obtain ⟨line, hline, c, hc, hs⟩ := h
  cases hf : findBadChar 1 lines with
  | none => exact absurd hs (isRawChar_iff.mp (findBadChar_eq_none.mp hf line hline c hc))
  | some first =>
    obtain ⟨n, d⟩ := first
    refine ⟨n, d, firstStrange_of_findBadChar hf, ?_⟩
    unfold programOfRaw
    dsimp only
    rewrite [← uncommented_iff.mp hl, hf]
    rfl

theorem message_badChar (n : Nat) (c : Char) :
    ∃ rest, (RawFlaw.badChar n c).message =
      s!"Line {n}: invalid character " ++ Text.quote c.toString ++ rest := by
  -- The equation of `message` unfolds its literals, so the definition is opened without it.
  unfold RawFlaw.message
  dsimp only
  rewrite [String.append_assoc, String.append_assoc]
  exact ⟨_, rfl⟩

/-- What a text is read as. The first character that is neither white space nor a digit, outside of
comments, is reported with its line. If there is none, the text is read by its digits: they are the
words of the program, the origin first, and if they make no words, the text is refused. -/
theorem readRaw_digits (text : String) :
    ∃ lines, Uncommented text.toList lines ∧
      ((∃ line ∈ lines, ∃ c ∈ line, Strange c) →
        ∃ n c rest, FirstStrange lines n c ∧
          readRaw text =
            .failure (s!"Line {n}: invalid character " ++ Text.quote c.toString ++ rest)) ∧
      ((∀ line ∈ lines, ∀ c ∈ line, ¬Strange c) →
        let ds := lines.flatten.filter (!Text.isBlank ·)
        ((∃ p, readRaw text = .success p) ↔ ds ≠ [] ∧ (numeration ds).2 ∣ ds.length) ∧
        (∀ p, readRaw text = .success p ↔
          WritesWords (numeration ds).1 (numeration ds).2 ds (wordsOf p) ∧ p.symbols = ∅) ∧
        (∀ p, readRaw text = .success p → ∀ w ∈ wordsOf p, 0 ≤ w ∧ w ≤ 0xFFFF) ∧
        ∀ text' lines', Uncommented text'.toList lines' →
          (∀ line ∈ lines', ∀ c ∈ line, ¬Strange c) →
          lines'.flatten.filter (!Text.isBlank ·) = ds → readRaw text' = readRaw text) := by
  obtain ⟨lines, hl⟩ := exists_uncommented text.toList
  refine ⟨lines, hl, fun h => ?_, fun h => ?_⟩
  · obtain ⟨n, c, hfirst, hp⟩ := programOfRaw_eq_badChar hl h
    obtain ⟨rest, hm⟩ := message_badChar n c
    exact ⟨n, c, rest, hfirst, by rw [readRaw_of_error hp, hm]⟩
  · intro ds
    have hp : programOfRaw text = ofDigits ds := programOfRaw_eq_ofDigits hl h
    have hread (p : Program) : readRaw text = .success p ↔ ofDigits ds = .ok p := by
      rw [readRaw, hp]
      cases ofDigits ds <;> simp
    have hwords (p : Program) : readRaw text = .success p ↔
        WritesWords (numeration ds).1 (numeration ds).2 ds (wordsOf p) ∧ p.symbols = ∅ :=
      (hread p).trans (ofDigits_eq_ok_iff_writesWords (isHexDigit_of_kept h))
    refine ⟨?_, hwords, fun p hp => ?_, fun text' lines' hl' h' hds => ?_⟩
    · simp only [hread, exists_ofDigits_eq_ok]
    · obtain ⟨hdigits, -⟩ := (hwords p).mp hp
      rw [numeration_eq] at hdigits
      obtain ⟨-, h16, -, hsize⟩ := (baseOf ds).limits
      have hlt := hdigits.lt h16
      rw [← Nat.cast_pow, hsize] at hlt
      intro w hw
      exact ⟨(hlt w hw).1, Int.le_sub_one_of_lt (hlt w hw).2⟩
    · rw [readRaw, readRaw, hp, programOfRaw_eq_ofDigits hl' h', hds]

end LC3.Image
