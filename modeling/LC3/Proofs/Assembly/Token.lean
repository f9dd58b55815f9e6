import LC3.Assembly.Token
import LC3.Proofs.Numeral

/-!
# Tokens of printed lines

`Shows text tokens` says that a text without line ends is split into these tokens. A line that is
put together from plain words, blanks, commas and a comment shows its words, and `tokenize_lines`
takes this to whole texts.
-/

namespace LC3.Assembly

/-! ## Characters -/

/-- The characters that printed words are made of. -/
def isPlainChar (c : Char) : Bool :=
  c.isAlphanum || c = '_' || c = '#' || c = '-' || c = '.'

theorem inWord_of_isPlainChar {c : Char} (h : isPlainChar c = true) :
    inWord c = true ∧ c ≠ '"' ∧ c ≠ '\n' ∧ c ≠ '\r' := by
  have hr : 33 ≤ c.toNat ∧ c.toNat ≤ 126 ∧ c.toNat ≠ 34 ∧ c.toNat ≠ 44 ∧ c.toNat ≠ 59 := by
    simp only [isPlainChar, Bool.or_eq_true, decide_eq_true_eq, Numeral.isAlphanum_iff] at h
    rcases h with (((h | rfl) | rfl) | rfl) | rfl
    · omega
    all_goals decide
  have hb : Text.isBlank c = false := by
    simp only [Text.isBlank, Text.CodeRange.covers, Text.blankRanges]
    simp
    omega
  have hne : ∀ d : Char, d.toNat < 33 ∨ d.toNat = 34 ∨ d.toNat = 44 ∨ d.toNat = 59 → c ≠ d := by
    rintro d hd rfl
    omega
  refine ⟨?_, hne '"' (by decide), hne '\n' (by decide), hne '\r' (by decide)⟩
  unfold inWord isSeparator
  rw [hb, decide_eq_false (hne ',' (by decide)), decide_eq_true (hne ';' (by decide))]
  rfl

/-- A word that is printed as it is and read back as one token. -/
def Plain (t : String) : Prop :=
  t ≠ "" ∧ t.toList.all isPlainChar = true

instance (t : String) : Decidable (Plain t) :=
  inferInstanceAs (Decidable (t ≠ "" ∧ t.toList.all isPlainChar = true))

/-- The text has no line end. -/
def OneLine (t : String) : Prop :=
  t.toList.all (fun c => c ≠ '\n' && c ≠ '\r') = true

instance (t : String) : Decidable (OneLine t) :=
  inferInstanceAs (Decidable (_ = true))

theorem Plain.char {t : String} (h : Plain t) {c : Char} (hc : c ∈ t.toList) :
    isPlainChar c = true :=
  List.all_eq_true.mp h.2 c hc

theorem Plain.append {t u : String} (ht : Plain t) (hu : u.toList.all isPlainChar = true) :
    Plain (t ++ u) := by
  refine ⟨by simp [ht.1], ?_⟩
  rw [String.toList_append, List.all_append, ht.2, hu]
  rfl

theorem Plain.oneLine {t : String} (h : Plain t) : OneLine t := by
  refine List.all_eq_true.mpr fun c hc => ?_
  obtain ⟨-, -, hn, hr⟩ := inWord_of_isPlainChar (h.char hc)
  simp [hn, hr]

theorem OneLine.append {t u : String} (ht : OneLine t) (hu : OneLine u) : OneLine (t ++ u) := by
  rw [OneLine, String.toList_append, List.all_append, ht, hu]
  rfl

/-! ## One line -/

theorem lineTokens_separator {c : Char} (hc : isSeparator c = true) (s : List Char) :
    lineTokens (c :: s) = lineTokens s := by
  have hne : c ≠ ';' := by
    rintro rfl
    revert hc
    decide
  rw [lineTokens, if_neg hne, if_pos hc]

theorem lineTokens_blanks (k : Nat) (s : List Char) :
    lineTokens (List.replicate k ' ' ++ s) = lineTokens s := by
  induction k with
  | zero => rfl
  | succ k ih =>
    rw [List.replicate_succ, List.cons_append, lineTokens_separator (by decide), ih]

theorem lineTokens_comment (s : List Char) : lineTokens (';' :: s) = [] := by
  rw [lineTokens, if_pos rfl]

theorem span_inWord {t s : List Char} (ht : ∀ c ∈ t, inWord c = true)
    (hs : ∀ c ∈ s.head?, inWord c = false) :
    (t ++ s).takeWhile inWord = t ∧ (t ++ s).dropWhile inWord = s := by
  have hstop : s.takeWhile inWord = [] ∧ s.dropWhile inWord = s := by
    cases s with
    | nil => exact ⟨rfl, rfl⟩
    | cons d s =>
      have hd := hs d (by simp)
      simp [hd]
  rw [List.takeWhile_append_of_pos ht, List.dropWhile_append_of_pos ht, hstop.1, hstop.2,
    List.append_nil]
  exact ⟨rfl, rfl⟩

theorem inWord_iff {c : Char} : inWord c = true ↔ isSeparator c = false ∧ c ≠ ';' := by
  simp [inWord]

theorem lineTokens_word {c : Char} {t s : List Char} (ht : ∀ d ∈ c :: t, inWord d = true)
    (hq : c ≠ '"') (hs : ∀ d ∈ s.head?, inWord d = false) :
    lineTokens (c :: t ++ s) = (c :: t) :: lineTokens s := by
  obtain ⟨hc, ht⟩ := List.forall_mem_cons.mp ht
  obtain ⟨hsep, hsemi⟩ := inWord_iff.mp hc
  obtain ⟨htake, hdrop⟩ := span_inWord ht hs
  rw [List.cons_append, lineTokens, if_neg hsemi, hsep, if_neg Bool.false_ne_true, if_neg hq, htake,
    hdrop]

theorem lineTokens_plain {t s : List Char} (hne : t ≠ []) (ht : ∀ c ∈ t, isPlainChar c = true)
    (hs : ∀ c ∈ s.head?, inWord c = false) : lineTokens (t ++ s) = t :: lineTokens s := by
  obtain ⟨c, t, rfl⟩ := List.exists_cons_of_ne_nil hne
  have hq := (inWord_of_isPlainChar (ht c List.mem_cons_self)).2.1
  exact lineTokens_word (fun d hd => (inWord_of_isPlainChar (ht d hd)).1) hq hs

/-- The text stands on one line and is split into these tokens. -/
structure Shows (text : String) (tokens : List String) : Prop where
  oneLine : OneLine text
  tokens : (lineTokens text.toList).map String.ofList = tokens

namespace Shows

variable {text : String} {tokens : List String}

theorem nil : Shows "" [] :=
  ⟨by decide, by simp [lineTokens]⟩

theorem blanks (h : Shows text tokens) (k : Nat) :
    Shows (String.ofList (List.replicate k ' ') ++ text) tokens := by
  refine ⟨OneLine.append ?_ h.oneLine, ?_⟩
  · simp [OneLine]
  · rw [String.toList_append, String.toList_ofList, lineTokens_blanks, h.tokens]

theorem blank (h : Shows text tokens) : Shows (" " ++ text) tokens :=
  h.blanks 1

theorem comma (h : Shows text tokens) : Shows (", " ++ text) tokens := by
  have hl : (", " ++ text).toList = ',' :: (" " ++ text).toList := by
    rw [String.toList_append, String.toList_append]
    rfl
  refine ⟨OneLine.append (by decide) h.oneLine, ?_⟩
  rw [hl, lineTokens_separator (by decide), h.blank.tokens]

theorem comment {note : String} (h : OneLine note) : Shows (";" ++ note) [] := by
  have hl : (";" ++ note).toList = ';' :: note.toList := String.toList_append
  refine ⟨OneLine.append (by decide) h, ?_⟩
  rw [hl, lineTokens_comment]
  rfl

/-- A plain word in front of a text that does not go on with it. -/
theorem word {t : String} (ht : Plain t) (h : Shows text tokens)
    (hs : ∀ c ∈ text.toList.head?, inWord c = false) : Shows (t ++ text) (t :: tokens) := by
  have hne : t.toList ≠ [] := by simpa using ht.1
  refine ⟨ht.oneLine.append h.oneLine, ?_⟩
  rw [String.toList_append, lineTokens_plain hne (fun c hc => ht.char hc) hs, List.map_cons,
    h.tokens, String.ofList_toList]

theorem plain {t : String} (h : Plain t) : Shows t [t] := by
  simpa using nil.word h (by simp)

/-- Words with commas between them. -/
theorem operands {os : List String} (h : ∀ o ∈ os, Plain o) : Shows (", ".intercalate os) os := by
  induction os with
  | nil => exact nil
  | cons o os ih =>
    have ho := h o (by simp)
    have ih := ih fun o' ho' => h o' (by simp [ho'])
    cases os with
    | nil =>
      rw [String.intercalate_singleton]
      exact plain ho
    | cons o' os =>
      rw [String.intercalate_cons_cons, String.append_assoc]
      exact ih.comma.word ho (by simp +decide)

end Shows

/-! ## Texts -/

theorem splitLines_cons {l : List Char} (h : l.all (fun c => c ≠ '\n' && c ≠ '\r') = true)
    (s : List Char) : splitLines (l ++ '\n' :: s) = l :: splitLines s := by
  induction l with
  | nil => simp [splitLines]
  | cons c l ih =>
    simp only [List.all_cons, Bool.and_eq_true, decide_eq_true_eq] at h
    obtain ⟨⟨hn, hr⟩, hl⟩ := h
    have ih := ih (by simpa using hl)
    rw [List.cons_append, splitLines, ih]
    · intro s' he
      exact absurd he hr
    · exact hn

theorem Shows.tokenize_cons {line : String} {tokens : List String} (h : Shows line tokens)
    (s : String) : tokenize (line ++ "\n" ++ s) = tokens :: tokenize s := by
  have hlf : ("\n" : String).toList = ['\n'] := rfl
  rw [tokenize, String.toList_append, String.toList_append, hlf, List.append_assoc,
    List.singleton_append, splitLines_cons h.oneLine, List.map_cons, h.tokens]
  rfl

/-- Lines that are put together show their tokens line by line. The last line is empty. -/
theorem tokenize_lines {lines : List String} {tokens : List (List String)} (hne : lines ≠ [])
    (h : List.Forall₂ Shows lines tokens) :
    tokenize ("\n".intercalate lines ++ "\n") = tokens ++ [[]] := by
  induction h with
  | nil => exact absurd rfl hne
  | @cons l ts lines tokens hl hrest ih =>
    cases lines with
    | nil =>
      cases hrest
      have hempty : tokenize "" = [[]] := by simp [tokenize, splitLines, lineTokens]
      rw [String.intercalate_singleton, ← String.append_empty (s := l ++ "\n"), hl.tokenize_cons,
        hempty]
      rfl
    | cons l' lines =>
      rw [String.intercalate_cons_cons, String.append_assoc, hl.tokenize_cons, ih (by simp)]
      rfl

end LC3.Assembly
