import Mathlib.Data.List.Forall2
import Mathlib.Data.List.TakeWhile
import LC3.Proofs.Assembly.Readable
import LC3.Proofs.Assembly.Token

/-!
# How lines are cut into tokens

`Lines` says which lines a text has, and `Cut` which tokens a line has: nothing of the line is left
out but separators and the comment. `tokenize_eq_iff` shows that these are the tokens that the
tokenizer finds.
-/

namespace LC3.Assembly

/-! ## Tokens -/

/-- What a quoted string is made of: single characters, and backslashes with the character behind
them. -/
inductive IsItem : List Char → Prop where
  | plain {c : Char} (hq : c ≠ '"') (hb : c ≠ '\\') : IsItem [c]
  | pair (c : Char) : IsItem ['\\', c]

/-- The text ends at its first quotation mark that is not behind a backslash. -/
def Closes (s : List Char) : Prop :=
  ∃ items : List (List Char), (∀ i ∈ items, IsItem i) ∧ s = items.flatten ++ ['"']

/-- A complete quoted string. -/
def IsQuoted (t : List Char) : Prop :=
  ∃ body, t = '"' :: body ∧ Closes body

/-- No blank, comma or semicolon is in a word. -/
def IsWord (t : List Char) : Prop :=
  t ≠ [] ∧ ∀ c ∈ t, inWord c = true

/-- The text begins with a quotation mark that is never closed. -/
def LeftOpen (s : List Char) : Prop :=
  s.head? = some '"' ∧ ∀ t, t <+: s → ¬IsQuoted t

/-- The line is cut into these tokens. Quotation marks have no meaning unless `strings` holds. -/
inductive Cut : Bool → List Char → List (List Char) → Prop where
  /-- Separators, and a comment if there is one. -/
  | done {strings : Bool} {gap comment : List Char} (hg : ∀ c ∈ gap, isSeparator c = true)
      (hc : ∀ c ∈ comment.head?, c = ';') : Cut strings (gap ++ comment) []
  /-- A word goes on as far as it can. -/
  | word {strings : Bool} {gap t rest : List Char} {tokens : List (List Char)}
      (hg : ∀ c ∈ gap, isSeparator c = true) (ht : IsWord t)
      (hq : strings = true → t.head? ≠ some '"') (hr : ∀ c ∈ rest.head?, inWord c = false)
      (h : Cut strings rest tokens) : Cut strings (gap ++ t ++ rest) (t :: tokens)
  | quoted {gap t rest : List Char} {tokens : List (List Char)}
      (hg : ∀ c ∈ gap, isSeparator c = true) (ht : IsQuoted t) (h : Cut true rest tokens) :
      Cut true (gap ++ t ++ rest) (t :: tokens)
  /-- From a mark that is left open on there are only words. -/
  | leftOpen {gap rest : List Char} {tokens : List (List Char)}
      (hg : ∀ c ∈ gap, isSeparator c = true) (ho : LeftOpen rest) (h : Cut false rest tokens) :
      Cut true (gap ++ rest) tokens

/-- The text has these lines. All but the last end at a line feed, or at a carriage return and a line
feed. -/
inductive Lines : List Char → List (List Char) → Prop where
  | last {line : List Char} (h : '\n' ∉ line) : Lines line [line]
  | feed {line s : List Char} {lines : List (List Char)} (h : '\n' ∉ line)
      (hr : line.getLast? ≠ some '\r') (hs : Lines s lines) : Lines (line ++ '\n' :: s) (line :: lines)
  | returnFeed {line s : List Char} {lines : List (List Char)} (h : '\n' ∉ line)
      (hs : Lines s lines) : Lines (line ++ '\r' :: '\n' :: s) (line :: lines)

/-! ## Quoted strings -/

theorem closeQuote_plain {c : Char} (hq : c ≠ '"') (hb : c ≠ '\\') (s : List Char) :
    closeQuote (c :: s) = (closeQuote s).map fun (body, rest) => (c :: body, rest) := by
  rw [closeQuote]
  · exact hq
  · exact fun _ _ h => absurd h hb

theorem closeQuote_eq_some {s body rest : List Char} :
    closeQuote s = some (body, rest) ↔ body ++ rest = s ∧ Closes body := by
  constructor
  · intro h
    refine ⟨closeQuote_append h, ?_⟩
    fun_induction closeQuote s generalizing body with
    | case1 => cases h
    | case2 s =>
      cases h
      exact ⟨[], by simp, rfl⟩
    | case3 c s ih =>
      obtain ⟨⟨b, r⟩, hc, he⟩ := Option.map_eq_some_iff.mp h
      cases he
      obtain ⟨items, hi, rfl⟩ := ih hc
      exact ⟨['\\', c] :: items, List.forall_mem_cons.mpr ⟨.pair c, hi⟩, rfl⟩
    | case4 c s hq hb ih =>
      obtain ⟨⟨b, r⟩, hc, he⟩ := Option.map_eq_some_iff.mp h
      cases he
      obtain ⟨items, hi, rfl⟩ := ih hc
      -- A backslash at the end of the text would leave the string open.
      have hb : c ≠ '\\' := by
        rintro rfl
        cases s with
        | nil => cases hc
        | cons d s => exact hb d s rfl rfl
      exact ⟨[c] :: items, List.forall_mem_cons.mpr ⟨.plain hq hb, hi⟩, rfl⟩
  · rintro ⟨rfl, items, hi, rfl⟩
    induction items with
    | nil => rfl
    | cons i items ih =>
      obtain ⟨hi, his⟩ := List.forall_mem_cons.mp hi
      have ih := ih his
      cases hi with
      | plain hq hb => exact (closeQuote_plain hq hb _).trans (congrArg (Option.map _) ih)
      | pair c => exact congrArg (Option.map _) ih

theorem closeQuote_eq_none {s : List Char} : closeQuote s = none ↔ LeftOpen ('"' :: s) := by
  constructor
  · intro h
    refine ⟨rfl, ?_⟩
    rintro t ⟨rest, ht⟩ ⟨body, rfl, hb⟩
    have hs : body ++ rest = s := (List.cons.inj ht).2
    rw [closeQuote_eq_some.mpr ⟨hs, hb⟩] at h
    cases h
  · rintro ⟨-, ho⟩
    cases h : closeQuote s with
    | none => rfl
    | some p =>
      obtain ⟨body, rest⟩ := p
      obtain ⟨rfl, hb⟩ := closeQuote_eq_some.mp h
      exact absurd ⟨body, rfl, hb⟩ (ho ('"' :: body) ⟨rest, rfl⟩)

theorem lineTokens_quoted {s body rest : List Char} (h : closeQuote s = some (body, rest)) :
    lineTokens ('"' :: s) = ('"' :: body) :: lineTokens rest := by
  rw [lineTokens, if_neg (by decide), if_neg (by decide), if_pos rfl]
  split
  · rename_i body' rest' h'
    rw [h] at h'
    cases h'
    rfl
  · rename_i h'
    rw [h] at h'
    cases h'

theorem lineTokens_leftOpen {s : List Char} (h : closeQuote s = none) :
    lineTokens ('"' :: s) = words ('"' :: s) := by
  rw [lineTokens, if_neg (by decide), if_neg (by decide), if_pos rfl]
  split
  · rename_i h'
    rw [h] at h'
    cases h'
  · rfl

/-! ## Words -/

theorem words_separator {c : Char} (hc : isSeparator c = true) (s : List Char) :
    words (c :: s) = words s := by
  have hne : c ≠ ';' := by
    rintro rfl
    revert hc
    decide
  rw [words, if_neg hne, if_pos hc]

theorem words_word {c : Char} {t s : List Char} (ht : ∀ d ∈ c :: t, inWord d = true)
    (hs : ∀ d ∈ s.head?, inWord d = false) : words (c :: t ++ s) = (c :: t) :: words s := by
  obtain ⟨hc, ht⟩ := List.forall_mem_cons.mp ht
  obtain ⟨hsep, hsemi⟩ := inWord_iff.mp hc
  obtain ⟨htake, hdrop⟩ := span_inWord ht hs
  rw [List.cons_append, words, if_neg hsemi, hsep, if_neg Bool.false_ne_true, htake, hdrop]

/-- The tokens of a line, where quotation marks have a meaning or have none. -/
def scan (strings : Bool) (line : List Char) : List (List Char) :=
  if strings then lineTokens line else words line

theorem scan_gap {strings : Bool} {gap : List Char} (hg : ∀ c ∈ gap, isSeparator c = true)
    (s : List Char) : scan strings (gap ++ s) = scan strings s := by
  induction gap with
  | nil => rfl
  | cons c gap ih =>
    obtain ⟨hc, hg⟩ := List.forall_mem_cons.mp hg
    rw [← ih hg, List.cons_append]
    cases strings with
    | false => exact words_separator hc _
    | true => exact lineTokens_separator hc _

/-! ## Cutting -/

/-- Whatever a line is cut into, the tokenizer finds. -/
theorem Cut.eq_scan {strings : Bool} {line : List Char} {tokens : List (List Char)}
    (h : Cut strings line tokens) : tokens = scan strings line := by
  induction h with
  | @done strings gap comment hg hc =>
    rw [scan_gap hg]
    cases comment with
    | nil => cases strings <;> simp [scan, words, lineTokens]
    | cons c s =>
      obtain rfl := hc c rfl
      cases strings <;> simp [scan, words, lineTokens]
  | @word strings gap t rest tokens hg ht hq hr h ih =>
    obtain ⟨hne, ht⟩ := ht
    obtain ⟨c, t, rfl⟩ := List.exists_cons_of_ne_nil hne
    rw [List.append_assoc, scan_gap hg, ih]
    cases strings with
    | false => exact (words_word ht hr).symm
    | true => exact (lineTokens_word ht (by simpa using hq rfl) hr).symm
  | @quoted gap t rest tokens hg ht h ih =>
    obtain ⟨body, rfl, hb⟩ := ht
    rw [List.append_assoc, scan_gap hg, ih]
    exact (lineTokens_quoted (closeQuote_eq_some.mpr ⟨rfl, hb⟩)).symm
  | @leftOpen gap rest tokens hg ho h ih =>
    rw [scan_gap hg, ih]
    obtain ⟨s, rfl⟩ := List.head?_eq_some_iff.mp ho.1
    exact (lineTokens_leftOpen (closeQuote_eq_none.mpr ho)).symm

theorem Cut.separator {strings : Bool} {c : Char} {line : List Char} {tokens : List (List Char)}
    (hc : isSeparator c = true) (h : Cut strings line tokens) : Cut strings (c :: line) tokens := by
  have hgap {gap : List Char} (hg : ∀ d ∈ gap, isSeparator d = true) :
      ∀ d ∈ c :: gap, isSeparator d = true := List.forall_mem_cons.mpr ⟨hc, hg⟩
  cases h with
  | done hg hcomment => exact .done (hgap hg) hcomment
  | word hg ht hq hr h => exact .word (hgap hg) ht hq hr h
  | quoted hg ht h => exact .quoted (hgap hg) ht h
  | leftOpen hg ho h => exact .leftOpen (hgap hg) ho h

theorem Cut.nil (strings : Bool) : Cut strings [] [] :=
  @done strings [] [] (by simp) (by simp)

theorem Cut.comment (strings : Bool) (s : List Char) : Cut strings (';' :: s) [] :=
  @done strings [] (';' :: s) (by simp) (by simp)

/-- A word that goes on as far as it can, at the beginning of a line. -/
theorem Cut.span {strings : Bool} {c : Char} {s : List Char} {tokens : List (List Char)}
    (hc : inWord c = true) (hq : strings = true → c ≠ '"')
    (h : Cut strings (s.dropWhile inWord) tokens) :
    Cut strings (c :: s) ((c :: s.takeWhile inWord) :: tokens) := by
  have ht : ∀ d ∈ c :: s.takeWhile inWord, inWord d = true := by
    refine List.forall_mem_cons.mpr ⟨hc, fun d hd => ?_⟩
    exact List.mem_takeWhile_imp hd
  have hr : ∀ d ∈ (s.dropWhile inWord).head?, inWord d = false := by
    intro d hd
    rw [Option.mem_def, ← List.find?_not_eq_head?_dropWhile] at hd
    simpa using List.find?_some hd
  have hline : [] ++ (c :: s.takeWhile inWord) ++ s.dropWhile inWord = c :: s := by
    simp [List.takeWhile_append_dropWhile]
  rw [← hline]
  exact .word (by simp) ⟨List.cons_ne_nil _ _, ht⟩ (by simpa using hq) hr h

theorem cut_words (line : List Char) : Cut false line (words line) := by
  fun_induction words line with
  | case1 => exact .nil false
  | case2 s => exact .comment false s
  | case3 c s hsemi hsep ih => exact ih.separator hsep
  | case4 c s hsemi hsep ih =>
    exact .span (inWord_iff.mpr ⟨by simpa using hsep, hsemi⟩) (by simp) ih

theorem cut_lineTokens (line : List Char) : Cut true line (lineTokens line) := by
  fun_induction lineTokens line with
  | case1 => exact .nil true
  | case2 s => exact .comment true s
  | case3 c s hsemi hsep ih => exact ih.separator hsep
  | case4 s body rest hclose hsemi hsep ih =>
    obtain ⟨rfl, hb⟩ := closeQuote_eq_some.mp hclose
    exact @Cut.quoted [] ('"' :: body) rest _ (by simp) ⟨body, rfl, hb⟩ ih
  | case5 s hopen hsemi hsep =>
    exact @Cut.leftOpen [] _ _ (by simp) (closeQuote_eq_none.mp hopen) (cut_words _)
  | case6 c s hsemi hsep hq ih =>
    exact .span (inWord_iff.mpr ⟨by simpa using hsep, hsemi⟩) (fun _ => hq) ih

theorem cut_iff {line : List Char} {tokens : List (List Char)} :
    Cut true line tokens ↔ tokens = lineTokens line := by
  refine ⟨Cut.eq_scan, ?_⟩
  rintro rfl
  exact cut_lineTokens line

/-! ## Lines -/

/-- What stands in front of the first line end belongs to the first line. -/
theorem splitLines_append {line s first : List Char} {lines : List (List Char)} (h : '\n' ∉ line)
    (hr : line.getLast? = some '\r' → s.head? ≠ some '\n') (hs : splitLines s = first :: lines) :
    splitLines (line ++ s) = (line ++ first) :: lines := by
  induction line with
  | nil => exact hs
  | cons c line ih =>
    have hn : c ≠ '\n' := by
      rintro rfl
      exact h List.mem_cons_self
    have hline : '\n' ∉ line := fun hmem => h (List.mem_cons_of_mem c hmem)
    have hlast : line.getLast? = some '\r' → s.head? ≠ some '\n' := by
      intro hl
      exact hr (by rw [List.getLast?_cons, hl]; rfl)
    rw [List.cons_append, splitLines, ih hline hlast]
    · rfl
    · -- The rest would begin with a line feed behind the carriage return `c`.
      rintro s' rfl hs'
      cases line with
      | nil => exact hr rfl (congrArg List.head? hs')
      | cons d line => exact hline (by simp [(List.cons.inj hs').1])
    · exact hn

theorem Lines.eq_splitLines {s : List Char} {lines : List (List Char)} (h : Lines s lines) :
    lines = splitLines s := by
  induction h with
  | @last line h =>
    have := splitLines_append h (by simp) (s := []) rfl
    simpa using this.symm
  | @feed line s lines h hr hs ih =>
    have := splitLines_append h (fun hl => absurd hl hr) (s := '\n' :: s) rfl
    simpa [ih] using this.symm
  | @returnFeed line s lines h hs ih =>
    have := splitLines_append h (by simp) (s := '\r' :: '\n' :: s) rfl
    simpa [ih] using this.symm

/-- A character that ends no line goes to the first line. -/
theorem Lines.cons {c : Char} {s line : List Char} {lines : List (List Char)}
    (hn : c ≠ '\n') (hr : c = '\r' → s.head? ≠ some '\n') (h : Lines s (line :: lines)) :
    Lines (c :: s) ((c :: line) :: lines) := by
  have hmem {line : List Char} (h : '\n' ∉ line) : '\n' ∉ c :: line :=
    fun hm => (List.mem_cons.mp hm).elim (fun hc => hn hc.symm) h
  cases h with
  | last h => exact .last (hmem h)
  | @feed line s lines h hl hs =>
    refine .feed (hmem h) ?_ hs
    cases line with
    | nil => simpa using fun hc => hr hc rfl
    | cons d line => simpa using hl
  | returnFeed h hs => exact .returnFeed (hmem h) hs

theorem lines_splitLines (s : List Char) : Lines s (splitLines s) := by
  fun_induction splitLines s with
  | case1 => exact .last (by simp)
  | case2 s ih => exact @Lines.returnFeed [] s _ (by simp) ih
  | case3 s ih => exact @Lines.feed [] s _ (by simp) (by simp) ih
  | case4 c s hcr hn hs ih =>
    rw [hs] at ih
    cases ih
  | case5 c s hcr hn line lines hs ih =>
    rw [hs] at ih
    refine ih.cons hn ?_
    rintro rfl hh
    obtain ⟨s', rfl⟩ := List.head?_eq_some_iff.mp hh
    exact hcr s' rfl rfl

theorem lines_iff {s : List Char} {lines : List (List Char)} :
    Lines s lines ↔ lines = splitLines s := by
  refine ⟨Lines.eq_splitLines, ?_⟩
  rintro rfl
  exact lines_splitLines s

/-! ## Texts -/

theorem map_toList_eq_iff {ts : List String} {us : List (List Char)} :
    ts.map String.toList = us ↔ us.map String.ofList = ts := by
  constructor
  · rintro rfl
    simp [Function.comp_def]
  · rintro rfl
    simp [Function.comp_def]

/-- The tokens of a text are what its lines are cut into, and there is no other way to cut them. -/
theorem tokenize_eq_iff (text : String) (tokens : List (List String)) :
    tokenize text = tokens ↔
      ∃ lines, Lines text.toList lines ∧
        List.Forall₂ (fun line ts => Cut true line (ts.map String.toList)) lines tokens := by
  have hline (line : List Char) (ts : List String) :
      (lineTokens line).map String.ofList = ts ↔ Cut true line (ts.map String.toList) := by
    rw [cut_iff, map_toList_eq_iff]
  simp only [lines_iff, exists_eq_left, ← hline]
  rw [← List.forall₂_map_left_iff, List.forall₂_eq_eq_eq]
  rfl

end LC3.Assembly
