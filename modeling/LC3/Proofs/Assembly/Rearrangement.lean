import LC3.Proofs.Assembly.Grammar
import LC3.Proofs.Assembly.Token
import Mathlib.Logic.Relation

/-!
# Rearranged sources

The same program can be written in many ways. `Edit` is one change of the token lines that only
concerns how they are written: empty lines, a label above its line instead of in it, the letter case
of the names that the assembler knows, and whatever stands behind the end. Every edit keeps the
program that the lines mean, and with it what is assembled (`assemble_edited`).
-/

namespace LC3.Assembly

/-! ## Empty lines -/

/-- A line without tokens is blank, up to commas, or a comment stands in it. -/
theorem lineTokens_eq_nil_iff {s : List Char} :
    lineTokens s = [] ↔ ∃ blanks comment, s = blanks ++ comment ∧
      (∀ c ∈ blanks, isSeparator c = true) ∧ ∀ c ∈ comment.head?, c = ';' := by
  constructor
  · intro h
    induction s with
    | nil => exact ⟨[], [], rfl, by simp, by simp⟩
    | cons c s ih =>
      by_cases hc : c = ';'
      · exact ⟨[], c :: s, rfl, by simp, by simpa using hc⟩
      by_cases hs : isSeparator c = true
      · rw [lineTokens_separator hs] at h
        obtain ⟨blanks, comment, rfl, hb, hcomment⟩ := ih h
        exact ⟨c :: blanks, comment, rfl, List.forall_mem_cons.mpr ⟨hs, hb⟩, hcomment⟩
      · rw [lineTokens, if_neg hc, if_neg hs] at h
        split at h
        · split at h
          · cases h
          · rw [words, if_neg hc, if_neg hs] at h
            cases h
        · cases h
  · rintro ⟨blanks, comment, rfl, hb, hcomment⟩
    induction blanks with
    | nil =>
      cases comment with
      | nil => rw [List.nil_append, lineTokens]
      | cons c s =>
        obtain rfl : c = ';' := hcomment c rfl
        exact lineTokens_comment s
    | cons c blanks ih =>
      obtain ⟨hc, hb⟩ := List.forall_mem_cons.mp hb
      rw [List.cons_append, lineTokens_separator hc, ih hb]

/-! ## Letter case -/

/-- The texts are the same up to the case of ASCII letters. -/
def SameLetters (s t : String) : Prop :=
  s.toList.map Char.toUpper = t.toList.map Char.toUpper

instance (s t : String) : Decidable (SameLetters s t) :=
  inferInstanceAs (Decidable (_ = _))

theorem upperChar_toUpper (c : Char) : Text.upperChar c.toUpper = Text.upperChar c := by
  by_cases hc : c.toNat < 128
  · exact forall_ascii (P := fun d => Text.upperChar d.toUpper = Text.upperChar d)
      (by decide +kernel) hc
  · -- Only the letters from `a` to `z` have another upper case.
    have hsame : c.toUpper = c := by
      unfold Char.toUpper
      split
      · rename_i h
        have hle : c.toNat ≤ 122 := h.2
        omega
      · rfl
    rw [hsame]

theorem SameLetters.upper_eq {s t : String} (h : SameLetters s t) :
    Text.upper s = Text.upper t := by
  have hmap (u : String) : Text.upper u = String.ofList ((u.toList.map Char.toUpper).flatMap
      Text.upperChar) := by
    rw [Text.upper, List.flatMap_map]
    simp only [upperChar_toUpper]
  rw [hmap, hmap, h]

theorem Stands.sameLetters {symbols : SymbolTable} {a : Int} {name name' : String}
    {operands : List String} {ws : List Word} (h : Stands symbols a name operands ws)
    (hn : SameLetters name name') : Stands symbols a name' operands ws := by
  cases h with
  | instruction h => exact .instruction (hn.upper_eq ▸ h)
  | fill hu h => exact .fill (hn.upper_eq ▸ hu) h
  | block hu h => exact .block (hn.upper_eq ▸ hu) h
  | string hu h => exact .string (hn.upper_eq ▸ hu) h

/-! ## Edits -/

/-- The line ends a program; it may have a label. -/
inductive EndLine : List String → Prop where
  | bare {stop : String} {ignored : List String} (he : Text.upper stop = ".END") :
      EndLine (stop :: ignored)
  | labelled {label stop : String} {ignored : List String} (hl : IsLabel label)
      (he : Text.upper stop = ".END") : EndLine (label :: stop :: ignored)

/-- One change of token lines that leaves the program as it is. -/
inductive Edit : List (List String) → List (List String) → Prop where
  /-- An empty line, which is blank or has just a comment (`lineTokens_eq_nil_iff`). -/
  | insert (lines : List (List String)) : Edit lines ([] :: lines)
  | delete (lines : List (List String)) : Edit ([] :: lines) lines
  /-- A label moves to a line of its own. -/
  | detach {label : String} (hl : IsLabel label) (name : String) (operands : List String)
      (lines : List (List String)) :
      Edit ((label :: name :: operands) :: lines) ([label] :: (name :: operands) :: lines)
  /-- Another letter case of the name that begins a line. -/
  | recase {name name' : String} (hl : ¬IsLabel name) (hn : SameLetters name name')
      (operands : List String) (lines : List (List String)) :
      Edit ((name :: operands) :: lines) ((name' :: operands) :: lines)
  /-- Another letter case of the name behind a label. -/
  | recaseLabelled {label name name' : String} (hl : IsLabel label) (hn : SameLetters name name')
      (operands : List String) (lines : List (List String)) :
      Edit ((label :: name :: operands) :: lines) ((label :: name' :: operands) :: lines)
  /-- Other lines behind the end. -/
  | behind {line : List String} (he : EndLine line) (rest rest' : List (List String)) :
      Edit (line :: rest) (line :: rest')
  /-- An edit further down. -/
  | later (line : List String) {lines lines' : List (List String)} (h : Edit lines lines') :
      Edit (line :: lines) (line :: lines')

section Names

variable {symbols : SymbolTable} {a : Int} {name : String} {operands : List String}
  {ws : List Word}

theorem IsLabel.not_origin (hl : IsLabel name) : Text.upper name ≠ ".ORIG" := fun ho =>
  head?_of_isLabelName hl.1 (head?_upper (by rw [ho]; decide))

theorem IsLabel.not_end (hl : IsLabel name) : Text.upper name ≠ ".END" :=
  of_decide_eq_false (isEnd_of_isLabelName hl.1)

theorem Stands.not_end (h : Stands symbols a name operands ws) : Text.upper name ≠ ".END" :=
  of_decide_eq_false h.isCommand.2

theorem Stands.not_isLabel (h : Stands symbols a name operands ws) : ¬IsLabel name := fun hl => by
  have := h.isCommand.1.symm.trans hl.2
  cases this

end Names

theorem Edit.programLines {symbols : SymbolTable} {a : Int} {lines lines' : List (List String)}
    {bs : List (String × Int)} {ws : List Word} (h : Edit lines lines')
    (hp : ProgramLines symbols a lines bs ws) : ProgramLines symbols a lines' bs ws := by
  induction h generalizing a bs ws with
  | insert lines => exact .empty hp
  | delete lines =>
    cases hp with
    | empty hp => exact hp
  | detach hl name operands lines =>
    cases hp with
    | stop he => exact absurd he hl.not_end
    | labelledStop _ he => exact .label hl (.stop he)
    | command hc _ => exact absurd hl hc.not_isLabel
    | labelledCommand _ hc hp => exact .label hl (.command hc hp)
  | recase hl hn operands lines =>
    cases hp with
    | stop he => exact .stop (hn.upper_eq ▸ he)
    | labelledStop hl' _ => exact absurd hl' hl
    | command hc hp => exact .command (hc.sameLetters hn) hp
    | label hl' _ => exact absurd hl' hl
    | labelledCommand hl' _ _ => exact absurd hl' hl
  | recaseLabelled hl hn operands lines =>
    cases hp with
    | stop he => exact absurd he hl.not_end
    | labelledStop _ he => exact .labelledStop hl (hn.upper_eq ▸ he)
    | command hc _ => exact absurd hl hc.not_isLabel
    | labelledCommand _ hc hp => exact .labelledCommand hl (hc.sameLetters hn) hp
  | behind he rest rest' =>
    cases hp with
    | stop he' => exact .stop he'
    | labelledStop hl he' => exact .labelledStop hl he'
    | empty => cases he
    | command hc _ =>
      cases he with
      | bare he => exact absurd he hc.not_end
      | labelled hl _ => exact absurd hl hc.not_isLabel
    | label hl _ =>
      cases he with
      | bare he => exact absurd he hl.not_end
    | labelledCommand hl hc _ =>
      cases he with
      | bare he => exact absurd he hl.not_end
      | labelled _ he => exact absurd he hc.not_end
  | later line _ ih =>
    cases hp with
    | stop he => exact .stop he
    | labelledStop hl he => exact .labelledStop hl he
    | empty hp => exact .empty (ih hp)
    | command hc hp => exact .command hc (ih hp)
    | label hl hp => exact .label hl (ih hp)
    | labelledCommand hl hc hp => exact .labelledCommand hl hc (ih hp)

/-! ## Sources -/

/-- The line is that of an origin. -/
def OriginLine (line : List String) (orig : Int) : Prop :=
  ∃ directive operand, line = [directive, operand] ∧ Text.upper directive = ".ORIG" ∧
    Literal.value? operand = .ok (some orig) ∧ 0 ≤ orig ∧ orig ≤ 0xFFFF

/-- The lines behind the origin are those of the program. -/
inductive Continues (orig : Int) : List (List String) → Program → Prop where
  | intro {lines : List (List String)} {symbols : SymbolTable} {bs : List (String × Int)}
      {ws : List Word} (h : ProgramLines symbols orig lines bs ws)
      (hs : ∀ name a, symbols[name]? = some a ↔ (name, a) ∈ bs) (hl : ∀ b ∈ bs, b.2 ≤ 0xFFFF)
      (hw : orig + ws.length ≤ 0x10000) :
      Continues orig lines ⟨orig, ws.map fun w => (w.toNat : Int), symbols⟩

theorem OriginLine.not_isLabel {orig : Int} {name : String} {operands : List String}
    (h : OriginLine (name :: operands) orig) : ¬IsLabel name := by
  obtain ⟨directive, operand, he, hd, -⟩ := h
  cases he
  exact fun hl => hl.not_origin hd

theorem OriginLine.not_endLine {orig : Int} {line : List String} (h : OriginLine line orig) :
    ¬EndLine line := by
  intro he
  cases he with
  | labelled hl _ => exact h.not_isLabel hl
  | bare he =>
    obtain ⟨directive, operand, hline, hd, -⟩ := h
    cases hline
    rw [hd] at he
    exact absurd he (by decide)

theorem OriginLine.sameLetters {orig : Int} {name name' : String} {operands : List String}
    (h : OriginLine (name :: operands) orig) (hn : SameLetters name name') :
    OriginLine (name' :: operands) orig := by
  obtain ⟨directive, operand, hline, hd, ho⟩ := h
  cases hline
  exact ⟨name', operand, rfl, hn.upper_eq ▸ hd, ho⟩

theorem Edit.continues {orig : Int} {lines lines' : List (List String)} {p : Program}
    (h : Edit lines lines') (hp : Continues orig lines p) : Continues orig lines' p := by
  obtain ⟨hp, hs, hl, hw⟩ := hp
  exact .intro (h.programLines hp) hs hl hw

theorem means_cons {line : List String} {lines : List (List String)} {p : Program} :
    Means (line :: lines) p ↔
      (line = [] ∧ Means lines p) ∨ ∃ orig, OriginLine line orig ∧ Continues orig lines p := by
  constructor
  · intro h
    generalize hall : line :: lines = all at h
    obtain ⟨hblank, hd, ho, hr, hp, hs, hl, hw⟩ := h
    rename_i blank rest directive operand orig symbols bs ws
    cases blank with
    | nil =>
      cases hall
      exact .inr ⟨orig, ⟨directive, operand, rfl, hd, ho, hr⟩, .intro hp hs hl hw⟩
    | cons first blank =>
      cases hall
      obtain ⟨hline, hblank⟩ := List.forall_mem_cons.mp hblank
      exact .inl ⟨hline, .intro hblank hd ho hr hp hs hl hw⟩
  · rintro (⟨rfl, hm⟩ | ⟨orig, ⟨directive, operand, rfl, hd, ho, hr⟩, hp, hs, hl, hw⟩)
    · obtain ⟨hblank, hd, ho, hr, hp, hs, hl, hw⟩ := hm
      exact .intro (List.forall_mem_cons.mpr ⟨rfl, hblank⟩) hd ho hr hp hs hl hw
    · show Means ([] ++ [directive, operand] :: lines) _
      exact .intro (by simp) hd ho hr hp hs hl hw

/-- An edit keeps the program that token lines mean. -/
theorem Edit.means {lines lines' : List (List String)} {p : Program} (h : Edit lines lines')
    (hm : Means lines p) : Means lines' p := by
  induction h with
  | insert lines => exact means_cons.mpr (.inl ⟨rfl, hm⟩)
  | delete lines =>
    rcases means_cons.mp hm with ⟨-, hm⟩ | ⟨orig, ⟨directive, operand, hline, -⟩, -⟩
    · exact hm
    · cases hline
  | detach hl name operands lines =>
    rcases means_cons.mp hm with ⟨hline, -⟩ | ⟨orig, ho, -⟩
    · cases hline
    · exact absurd hl ho.not_isLabel
  | recase hl hn operands lines =>
    rcases means_cons.mp hm with ⟨hline, -⟩ | ⟨orig, ho, hp⟩
    · cases hline
    · exact means_cons.mpr (.inr ⟨orig, ho.sameLetters hn, hp⟩)
  | recaseLabelled hl hn operands lines =>
    rcases means_cons.mp hm with ⟨hline, -⟩ | ⟨orig, ho, -⟩
    · cases hline
    · exact absurd hl ho.not_isLabel
  | behind he rest rest' =>
    rcases means_cons.mp hm with ⟨rfl, -⟩ | ⟨orig, ho, -⟩
    · cases he
    · exact absurd he ho.not_endLine
  | later line h ih =>
    rcases means_cons.mp hm with ⟨hline, hm⟩ | ⟨orig, ho, hp⟩
    · exact means_cons.mpr (.inl ⟨hline, ih hm⟩)
    · exact means_cons.mpr (.inr ⟨orig, ho, h.continues hp⟩)

theorem means_of_edits {lines lines' : List (List String)} {p : Program}
    (h : Relation.ReflTransGen Edit lines lines') (hm : Means lines p) : Means lines' p := by
  induction h with
  | refl => exact hm
  | tail _ he ih => exact he.means ih

/-- Any number of edits of a source that is assembled gives a source of the same program. -/
theorem assemble_edited {text text' : String} {p : Program}
    (h : Relation.ReflTransGen Edit (tokenize text) (tokenize text'))
    (hp : assemble text = .ok (.success p)) : assemble text' = .ok (.success p) := by
  rw [assemble_eq_success, program_iff] at hp ⊢
  exact means_of_edits h hp

/-- Every kind of edit once, before the origin as well as behind the end. -/
theorem assemble_edited_all :
    let text := "; counts\n.ORIG x3000\nLOOP add r0, r0, #1\nbr LOOP\nDONE .end"
    let text' := ".Orig x3000\nLOOP\n , ; step\nADD r0, r0, #1\nBr LOOP\nDONE .END\n.fill \"?\""
    let p : Program := ⟨0x3000, [0x1021, 0x0FFE],
      SymbolTable.ofList [("LOOP", 0x3000), ("DONE", 0x3002)]⟩
    Relation.ReflTransGen Edit (tokenize text) (tokenize text') ∧
      assemble text = .ok (.success p) ∧ assemble text' = .ok (.success p) := by
  intro text text' p
  have htokens : tokenize text = [[], [".ORIG", "x3000"], ["LOOP", "add", "r0", "r0", "#1"],
      ["br", "LOOP"], ["DONE", ".end"]] := by decide +kernel
  have htokens' : tokenize text' = [[".Orig", "x3000"], ["LOOP"], [], ["ADD", "r0", "r0", "#1"],
      ["Br", "LOOP"], ["DONE", ".END"], [".fill", "\"?\""]] := by decide +kernel
  have hp : assemble text = .ok (.success p) := by
    rw [assemble_eq_success, htokens]
    rfl
  have hloop : IsLabel "LOOP" := by decide
  have hdone : IsLabel "DONE" := by decide
  have horig : SameLetters ".ORIG" ".Orig" := by decide
  have hadd : SameLetters "add" "ADD" := by decide
  have hbr : SameLetters "br" "Br" := by decide
  have hend : SameLetters ".end" ".END" := by decide
  have h : Relation.ReflTransGen Edit (tokenize text) (tokenize text') := by
    rw [htokens, htokens']
    refine .head (.delete _) ?_
    refine .head (.recase (by decide) horig _ _) ?_
    refine .head (.later _ <| .detach hloop _ _ _) ?_
    refine .head (.later _ <| .later _ <| .insert _) ?_
    refine .head (.later _ <| .later _ <| .later _ <| .recase (by decide) hadd _ _) ?_
    refine .head (.later _ <| .later _ <| .later _ <| .later _ <| .recase (by decide) hbr _ _) ?_
    refine .head (.later _ <| .later _ <| .later _ <| .later _ <| .later _ <|
      .recaseLabelled hdone hend _ _) ?_
    exact .single (.later _ <| .later _ <| .later _ <| .later _ <| .later _ <|
      .behind (.labelled hdone (by decide)) _ _)
  exact ⟨h, hp, assemble_edited h hp⟩

end LC3.Assembly
