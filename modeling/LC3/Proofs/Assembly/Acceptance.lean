import LC3.Proofs.Assembly.Faults

/-!
# Accepted sources

A source is assembled exactly if it is well-formed, and then into the program that it means. Unless
its digits run on for too long, every other source is answered with a message.
-/

namespace LC3.Assembly

theorem exists_outcome {text : String} (h : Numeral.ShortRuns text.toList) :
    ∃ o, assemble text = .ok o := by
  cases ho : assemble text with
  | ok o => exact ⟨o, rfl⟩
  | error f =>
    rw [faults_assemble, faults_program] at ho
    obtain ⟨line, hl, token, ht, shown, hf⟩ := ho.exists_token
    exact absurd hf (not_operandFault (readable_of_mem_tokenize h hl ht) shown f)

/-- Exactly the well-formed sources are assembled, each into the program that it means. -/
theorem assemble_accepts_iff {text : String} (h : Numeral.ShortRuns text.toList) :
    ∃ o, assemble text = .ok o ∧ (o.isSuccess = true ↔ WellFormed (tokenize text)) ∧
      ∀ p, o = .success p ↔ Means (tokenize text) p := by
  obtain ⟨o, ho⟩ := exists_outcome h
  have hmeans (p : Program) : o = .success p ↔ Means (tokenize text) p := by
    rw [← program_iff, ← assemble_eq_success, ho, Except.ok.injEq]
  refine ⟨o, ho, ?_, hmeans⟩
  constructor
  · intro hs
    cases o with
    | success p => exact ⟨p, (hmeans p).mp rfl⟩
    | failure s => cases hs
  · rintro ⟨p, hp⟩
    rw [(hmeans p).mpr hp]
    rfl

/-- Lines behind the end have no meaning, and two labels may stand at one address, but not one label
at two addresses. -/
theorem assemble_accepts_iff_labels :
    let twoLabels := "\n.orig x3000 ; start\nA add r0, r0, #-1\nB\nC brn A\n.FILL B\n.end\n?"
    let twoAddresses := ".ORIG x3000\nA RET\nA RET\n.END"
    (Numeral.ShortRuns twoLabels.toList ∧ WellFormed (tokenize twoLabels)) ∧
      Numeral.ShortRuns twoAddresses.toList ∧ ¬WellFormed (tokenize twoAddresses) := by
  intro twoLabels twoAddresses
  have h1 : Numeral.ShortRuns twoLabels.toList := Numeral.shortRuns_of_length (by decide)
  have h2 : Numeral.ShortRuns twoAddresses.toList := Numeral.shortRuns_of_length (by decide)
  obtain ⟨o1, ho1, hiff1, -⟩ := assemble_accepts_iff h1
  obtain ⟨o2, ho2, hiff2, -⟩ := assemble_accepts_iff h2
  have hsuccess : (assemble twoLabels).map Outcome.isSuccess = .ok true := by decide +kernel
  have hfailure : (assemble twoAddresses).map Outcome.isSuccess = .ok false := by decide +kernel
  rw [ho1] at hsuccess
  rw [ho2] at hfailure
  refine ⟨⟨h1, hiff1.mp (Except.ok.inj hsuccess)⟩, h2, ?_⟩
  rw [← hiff2, Except.ok.inj hfailure]
  decide

end LC3.Assembly
