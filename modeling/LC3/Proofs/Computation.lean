import LC3.Assembly.Diagnostic

/-!
# Computations that may fail

When a sequence of steps succeeds, and when it fails: one lemma for each way in which the stages of
assembling are put together.
-/

namespace LC3

theorem bind_eq_ok {ε α β : Type} {x : Except ε α} {f : α → Except ε β} {b : β} :
    (x >>= f) = .ok b ↔ ∃ a, x = .ok a ∧ f a = .ok b := by
  cases x <;> simp [bind, Except.bind]

theorem bind_eq_error {ε α β : Type} {x : Except ε α} {f : α → Except ε β} {e : ε} :
    (x >>= f) = .error e ↔ x = .error e ∨ ∃ a, x = .ok a ∧ f a = .error e := by
  cases x <;> simp [bind, Except.bind]

theorem pure_eq_ok {ε α : Type} {a b : α} : (pure a : Except ε α) = .ok b ↔ a = b := by
  simp [pure, Except.pure]

theorem pure_ne_error {ε α : Type} {a : α} {e : ε} : (pure a : Except ε α) ≠ .error e := by
  simp [pure, Except.pure]

/-- Working on what comes out of a computation adds no failure. -/
theorem return_eq_error {ε α β : Type} {x : Except ε α} {g : α → β} {e : ε} :
    (do return g (← x)) = .error e ↔ x = .error e := by
  rw [bind_eq_error]
  simp [pure_ne_error]

theorem throw_ne_ok {ε α : Type} {e : ε} {a : α} : (throw e : Except ε α) ≠ .ok a := by
  simp [throw, throwThe, MonadExceptOf.throw]

/-! ## Failures without a message -/

section

variable {ε α β : Type} {message : ε → Except Fault String} {f : Fault}

/-- The computation fails, and the message about it cannot be worded. -/
def Faults (message : ε → Except Fault String) (x : Except ε α) (f : Fault) : Prop :=
  ∃ e, x = .error e ∧ message e = .error f

theorem not_faults_ok (a : α) : ¬Faults message (.ok a) f := by
  rintro ⟨e, he, -⟩
  cases he

theorem faults_error {e : ε} :
    Faults message (.error e : Except ε α) f ↔ message e = .error f := by
  simp [Faults]

theorem not_faults_error {e : ε} {s : String} (h : message e = .ok s) :
    ¬Faults message (.error e : Except ε α) f := by
  rw [faults_error, h]
  exact nofun

theorem faults_bind {x : Except ε α} {g : α → Except ε β} :
    Faults message (x >>= g) f ↔ Faults message x f ∨ ∃ a, x = .ok a ∧ Faults message (g a) f := by
  cases x <;> simp [Faults, bind, Except.bind]

theorem faults_map {x : Except ε α} {g : α → β} :
    Faults message (do return g (← x)) f ↔ Faults message x f := by
  rw [faults_bind]
  simp [pure, Except.pure, not_faults_ok]

end

namespace Assembly

theorem atLine_eq_ok {α : Type} {line : Nat} {x : Except Cause α} {a : α} :
    atLine line x = .ok a ↔ x = .ok a := by
  cases x <;> simp [atLine]

theorem atLine_eq_error {α : Type} {line : Nat} {x : Except Cause α} {d : Diagnostic} :
    atLine line x = .error d ↔ ∃ cause, x = .error cause ∧ d = ⟨line, cause⟩ := by
  cases x <;> simp [atLine, eq_comm]

theorem orFault_eq_ok {α : Type} {x : Except Fault α} {a : α} : orFault x = .ok a ↔ x = .ok a := by
  cases x <;> simp [orFault]

theorem orFault_eq_error {α : Type} {x : Except Fault α} {cause : Cause} :
    orFault x = .error cause ↔ ∃ f, x = .error f ∧ cause = .fault f := by
  cases x <;> simp [orFault, eq_comm]

theorem faults_orFault {α : Type} {x : Except Fault α} {f : Fault} :
    Faults Cause.message (orFault x) f ↔ x = .error f := by
  cases x <;> simp [orFault, Faults, Cause.message]

theorem faults_atLine {α : Type} {line : Nat} {x : Except Cause α} {f : Fault} :
    Faults Diagnostic.message (atLine line x) f ↔ Faults Cause.message x f := by
  have hm (cause : Cause) :
      (Diagnostic.mk line cause).message = .error f ↔ cause.message = .error f := by
    rw [Diagnostic.message, return_eq_error]
  cases x <;> simp [atLine, Faults, hm]

end Assembly

end LC3
