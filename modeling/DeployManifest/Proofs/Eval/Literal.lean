import DeployManifest.Eval.Literal
import DeployManifest.Proofs.Outcome

/-! # Refused literals

An expression that is no literal is refused for itself or for one inside it, and for nothing else
(`literal_refused`).
-/

namespace DeployManifest

open Outcome

/-- Some expression has no value. -/
def CompileError.IsUnsupported (e : CompileError) : Prop :=
  ∃ location text cause, e = .unsupported location text cause

namespace Expr

theorem isUnsupported (e : Expr) (cause : ValueFault) : (e.unsupported cause).IsUnsupported :=
  ⟨e.location, e.text, cause, rfl⟩

theorem constant_refused {e : Expr} {parts : List String} {fault : CompileError}
    (refused : e.constant parts = .error fault) : fault.IsUnsupported := by
  rw [constant] at refused
  cases given : Constants.value? parts with
  | ok _ => simp [given, Except.mapError] at refused
  | error cause =>
    simp only [given, Except.mapError, Except.error.injEq] at refused
    exact refused ▸ e.isUnsupported cause

mutual

theorem literal_refused : ∀ (e : Expr) {fault : CompileError},
    e.literal = .error fault → fault.IsUnsupported
  | ⟨form, location, offset, text⟩, fault, refused => by
    unfold literal at refused
    dsimp only at refused
    split at refused
    · cases refused
    · cases refused
    · cases refused
    · cases refused
    · rcases bind_eq_error_iff.mp refused with refused | ⟨_, -, refused⟩
      · exact literals_refused _ refused
      · cases refused
    · rcases bind_eq_error_iff.mp refused with refused | ⟨_, -, refused⟩
      · exact entryLiterals_refused _ refused
      · cases refused
    · rcases bind_eq_error_iff.mp refused with refused | ⟨_, -, refused⟩
      · exact constant_refused refused
      · split at refused
        · cases refused
        · cases refused
          exact isUnsupported _ _
    · cases refused
      exact isUnsupported _ _

theorem literals_refused : ∀ (items : List Expr) {fault : CompileError},
    literals items = .error fault → fault.IsUnsupported
  | [], fault, refused => by
    rw [literals] at refused
    cases refused
  | item :: items, fault, refused => by
    rw [literals] at refused
    rcases bind_eq_error_iff.mp refused with refused | ⟨_, -, refused⟩
    · exact literal_refused item refused
    · rcases bind_eq_error_iff.mp refused with refused | ⟨_, -, refused⟩
      · exact literals_refused items refused
      · cases refused

theorem entryLiterals_refused : ∀ (entries : List (Expr × Expr)) {fault : CompileError},
    entryLiterals entries = .error fault → fault.IsUnsupported
  | [], fault, refused => by
    rw [entryLiterals] at refused
    cases refused
  | (key, value) :: entries, fault, refused => by
    rw [entryLiterals] at refused
    split at refused
    · cases refused
      exact key.isUnsupported _
    · rcases bind_eq_error_iff.mp refused with refused | ⟨_, -, refused⟩
      · exact literal_refused value refused
      · rcases bind_eq_error_iff.mp refused with refused | ⟨_, -, refused⟩
        · exact entryLiterals_refused entries refused
        · cases refused

end

end Expr

end DeployManifest
