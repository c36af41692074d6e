import DeployManifest.Proofs.Typing.Field

/-! # Conversions of choices

An option with a choice is converted side by side, so it is accepted and changed exactly as if the
choice had been made before (`Field.converts_choice`). This holds although sizes of memory are
spelled anew on both sides before either of them is checked.
-/

namespace DeployManifest

open Outcome

/-- The conversions of options that have a single value. -/
inductive SingleConversion where
  | int
  | number
  | boolean
  | string
  | oneOf (allowed : List String)
  | memory
  | cpu

/-- Converts the value of an option. -/
def SingleConversion.convert (f : Field) :
    SingleConversion → Setting → Except CompileError Setting
  | .int => f.typed .int
  | .number => f.typed .number
  | .boolean => f.typed .boolean
  | .string => f.typed .string
  | .oneOf allowed => f.typed (.oneOf allowed)
  | .memory => f.memory
  | .cpu => f.typed .cpu

/-- A choice is converted to the choice between its converted sides. It is refused only with the
error of a side. -/
structure Distributes (convert : Setting → Except CompileError Setting) : Prop where
  ok : ∀ condition yes no w, convert (.choice condition yes no) = .ok w ↔
    ∃ yes' no', convert yes = .ok yes' ∧ convert no = .ok no' ∧ w = .choice condition yes' no'
  error : ∀ condition yes no e, convert (.choice condition yes no) = .error e →
    convert yes = .error e ∨ convert no = .error e

namespace Field

variable {f : Field} {type : FieldType}

theorem typed_eq_ok_iff {v w : Setting} :
    f.typed type v = .ok w ↔ f.check type v = .ok () ∧ w = v := by
  simp only [typed, bind_eq_ok_iff, pure_eq_ok_iff]
  constructor
  · rintro ⟨⟨⟩, checked, rfl⟩
    exact ⟨checked, rfl⟩
  · rintro ⟨checked, rfl⟩
    exact ⟨(), checked, rfl⟩

theorem typed_eq_error_iff {v : Setting} {e : CompileError} :
    f.typed type v = .error e ↔ f.check type v = .error e := by
  rw [typed, bind_eq_error_iff]
  constructor
  · rintro (refused | ⟨_, -, kept⟩)
    · exact refused
    · cases kept
  · exact .inl

theorem distributes_typed : Distributes (f.typed type) where
  ok condition yes no w := by
    simp only [typed_eq_ok_iff, check_choice]
    constructor
    · rintro ⟨⟨first, second⟩, rfl⟩
      exact ⟨yes, no, ⟨first, rfl⟩, ⟨second, rfl⟩, rfl⟩
    · rintro ⟨_, _, ⟨first, rfl⟩, ⟨second, rfl⟩, rfl⟩
      exact ⟨⟨first, second⟩, rfl⟩
  error condition yes no e := by
    rw [typed_eq_error_iff, typed_eq_error_iff, typed_eq_error_iff, check, bind_eq_error_iff]
    rintro (first | ⟨_, -, second⟩)
    · exact .inl first
    · exact .inr second

theorem distributes_mapLiterals (change : Literal → Except CompileError Literal) :
    Distributes (mapLiterals change) where
  ok condition yes no w := by
    simp only [mapLiterals, bind_eq_ok_iff, pure_eq_ok_iff]
    constructor
    · rintro ⟨yes', first, no', second, rfl⟩
      exact ⟨yes', no', first, second, rfl⟩
    · rintro ⟨yes', no', first, second, rfl⟩
      exact ⟨yes', first, no', second, rfl⟩
  error condition yes no e := by
    simp only [mapLiterals, bind_eq_error_iff]
    rintro (first | ⟨_, -, second | ⟨_, -, kept⟩⟩)
    · exact .inl first
    · exact .inr second
    · cases kept

end Field

/-- Two passes over both sides are the same as both passes over each side. -/
theorem Distributes.andThen {first second : Setting → Except CompileError Setting}
    (one : Distributes first) (two : Distributes second) :
    Distributes fun v => first v >>= second where
  ok condition yes no w := by
    simp only [bind_eq_ok_iff, one.ok]
    constructor
    · rintro ⟨_, ⟨yes', no', yesFirst, noFirst, rfl⟩, again⟩
      obtain ⟨yes'', no'', yesSecond, noSecond, rfl⟩ := (two.ok ..).mp again
      exact ⟨yes'', no'', ⟨yes', yesFirst, yesSecond⟩, ⟨no', noFirst, noSecond⟩, rfl⟩
    · rintro ⟨yes'', no'', ⟨yes', yesFirst, yesSecond⟩, ⟨no', noFirst, noSecond⟩, rfl⟩
      exact ⟨_, ⟨yes', no', yesFirst, noFirst, rfl⟩,
        (two.ok ..).mpr ⟨yes'', no'', yesSecond, noSecond, rfl⟩⟩
  error condition yes no e refused := by
    rw [bind_eq_error_iff, bind_eq_error_iff]
    rcases bind_eq_error_iff.mp refused with refused | ⟨_, done, refused⟩
    · exact (one.error _ _ _ _ refused).imp .inl .inl
    · obtain ⟨yes', no', yesFirst, noFirst, rfl⟩ := (one.ok ..).mp done
      exact (two.error _ _ _ _ refused).imp (fun again => .inr ⟨yes', yesFirst, again⟩)
        fun again => .inr ⟨no', noFirst, again⟩

theorem SingleConversion.distributes (conversion : SingleConversion) (f : Field) :
    Distributes (conversion.convert f) := by
  cases conversion with
  | memory => exact (Field.distributes_mapLiterals f.memoryLiteral).andThen Field.distributes_typed
  | int | number | boolean | string | oneOf | cpu => exact Field.distributes_typed

/-- Every conversion to a single value distributes over choices. As a list of texts, a choice of
texts is the list of its substitution text. -/
theorem Field.converts_choice (f : Field) :
    (∀ conversion : SingleConversion, Distributes (conversion.convert f)) ∧
      ∀ condition yes no w, f.stringList (.choice condition yes no) = .ok w ↔
        (∃ v, f.typed .string yes = .ok v) ∧ (∃ v, f.typed .string no = .ok v) ∧
          w = .texts [Setting.braced
            ("params." ++ condition ++ " ? " ++ yes.branchText ++ " : " ++ no.branchText)] := by
  refine ⟨fun conversion => conversion.distributes f, fun condition yes no w => ?_⟩
  have passes (v : Setting) : (∃ w, f.typed .string v = .ok w) ↔ f.check .string v = .ok () := by
    simp [typed_eq_ok_iff]
  have sides : f.check .string (.choice condition yes no) = .ok () ↔ _ := check_choice
  rw [passes, passes, ← and_assoc, ← sides, stringList]
  simp only [bind_eq_ok_iff, pure_eq_ok_iff]
  constructor
  · rintro ⟨⟨⟩, checked, rfl⟩
    exact ⟨checked, rfl⟩
  · rintro ⟨checked, rfl⟩
    exact ⟨(), checked, rfl⟩

end DeployManifest
