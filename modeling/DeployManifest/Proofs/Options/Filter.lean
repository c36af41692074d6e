import DeployManifest.Proofs.Address.Pattern
import DeployManifest.Proofs.Options.Basic
import DeployManifest.Proofs.Options.Trigger

/-! # Options as texts in filters

A filter holds texts, so an option that depends on a parameter stands there as its substitution
text. `filterOr_eq_ok` says which entries an option gives, and `filterOr_isPattern_iff` when these
are path patterns.
-/

namespace DeployManifest

open Outcome

/-- The text of a value in a filter; none for a reset. -/
inductive FilterText : Setting → Option String → Prop where
  | text (s : String) : FilterText (.text s) (some s)
  /-- A reference or choice stands as its substitution text. -/
  | substitution {value : Setting} {inside : String}
      (expression : value.expression? = some (Setting.braced inside)) :
      FilterText value (some (Setting.braced inside))
  | reset : FilterText .reset none

namespace Field

/-- A value that does for a filter is a text, a reset, or one that depends on a parameter. -/
theorem filterText_eq_ok {f : Field} {value : Setting} {text : Option String}
    (converted : f.filterText value = .ok text) :
    f.check .string value = .ok () ∧ FilterText value text := by
  simp only [filterText, bind_eq_ok_iff, pure_eq_ok_iff] at converted
  obtain ⟨⟨⟩, checked, rfl⟩ := converted
  refine ⟨checked, ?_⟩
  cases value with
  | literal l =>
    cases l with
    | text s => exact .text s
    | bool _ | int _ | float _ | list _ | map _ => cases checked
  | param name => exact .substitution rfl
  | choice condition yes no => exact .substitution rfl
  | reset => exact .reset

end Field

/-- Of the values that do for a filter, those that stand there as a path pattern, or not at all, are
the resets and the patterns that are written out. -/
theorem FilterText.isPattern_iff {value : Setting} {text : Option String}
    (written : FilterText value text) :
    (∀ t ∈ text, ∃ p, PathPattern.parse t = .ok p) ↔
      value = .reset ∨ ∃ t p, value = .text t ∧ PathPattern.parse t = .ok p := by
  cases written with
  | text s =>
    constructor
    · intro parsed
      obtain ⟨p, read⟩ := parsed s rfl
      exact .inr ⟨s, p, rfl, read⟩
    · rintro (reset | ⟨_, p, same, read⟩) t ⟨⟩
      · cases reset
      · cases same
        exact ⟨p, read⟩
  | @substitution _ inside expression =>
    constructor
    · intro parsed
      obtain ⟨p, read⟩ := parsed _ rfl
      exact absurd read (PathPattern.parse_braced inside p)
    · rintro (rfl | ⟨_, _, rfl, -⟩)
      · cases expression
      · cases expression
  | reset => simp

namespace TriggerSource

variable {s : TriggerSource} {name default : String} {entries : KeyMap String}

/-- An option gives at most one entry to a filter, under its own name. -/
theorem filterOr_eq_ok (made : s.read (.filterOr name default) = .ok entries) :
    (s.options.option? name = none ∧ entries = [(name, default)]) ∨
      ∃ o text, s.options.option? name = some o ∧
        Field.filterText ⟨s.params, name, o.location⟩ o.value = .ok text ∧
        entries = (text.map fun t => (name, t)).toList := by
  obtain ⟨given, converted, rfl⟩ := read_filterOr_eq_ok_iff.mp made
  cases given with
  | none => exact .inl ⟨OptionSet.convert_eq_ok_none_iff.mp converted, rfl⟩
  | some text =>
    obtain ⟨o, found, done⟩ := OptionSet.convert_eq_ok_some_iff.mp converted
    exact .inr ⟨o, text, found, done, by cases text <;> rfl⟩

/-- All entries of an option are under its name. -/
theorem name_of_mem_filterOr (made : s.read (.filterOr name default) = .ok entries) :
    ∀ entry ∈ entries, entry.1 = name := by
  rcases filterOr_eq_ok made with ⟨-, rfl⟩ | ⟨o, text, -, -, rfl⟩
  · intro entry member
    rw [List.mem_singleton] at member
    rw [member]
  · intro entry member
    obtain ⟨t, -, rfl⟩ := Option.map_eq_some_iff.mp (Option.mem_toList.mp member)
    rfl

/-- The entries of an option, when its default is a path pattern. -/
theorem filterOr_isPattern_iff (made : s.read (.filterOr name default) = .ok entries)
    (patternDefault : ∃ p, PathPattern.parse default = .ok p) :
    (∀ entry ∈ entries, ∃ p, PathPattern.parse entry.2 = .ok p) ↔
      ∀ o, s.options.option? name = some o →
        o.value = .reset ∨ ∃ t p, o.value = .text t ∧ PathPattern.parse t = .ok p := by
  rcases filterOr_eq_ok made with ⟨missing, rfl⟩ | ⟨o, text, found, converted, rfl⟩
  · simpa [missing] using patternDefault
  · have written := (Field.filterText_eq_ok converted).2
    rw [found]
    simp only [Option.some.injEq, forall_eq']
    rw [← written.isPattern_iff]
    simp

end TriggerSource

end DeployManifest
