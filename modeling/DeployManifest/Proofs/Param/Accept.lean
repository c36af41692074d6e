import DeployManifest.Proofs.Eval.Grammar
import DeployManifest.Proofs.Param.Run
import DeployManifest.Proofs.Param.Slot

/-! # Which declarations are accepted

In a well-formed declaration each slot is filled at most once, with a constant of the right kind
(`Declaration.Describes`). These declarations are accepted, and of the others those that become so
when a name by keyword is left out that has a bare name behind it. Main statement:
`ParamTable.declare_eq_ok_iff`.
-/

namespace DeployManifest

open Outcome

/-! ### Values of the slots -/

/-- What the values for a slot say that may be left empty. `None` leaves it empty as well. -/
inductive Says {α : Type} (reads : Expr → α → Prop) (values : List Expr) : Option α → Prop where
  | absent (missing : values = []) : Says reads values none
  | none {e : Expr} (given : e ∈ values) (isNone : e.isNone = true) : Says reads values none
  | value {e : Expr} {a : α} (given : e ∈ values) (read : reads e a) : Says reads values (some a)

/-- The expression is a text constant. -/
def Expr.IsText (e : Expr) (s : String) : Prop := e.form = .text s

/-- The expression is a literal that the kind accepts as a default. Secrets have none. -/
def ParamKind.HasDefault (kind : ParamKind) (e : Expr) (v : Setting) : Prop :=
  kind ≠ .secret ∧ ∃ l, e.Means l ∧ kind.accepts l = true ∧ v = .literal l

namespace DeclarationArguments

variable {value : Option Expr} {α : Type} {reads : Expr → α → Prop} {result : Option α}

/-- An argument that is given says what is read from it. -/
theorem says_of_given {e : Expr} (given : given? value = some e) :
    Says reads value.toList result ↔ ∃ a, result = some a ∧ reads e a := by
  obtain ⟨rfl, some⟩ : value = Option.some e ∧ (!e.isNone) = true :=
    Option.filter_eq_some_iff.mp given
  constructor
  · rintro (missing | ⟨inside, isNone⟩ | ⟨inside, read⟩)
    · cases missing
    · obtain rfl := List.mem_singleton.mp inside
      rw [isNone] at some
      cases some
    · obtain rfl := List.mem_singleton.mp inside
      exact ⟨_, rfl, read⟩
  · rintro ⟨a, rfl, read⟩
    exact .value (List.mem_singleton_self e) read

/-- An argument that is left out or `None` says nothing. -/
theorem says_of_omitted (omitted : given? value = .none)
    (some : ∀ e a, reads e a → e.isNone = false) :
    Says reads value.toList result ↔ result = .none := by
  constructor
  · rintro (_ | _ | @⟨e, a, inside, read⟩)
    · rfl
    · rfl
    · obtain rfl := Option.mem_toList.mp inside
      rw [given?, Option.filter_some, some e a read] at omitted
      cases omitted
  · rintro rfl
    cases value with
    | none => exact .absent rfl
    | some e =>
      refine .none (List.mem_singleton_self e) ?_
      simpa [given?, Option.filter_some] using omitted

theorem text?_eq_ok_iff {keyword : String} {s : Option String} :
    text? keyword value = .ok s ↔ Says Expr.IsText value.toList s := by
  rw [text?]
  split
  · rename_i omitted
    rw [says_of_omitted omitted, Except.ok.injEq, eq_comm]
    intro e s written
    rw [Expr.isNone, written]
  · rename_i e given
    rw [says_of_given given]
    simp only [Expr.IsText, ← Expr.text?_eq_some_iff]
    cases e.text? <;> simp [eq_comm]

theorem declaredName_eq_ok_iff {given : DeclarationArguments} {name : String} :
    given.declaredName = .ok name ↔
      ∃ e, given.slot? "name" = some e ∧ e.IsText name ∧ Param.IsWellNamed name := by
  have slot : given.slot? "name" = given.name := rfl
  rw [declaredName, slot]
  cases given.name with
  | none => simp
  | some e =>
    simp only [Option.some.injEq, exists_eq_left', Expr.IsText, ← Expr.text?_eq_some_iff]
    cases e.text? with
    | none => simp
    | some written =>
      simp only [Option.some.injEq, ← Param.isName_iff]
      split
      · rename_i named
        simp only [Except.ok.injEq]
        constructor
        · rintro rfl
          exact ⟨rfl, named⟩
        · exact fun whole => whole.1
      · rename_i unnamed
        simp only [reduceCtorEq, false_iff, not_and]
        rintro rfl
        exact unnamed

end DeclarationArguments

namespace Declaration

open DeclarationArguments (FilledBy)

variable {d : Declaration} {p : Param} {given : DeclarationArguments}

theorem defaultOf_eq_ok_iff {name : String} {value : Option Expr} {v : Option Setting} :
    d.defaultOf name value = .ok v ↔ Says d.kind.HasDefault value.toList v := by
  rw [defaultOf]
  split
  · rename_i omitted
    rw [DeclarationArguments.says_of_omitted omitted, Except.ok.injEq, eq_comm]
    rintro e v ⟨-, l, means, -⟩
    cases means <;> simp only [Expr.isNone, *]
  · rename_i e given
    rw [DeclarationArguments.says_of_given given]
    split
    · rename_i secret
      simp [ParamKind.HasDefault, secret]
    · rename_i notSecret
      simp only [bind_eq_ok_iff, ParamKind.HasDefault, Expr.literal_eq_ok_iff]
      constructor
      · rintro ⟨l, means, checked⟩
        split at checked
        · rename_i accepted
          cases checked
          exact ⟨_, rfl, notSecret, l, means, accepted, rfl⟩
        · cases checked
      · rintro ⟨_, rfl, -, l, means, accepted, rfl⟩
        exact ⟨l, means, by rw [if_pos accepted]; rfl⟩

/-- The declaration as it should be, and the parameter that it declares. Nothing is unpacked, the
keywords are those of the slots, and no slot is given twice, where an argument without a keyword
gives the name. -/
structure Describes (d : Declaration) (p : Param) : Prop where
  packed : ∀ arg ∈ d.args, arg.isSplat = false
  known : ∀ keyword value location, .keyword keyword value location ∈ d.args →
    keyword ∈ ["name", "default", "label", "description"]
  once : ∀ slot, (valuesFor slot d.args).length ≤ 1
  name : ∃ e ∈ valuesFor "name" d.args, e.IsText p.name
  named : Param.IsWellNamed p.name
  kind : p.kind = d.kind
  default : Says d.kind.HasDefault (valuesFor "default" d.args) p.default
  label : Says Expr.IsText (valuesFor "label" d.args) p.label
  description : Says Expr.IsText (valuesFor "description" d.args) p.description
  location : p.location = d.location

/-- What the filled slots say of a parameter. -/
structure Reads (d : Declaration) (given : DeclarationArguments) (p : Param) : Prop where
  name : ∃ e, given.slot? "name" = some e ∧ e.IsText p.name ∧ Param.IsWellNamed p.name
  kind : p.kind = d.kind
  default : Says d.kind.HasDefault given.default.toList p.default
  label : Says Expr.IsText given.label.toList p.label
  description : Says Expr.IsText given.description.toList p.description
  location : p.location = d.location

theorem param_eq_ok_iff :
    d.param = .ok p ↔ ∃ given, DeclarationArguments.none.addAll 0 d.args = .ok given ∧
      d.Reads given p := by
  simp only [param, bind_eq_ok_iff, pure_eq_ok_iff, mapError_eq_ok_iff,
    DeclarationArguments.declaredName_eq_ok_iff, defaultOf_eq_ok_iff,
    DeclarationArguments.text?_eq_ok_iff]
  refine exists_congr fun given => and_congr_right fun _ => ?_
  constructor
  · rintro ⟨name, named, default, isDefault, label, isLabel, description, isDescription, rfl⟩
    exact ⟨named, rfl, isDefault, isLabel, isDescription, rfl⟩
  · obtain ⟨name, kind, default, label, description, location⟩ := p
    rintro ⟨named, rfl, isDefault, isLabel, isDescription, rfl⟩
    exact ⟨_, named, _, isDefault, _, isLabel, _, isDescription, rfl⟩

/-- A declaration is as it should be if its arguments fill the slots with what they may hold. -/
theorem describes_iff :
    d.Describes p ↔ ∃ given : DeclarationArguments, given.FilledBy d.args ∧ d.Reads given p := by
  constructor
  · intro whole
    have unknown (slot : String) (other : slot ∉ DeclarationArguments.slots) :
        valuesFor slot d.args = [] := by
      rw [valuesFor, List.filterMap_eq_nil_iff]
      intro arg member
      cases arg with
      | positional value =>
        refine if_neg ?_
        rintro rfl
        exact other (by simp [DeclarationArguments.slots])
      | keyword keyword value location =>
        refine if_neg ?_
        rintro rfl
        exact other (whole.known keyword value location member)
      | splat => rfl
    -- No slot has two values, so what the slots hold can be read off the values for them.
    obtain ⟨given, values⟩ := DeclarationArguments.exists_slot? whole.once unknown
    refine ⟨given, ⟨whole.packed, values⟩, ?_, whole.kind, ?_, ?_, ?_, whole.location⟩
    · obtain ⟨e, member, written⟩ := whole.name
      rw [values "name", Option.mem_toList] at member
      exact ⟨e, member, written, whole.named⟩
    · exact values "default" ▸ whole.default
    · exact values "label" ▸ whole.label
    · exact values "description" ▸ whole.description
  · rintro ⟨given, ⟨packed, values⟩, ⟨e, slot, written, named⟩, kind, default, label, description,
      location⟩
    refine ⟨packed, fun keyword value place member => ?_, fun slot => ?_, ⟨e, ?_, written⟩, named,
      kind, ?_, ?_, ?_, location⟩
    · have here : value ∈ valuesFor keyword d.args :=
        List.mem_filterMap.mpr ⟨_, member, by simp [Argument.valueFor?]⟩
      rw [values keyword, Option.mem_toList] at here
      exact DeclarationArguments.mem_slots_of_slot? here
    · rw [values slot]
      exact DeclarationArguments.length_toList_le _
    · rw [values "name", Option.mem_toList]
      exact slot
    · exact (values "default").symm ▸ default
    · exact (values "label").symm ▸ label
    · exact (values "description").symm ▸ description

/-- The declaration is as it should be, or is so without a name by keyword that has a name without
one behind it. -/
def Accepts (d : Declaration) (p : Param) : Prop :=
  d.Describes p ∨ ∃ rest, Argument.Overtaken d.args rest ∧ { d with args := rest }.Describes p

theorem param_eq_ok_iff_accepts : d.param = .ok p ↔ d.Accepts p := by
  rw [param_eq_ok_iff, Accepts]
  simp only [DeclarationArguments.addAll_eq_ok_iff, describes_iff]
  constructor
  · rintro ⟨given, filled | ⟨rest, overtaken, filled⟩, reads⟩
    · exact .inl ⟨given, filled, reads⟩
    · exact .inr ⟨rest, overtaken, given, filled, ⟨reads.name, reads.kind, reads.default,
        reads.label, reads.description, reads.location⟩⟩
  · rintro (⟨given, filled, reads⟩ | ⟨rest, overtaken, given, filled, reads⟩)
    · exact ⟨given, .inl filled, reads⟩
    · exact ⟨given, .inr ⟨rest, overtaken, filled⟩, ⟨reads.name, reads.kind, reads.default,
        reads.label, reads.description, reads.location⟩⟩

end Declaration

namespace ParamTable

variable {t next : ParamTable} {d : Declaration}

theorem holder?_eq_none_iff {name : String} :
    t.holder? name = none ↔ ∀ p ∈ t.params, p.name ≠ name := by
  rw [holder?_eq_find?, List.find?_eq_none]
  simp [params]

/-- Declarations are accepted that are well formed and whose name is free, and those that are so
without an overtaken name. The table then has the parameter that is described, behind the others. -/
theorem declare_eq_ok_iff :
    t.declare d = .ok next ↔ ∃ p, d.Accepts p ∧ (∀ other ∈ t.params, other.name ≠ p.name) ∧
      next.entries = t.entries ++ [⟨p, d.binding, d.offset⟩] := by
  simp only [← Declaration.param_eq_ok_iff_accepts, ← holder?_eq_none_iff]
  constructor
  · intro declared
    cases given : d.param with
    | error e =>
      rw [declare_of_failed given] at declared
      cases declared
    | ok p =>
      cases found : t.holder? p.name with
      | some holder =>
        rw [declare_of_taken given found] at declared
        cases declared
      | none =>
        rw [declare_of_free given found] at declared
        cases declared
        exact ⟨p, rfl, found, rfl⟩
  · rintro ⟨p, given, free, same⟩
    rw [declare_of_free given free]
    exact congrArg _ (eq_of_entries same.symm)

/-- A declaration with its name by keyword and once more without one. -/
def renamed : SourceModule := ⟨"main.py", "x = params.defineInt(name=\"A\", \"B\")\n".toList⟩

/-- The declaration is accepted under its second name, though it gives two. -/
theorem declare_renamed :
    ∃ scan d next p, renamed.scan = .ok scan ∧ scan.declarations = [d] ∧
      empty.declare d = .ok next ∧ next.params = [p] ∧ p.name = "B" ∧ d.Accepts p ∧
      ¬ d.Describes p := by
  have computed : renamed.scan.toOption.map (fun scan => scan.declarations.map fun d =>
      ((valuesFor "name" d.args).length,
        (empty.declare d).toOption.map fun t => t.params.map (·.name))) =
      some [(2, some ["B"])] := by
    decide +kernel
  obtain ⟨scan, scanned, computed⟩ := exists_ok_of_toOption computed
  obtain ⟨d, single, computed⟩ := List.map_eq_singleton_iff.mp computed
  obtain ⟨twice, computed⟩ := Prod.mk.inj computed
  obtain ⟨next, declared, names⟩ := exists_ok_of_toOption computed
  obtain ⟨p, accepted, -, entries⟩ := declare_eq_ok_iff.mp declared
  have held : next.params = [p] := by
    rw [params, entries]
    rfl
  rw [held] at names
  refine ⟨scan, d, next, p, scanned, single, declared, held, by simpa using names, accepted, ?_⟩
  intro whole
  have short := whole.once "name"
  rw [twice] at short
  exact absurd short (by decide)

end ParamTable

end DeployManifest
