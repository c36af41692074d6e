import DeployManifest.Param.Declare
import DeployManifest.Proofs.Compile.Binding

/-! # Slots of a declaration

A declaration has four slots, for the name of the parameter, its default, its label and its
description. Its arguments are taken if each slot is filled at most once
(`DeclarationArguments.FilledBy`), whatever their order, and in one case more: a name by keyword is
not counted when a bare name follows it. Main statement: `DeclarationArguments.addAll_eq_ok_iff`.
-/

namespace DeployManifest

open Outcome

/-! ### Slots -/

/-- The value that an argument has for a slot. An argument without a keyword is the name. -/
def Argument.valueFor? (slot : String) : Argument → Option Expr
  | .positional value => if slot = "name" then some value else none
  | .keyword name value _ => if name = slot then some value else none
  | .splat _ => none

/-- The values for a slot, in order. -/
def valuesFor (slot : String) (args : List Argument) : List Expr :=
  args.filterMap (·.valueFor? slot)

theorem valuesFor_append (slot : String) (first second : List Argument) :
    valuesFor slot (first ++ second) = valuesFor slot first ++ valuesFor slot second :=
  List.filterMap_append ..

theorem valuesFor_cons (slot : String) (arg : Argument) (args : List Argument) :
    valuesFor slot (arg :: args) = (arg.valueFor? slot).toList ++ valuesFor slot args := by
  rw [valuesFor, List.filterMap_cons]
  cases arg.valueFor? slot <;> rfl

theorem single_of_toList {front back : List Expr} {value : Expr} {held : Option Expr}
    (same : front ++ value :: back = held.toList) : front = [] ∧ back = [] ∧ held = some value := by
  cases held with
  | none => simp at same
  | some other =>
    have length := congrArg List.length same
    simp only [List.length_append, List.length_cons, Option.toList_some, List.length_nil] at length
    obtain rfl : front = [] := List.eq_nil_of_length_eq_zero (by omega)
    obtain rfl : back = [] := List.eq_nil_of_length_eq_zero (by omega)
    obtain rfl : value = other := by simpa using same
    exact ⟨rfl, rfl, rfl⟩

namespace DeclarationArguments

variable {given next filled : DeclarationArguments} {slot : String} {value : Expr}
  {before after args : List Argument}

/-- The names of the slots. -/
def slots : List String := ["name", "default", "label", "description"]

/-- What a slot is filled with. -/
def slot? (given : DeclarationArguments) (slot : String) : Option Expr :=
  if slot = "name" then given.name
  else if slot = "default" then given.default
  else if slot = "label" then given.label
  else if slot = "description" then given.description
  else .none

/-- Fills a slot. -/
def set (given : DeclarationArguments) (slot : String) (value : Expr) : DeclarationArguments where
  name := if slot = "name" then some value else given.name
  default := if slot = "default" then some value else given.default
  label := if slot = "label" then some value else given.label
  description := if slot = "description" then some value else given.description

theorem slot?_none (slot : String) : none.slot? slot = .none := by
  simp only [slot?, none, ite_self]

theorem mem_slots_of_slot? (filled : given.slot? slot = some value) : slot ∈ slots := by
  by_contra unknown
  simp only [slots, List.mem_cons, List.not_mem_nil, or_false, not_or] at unknown
  obtain ⟨notName, notDefault, notLabel, notDescription⟩ := unknown
  rw [slot?, if_neg notName, if_neg notDefault, if_neg notLabel, if_neg notDescription] at filled
  cases filled

theorem eq_of_slot? (same : ∀ slot, given.slot? slot = filled.slot? slot) : given = filled := by
  obtain ⟨name, default, label, description⟩ := given
  obtain ⟨name', default', label', description'⟩ := filled
  obtain rfl : name = name' := same "name"
  obtain rfl : default = default' := same "default"
  obtain rfl : label = label' := same "label"
  obtain rfl : description = description' := same "description"
  rfl

theorem slot?_set (known : slot ∈ slots) (other : String) :
    (given.set slot value).slot? other = if other = slot then some value else given.slot? other := by
  simp only [slots, List.mem_cons, List.not_mem_nil, or_false] at known
  by_cases same : other = slot
  · subst same
    rcases known with rfl | rfl | rfl | rfl <;> rfl
  · rw [if_neg same]
    rcases known with rfl | rfl | rfl | rfl <;> simp [slot?, set, same]

theorem enter?_eq_ok_iff {keyword : String} {held result : Option Expr} :
    enter? keyword value held = .ok result ↔ held = .none ∧ result = some value := by
  cases held <;> simp [enter?, eq_comm]

/-- A keyword is one of the slots and fills it for the first time. -/
theorem add_keyword_eq_ok_iff {keyword : String} {location : Location} {n : Nat} :
    given.add n (.keyword keyword value location) = .ok next ↔
      keyword ∈ slots ∧ given.slot? keyword = .none ∧ next = given.set keyword value := by
  rw [add.eq_def]
  dsimp only
  split
  any_goals
    simp only [bind_eq_ok_iff, pure_eq_ok_iff, enter?_eq_ok_iff]
    constructor
    · rintro ⟨_, ⟨free, rfl⟩, rfl⟩
      exact ⟨by simp [slots], free, rfl⟩
    · rintro ⟨-, free, rfl⟩
      exact ⟨_, ⟨free, rfl⟩, rfl⟩
  rename_i notName notDefault notLabel notDescription
  constructor
  · intro added
    cases added
  · rintro ⟨known, -⟩
    simp only [slots, List.mem_cons, List.not_mem_nil, or_false] at known
    rcases known with rfl | rfl | rfl | rfl
    · exact absurd rfl notName
    · exact absurd rfl notDefault
    · exact absurd rfl notLabel
    · exact absurd rfl notDescription

theorem set_keyword_values {keyword : String} {location : Location} (known : keyword ∈ slots)
    (free : given.slot? keyword = .none) (slot : String) :
    (given.slot? slot).toList ++ valuesFor slot (.keyword keyword value location :: args) =
      ((given.set keyword value).slot? slot).toList ++ valuesFor slot args := by
  rw [slot?_set known, valuesFor_cons, Argument.valueFor?]
  by_cases same : slot = keyword
  · subst same
    simp [free]
  · simp [same, Ne.symm same]

/-! ### Arguments with keywords -/

theorem addAll_cons {n : Nat} {arg : Argument} (named : arg.positional? = .none) :
    given.addAll n (arg :: args) = given.add n arg >>= fun next => next.addAll n args := by
  cases arg with
  | positional => cases named
  | keyword | splat => rfl

theorem addAll_append {n : Nat} (named : ∀ arg ∈ before, arg.positional? = .none) :
    given.addAll n (before ++ after) =
      given.addAll n before >>= fun next => next.addAll n after := by
  induction before generalizing given with
  | nil => rfl
  | cons arg before ih =>
    obtain ⟨here, others⟩ := List.forall_mem_cons.mp named
    rw [List.cons_append, addAll_cons here, addAll_cons here]
    cases given.add n arg with
    | error fault => rfl
    | ok next => exact ih others

/-- Keywords fill the slots in any order, each one that is free. -/
theorem addAll_keywords_eq_ok_iff {n : Nat} (named : ∀ arg ∈ args, arg.positional? = .none) :
    given.addAll n args = .ok filled ↔ (∀ arg ∈ args, arg.isSplat = false) ∧
      ∀ slot, (given.slot? slot).toList ++ valuesFor slot args = (filled.slot? slot).toList := by
  induction args generalizing given with
  | nil =>
    simp only [addAll, valuesFor, List.filterMap_nil, List.append_nil, List.not_mem_nil,
      false_implies, implies_true, true_and, Except.ok.injEq]
    constructor
    · rintro rfl slot
      rfl
    · intro same
      refine eq_of_slot? fun slot => ?_
      simpa using congrArg List.head? (same slot)
  | cons arg args ih =>
    obtain ⟨here, others⟩ := List.forall_mem_cons.mp named
    rw [addAll_cons here, bind_eq_ok_iff]
    cases arg with
    | positional => cases here
    | splat location =>
      constructor
      · rintro ⟨_, added, -⟩
        cases added
      · rintro ⟨packed, -⟩
        cases packed _ (List.mem_cons_self ..)
    | keyword keyword value location =>
      simp only [add_keyword_eq_ok_iff, ih others]
      constructor
      · rintro ⟨_, ⟨known, free, rfl⟩, packed, rest⟩
        refine ⟨List.forall_mem_cons.mpr ⟨rfl, packed⟩, fun slot => ?_⟩
        rw [← rest slot, set_keyword_values known free]
      · rintro ⟨packed, whole⟩
        have row := whole keyword
        rw [valuesFor_cons, Argument.valueFor?, if_pos rfl] at row
        obtain ⟨free, -, taken⟩ := single_of_toList row
        rw [Option.toList_eq_nil_iff] at free
        have known := mem_slots_of_slot? taken
        refine ⟨_, ⟨known, free, rfl⟩, (List.forall_mem_cons.mp packed).2, fun slot => ?_⟩
        rw [← whole slot, set_keyword_values known free]

/-! ### A name without a keyword -/

theorem addAll_positional :
    given.addAll 0 (.positional value :: after) = (given.set "name" value).addAll 1 after := by
  simp only [addAll, add, if_true, bind, Except.bind, set]
  simp

theorem named_of_addAll {n : Nat} (added : given.addAll (n + 1) args = .ok filled) :
    ∀ arg ∈ args, arg.positional? = .none := by
  induction args generalizing given with
  | nil => simp
  | cons arg args ih =>
    cases arg with
    | positional => cases added
    | keyword | splat =>
      rw [addAll_cons rfl, bind_eq_ok_iff] at added
      obtain ⟨next, -, rest⟩ := added
      exact List.forall_mem_cons.mpr ⟨rfl, ih rest⟩

theorem named_of_valuesFor (unnamed : valuesFor "name" args = []) :
    ∀ arg ∈ args, arg.positional? = .none := by
  intro arg member
  have absent := List.filterMap_eq_nil_iff.mp unnamed arg member
  cases arg with
  | positional => cases absent
  | keyword | splat => rfl

/-- What is filled in around a name without a keyword, which is the one that counts. -/
structure NamedBy (filled : DeclarationArguments) (before : List Argument) (value : Expr)
    (after : List Argument) : Prop where
  packed : ∀ arg ∈ before ++ after, arg.isSplat = false
  others : ∀ slot, slot ≠ "name" →
    valuesFor slot before ++ valuesFor slot after = (filled.slot? slot).toList
  behind : valuesFor "name" after = []
  name : filled.slot? "name" = some value

/-- The arguments fill the slots, each at most once: nothing is unpacked, and the values for a slot
are no more than what it holds. -/
structure FilledBy (filled : DeclarationArguments) (args : List Argument) : Prop where
  packed : ∀ arg ∈ args, arg.isSplat = false
  values : ∀ slot, valuesFor slot args = (filled.slot? slot).toList

theorem length_toList_le (held : Option Expr) : held.toList.length ≤ 1 := by
  cases held <;> simp

theorem exists_slot? {values : String → List Expr} (short : ∀ slot, (values slot).length ≤ 1)
    (known : ∀ slot, slot ∉ slots → values slot = []) :
    ∃ given : DeclarationArguments, ∀ slot, values slot = (given.slot? slot).toList := by
  refine ⟨⟨(values "name").head?, (values "default").head?, (values "label").head?,
    (values "description").head?⟩, fun slot => ?_⟩
  have first : values slot = (values slot).head?.toList := by
    have bound := short slot
    generalize values slot = row at bound
    match row with
    | [] => rfl
    | [value] => rfl
    | _ :: _ :: _ => simp at bound
  by_cases inside : slot ∈ slots
  · simp only [slots, List.mem_cons, List.not_mem_nil, or_false] at inside
    rcases inside with rfl | rfl | rfl | rfl <;> exact first
  · rw [known slot inside]
    simp only [slots, List.mem_cons, List.not_mem_nil, or_false, not_or] at inside
    obtain ⟨notName, notDefault, notLabel, notDescription⟩ := inside
    rw [slot?, if_neg notName, if_neg notDefault, if_neg notLabel, if_neg notDescription]
    rfl

theorem valuesFor_positional (slot : String) :
    valuesFor slot (before ++ .positional value :: after) =
      valuesFor slot before ++ ((if slot = "name" then [value] else []) ++ valuesFor slot after) := by
  rw [valuesFor_append, valuesFor_cons, Argument.valueFor?]
  split <;> rfl

/-- In front of a name without a keyword the slots are filled as well, if a name is given there at
most once. -/
theorem NamedBy.exists_before (whole : filled.NamedBy before value after)
    (short : (valuesFor "name" before).length ≤ 1) :
    ∃ middle : DeclarationArguments,
      ∀ slot, valuesFor slot before = (middle.slot? slot).toList := by
  refine exists_slot? (fun slot => ?_) (fun slot unknown => ?_)
  · by_cases same : slot = "name"
    · rw [same]
      exact short
    · have bound := length_toList_le (filled.slot? slot)
      rw [← whole.others slot same, List.length_append] at bound
      omega
  · have other : slot ≠ "name" := fun same => unknown (same ▸ by simp [slots])
    have nothing : filled.slot? slot = .none := by
      rw [Option.eq_none_iff_forall_ne_some]
      exact fun value here => unknown (mem_slots_of_slot? here)
    have row := whole.others slot other
    rw [nothing, Option.toList_none, List.append_eq_nil_iff] at row
    exact row.1

/-- A name by keyword in front of a name without one is taken, and does not count. -/
theorem addAll_positional_eq_ok_iff (named : ∀ arg ∈ before, arg.positional? = .none) :
    none.addAll 0 (before ++ .positional value :: after) = .ok filled ↔
      filled.NamedBy before value after ∧ (valuesFor "name" before).length ≤ 1 := by
  have known : "name" ∈ slots := by simp [slots]
  rw [addAll_append named, bind_eq_ok_iff]
  simp only [addAll_positional, addAll_keywords_eq_ok_iff named, slot?_none, Option.toList_none,
    List.nil_append]
  constructor
  · rintro ⟨middle, ⟨packed, values⟩, rest⟩
    -- Behind a bare name there is no other, so what follows fills slots by keywords.
    obtain ⟨packedBehind, whole⟩ := (addAll_keywords_eq_ok_iff (named_of_addAll rest)).mp rest
    simp only [slot?_set known] at whole
    have row : [] ++ value :: valuesFor "name" after = (filled.slot? "name").toList := by
      simpa using whole "name"
    obtain ⟨-, behind, name⟩ := single_of_toList row
    refine ⟨⟨List.forall_mem_append.mpr ⟨packed, packedBehind⟩, fun slot other => ?_, behind, name⟩,
      ?_⟩
    · rw [values slot, ← whole slot, if_neg other]
    · rw [values "name"]
      exact length_toList_le _
  · rintro ⟨whole, short⟩
    obtain ⟨packed, packedBehind⟩ := List.forall_mem_append.mp whole.packed
    obtain ⟨middle, values⟩ := whole.exists_before short
    refine ⟨middle, ⟨packed, values⟩,
      (addAll_keywords_eq_ok_iff (named_of_valuesFor whole.behind)).mpr
        ⟨packedBehind, fun slot => ?_⟩⟩
    rw [slot?_set known]
    by_cases same : slot = "name"
    · rw [if_pos same, same, whole.behind, whole.name, List.append_nil]
    · rw [if_neg same, ← values slot, whole.others slot same]

theorem filledBy_positional_iff :
    filled.FilledBy (before ++ .positional value :: after) ↔
      filled.NamedBy before value after ∧ valuesFor "name" before = [] := by
  constructor
  · rintro ⟨packed, values⟩
    simp only [valuesFor_positional] at values
    have row := values "name"
    rw [if_pos rfl, List.singleton_append] at row
    obtain ⟨front, behind, name⟩ := single_of_toList row
    refine ⟨⟨fun arg member => packed arg ?_, fun slot other => ?_, behind, name⟩, front⟩
    · rcases List.mem_append.mp member with member | member
      · exact List.mem_append_left _ member
      · exact List.mem_append_right _ (List.mem_cons_of_mem _ member)
    · rw [← values slot, if_neg other, List.nil_append]
  · rintro ⟨whole, front⟩
    obtain ⟨packed, packedBehind⟩ := List.forall_mem_append.mp whole.packed
    refine ⟨List.forall_mem_append.mpr ⟨packed, List.forall_mem_cons.mpr ⟨rfl, packedBehind⟩⟩,
      fun slot => ?_⟩
    rw [valuesFor_positional]
    by_cases same : slot = "name"
    · rw [if_pos same, same, front, whole.behind, whole.name]
      rfl
    · rw [if_neg same, List.nil_append, whole.others slot same]

theorem filledBy_keywords_iff (named : ∀ arg ∈ args, arg.positional? = .none) :
    filled.FilledBy args ↔ none.addAll 0 args = .ok filled := by
  simp only [addAll_keywords_eq_ok_iff named, slot?_none, Option.toList_none, List.nil_append]
  exact ⟨fun whole => ⟨whole.packed, whole.values⟩, fun whole => ⟨whole.1, whole.2⟩⟩

/-- A name by keyword does not change what counts around a name without one. -/
theorem namedBy_keyword_iff {front back : List Argument} {other : Expr} {location : Location} :
    filled.NamedBy (front ++ .keyword "name" other location :: back) value after ↔
      filled.NamedBy (front ++ back) value after := by
  have values (slot : String) (differs : slot ≠ "name") :
      valuesFor slot (front ++ .keyword "name" other location :: back) =
        valuesFor slot (front ++ back) := by
    rw [valuesFor_append, valuesFor_cons, Argument.valueFor?, if_neg (Ne.symm differs),
      valuesFor_append]
    rfl
  have packed : (∀ arg ∈ front ++ .keyword "name" other location :: back ++ after,
      arg.isSplat = false) ↔ ∀ arg ∈ front ++ back ++ after, arg.isSplat = false := by
    simp only [List.forall_mem_append, List.forall_mem_cons]
    simp [Argument.isSplat]
  constructor
  · intro whole
    exact ⟨packed.mp whole.packed, fun slot differs => values slot differs ▸ whole.others slot differs,
      whole.behind, whole.name⟩
  · intro whole
    exact ⟨packed.mpr whole.packed,
      fun slot differs => (values slot differs).symm ▸ whole.others slot differs, whole.behind,
      whole.name⟩

end DeclarationArguments

/-- The second row of arguments is the first without a name by keyword that has a name without one
behind it. -/
inductive Argument.Overtaken : List Argument → List Argument → Prop where
  | of {front back after : List Argument} {other value : Expr} {location : Location} :
      Overtaken (front ++ .keyword "name" other location :: (back ++ .positional value :: after))
        (front ++ (back ++ .positional value :: after))

namespace DeclarationArguments

variable {filled : DeclarationArguments} {args : List Argument}

/-- Each argument has a keyword or is unpacked, or there is a first one that is a bare value. -/
theorem named_or_first_positional (args : List Argument) :
    (∀ arg ∈ args, arg.positional? = .none) ∨
      ∃ before value after, args = before ++ .positional value :: after ∧
        ∀ arg ∈ before, arg.positional? = .none := by
  cases found : args.find? (·.positional?.isSome) with
  | none => exact .inl (by simpa using List.find?_eq_none.mp found)
  | some first =>
    obtain ⟨holds, before, after, rfl, none⟩ := List.find?_eq_some_iff_append.mp found
    cases first with
    | positional value => exact .inr ⟨before, value, after, rfl, by simpa using none⟩
    | keyword | splat => cases holds

theorem exists_keyword_of_valuesFor {before : List Argument} {other : Expr}
    (named : ∀ arg ∈ before, arg.positional? = .none) (values : valuesFor "name" before = [other]) :
    ∃ front location back, before = front ++ .keyword "name" other location :: back ∧
      valuesFor "name" (front ++ back) = [] := by
  have member : other ∈ valuesFor "name" before := by simp [values]
  obtain ⟨arg, inside, here⟩ := List.mem_filterMap.mp member
  obtain ⟨front, back, rfl⟩ := List.append_of_mem inside
  cases arg with
  | positional => cases named _ inside
  | splat => cases here
  | keyword keyword value location =>
    rw [Argument.valueFor?] at here
    split at here
    · rename_i same
      subst same
      obtain rfl := Option.some.inj here
      refine ⟨front, location, back, rfl, ?_⟩
      rw [valuesFor_append, valuesFor_cons, Argument.valueFor?, if_pos rfl] at values
      have row : valuesFor "name" front ++ value :: valuesFor "name" back = (some value).toList :=
        values
      obtain ⟨nothing, rest, -⟩ := single_of_toList row
      rw [valuesFor_append, nothing, rest, List.nil_append]
    · cases here

/-- Arguments are taken if they fill the slots, each at most once, or do so without a name by
keyword that is overtaken. -/
theorem addAll_eq_ok_iff :
    none.addAll 0 args = .ok filled ↔
      filled.FilledBy args ∨ ∃ rest, Argument.Overtaken args rest ∧ filled.FilledBy rest := by
  constructor
  · intro added
    rcases named_or_first_positional args with named | ⟨before, value, after, rfl, named⟩
    · exact .inl ((filledBy_keywords_iff named).mpr added)
    · obtain ⟨whole, short⟩ := (addAll_positional_eq_ok_iff named).mp added
      cases values : valuesFor "name" before with
      | nil => exact .inl (filledBy_positional_iff.mpr ⟨whole, values⟩)
      | cons other more =>
        -- The one name in front was given by keyword. Without it the rest still counts.
        rw [values, List.length_cons] at short
        obtain rfl : more = [] := List.eq_nil_of_length_eq_zero (by omega)
        obtain ⟨front, location, back, rfl, rest⟩ := exists_keyword_of_valuesFor named values
        refine .inr ⟨front ++ (back ++ .positional value :: after), ?_, ?_⟩
        · rw [List.append_assoc, List.cons_append]
          exact .of
        · rw [← List.append_assoc]
          exact filledBy_positional_iff.mpr ⟨namedBy_keyword_iff.mp whole, rest⟩
  · rintro (whole | ⟨rest, overtaken, whole⟩)
    · rcases named_or_first_positional args with named | ⟨before, value, after, rfl, named⟩
      · exact (filledBy_keywords_iff named).mp whole
      · obtain ⟨whole, nothing⟩ := filledBy_positional_iff.mp whole
        exact (addAll_positional_eq_ok_iff named).mpr ⟨whole, by simp [nothing]⟩
    · obtain @⟨front, back, after, other, value, location⟩ := overtaken
      rw [← List.append_assoc] at whole
      obtain ⟨whole, nothing⟩ := filledBy_positional_iff.mp whole
      have named := named_of_valuesFor nothing
      rw [valuesFor_append, List.append_eq_nil_iff] at nothing
      rw [← List.cons_append, ← List.append_assoc]
      refine (addAll_positional_eq_ok_iff ?_).mpr ⟨namedBy_keyword_iff.mpr whole, ?_⟩
      · simp only [List.forall_mem_append, List.forall_mem_cons] at named ⊢
        exact ⟨named.1, rfl, named.2⟩
      · simp [valuesFor_append, valuesFor_cons, Argument.valueFor?, nothing]

end DeclarationArguments

end DeployManifest
