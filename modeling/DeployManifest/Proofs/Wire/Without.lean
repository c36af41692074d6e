import DeployManifest.Proofs.Wire.Path

/-! # Documents without one of their fields

A field is taken out of a document by its path (`Document.without`). Nothing stands there then
(`not_has_without`), and everything else stays (`hasAt_without_iff`), except for a group of fields
that nothing is left in: it is not written either. A trigger is no such group.
-/

namespace DeployManifest

namespace Document

/-- A record as a field, unless nothing stands in it. A trigger is written in any case. -/
def groupField (name : String) (fields : List (String × Document)) : List (String × Document) :=
  if fields.isEmpty && !Trigger.wireNames.contains name then [] else [(name, .record fields)]

/-- The fields without what stands under a path. -/
def fieldsWithout : List String → List (String × Document) → List (String × Document)
  | [], fields => fields
  | [name], fields => fields.filter (·.1 ≠ name)
  | name :: next :: path, fields => fields.flatMap fun field =>
    if field.1 = name then
      match field.2 with
      | .record inner => groupField name (fieldsWithout (next :: path) inner)
      | _ => [field]
    else [field]

/-- The document without what stands under a path. -/
def without (path : List String) : Document → Document
  | .record fields => .record (fieldsWithout path fields)
  | other => other

variable {fields first second inner : List (String × Document)} {name next : String}
  {path other : List String} {value d : Document}

@[simp] theorem fieldsWithout_append :
    fieldsWithout path (first ++ second) =
      fieldsWithout path first ++ fieldsWithout path second := by
  unfold fieldsWithout
  split
  · rfl
  · exact List.filter_append ..
  · exact List.flatMap_append ..

/-- Fields with other names stay. -/
theorem fieldsWithout_of_ne (others : ∀ field ∈ fields, field.1 ≠ name) :
    fieldsWithout (name :: path) fields = fields := by
  cases path with
  | nil => exact List.filter_eq_self.mpr (by simpa using others)
  | cons next path =>
    rw [fieldsWithout]
    induction fields with
    | nil => rfl
    | cons field fields ih =>
      obtain ⟨here, others⟩ := List.forall_mem_cons.mp others
      rw [List.flatMap_cons, ih others, if_neg here]
      rfl

/-- What stands under a field with the name of a path is left without the rest of the path. -/
theorem mem_fieldsWithout_cons_iff {field : String × Document} :
    field ∈ fieldsWithout (name :: next :: path) fields ↔
      (field ∈ fields ∧ field.1 ≠ name) ∨
      (field ∈ fields ∧ field.1 = name ∧ ∀ inner, field.2 ≠ .record inner) ∨
      ∃ inner, (name, .record inner) ∈ fields ∧
        field ∈ groupField name (fieldsWithout (next :: path) inner) := by
  simp only [fieldsWithout, List.mem_flatMap]
  constructor
  · rintro ⟨⟨key, d⟩, member, kept⟩
    split at kept
    · rename_i same
      obtain rfl : key = name := same
      split at kept
      · rename_i inner record
        obtain rfl : d = .record inner := record
        exact .inr (.inr ⟨inner, member, kept⟩)
      · rename_i other
        obtain rfl := List.mem_singleton.mp kept
        exact .inr (.inl ⟨member, rfl, other⟩)
    · rename_i different
      obtain rfl := List.mem_singleton.mp kept
      exact .inl ⟨member, different⟩
  · rintro (⟨member, different⟩ | ⟨member, same, other⟩ | ⟨inner, member, kept⟩)
    · exact ⟨field, member, by simp [different]⟩
    · refine ⟨field, member, ?_⟩
      rw [if_pos same]
      split
      · rename_i inner record
        exact absurd record (other inner)
      · exact List.mem_singleton_self _
    · exact ⟨_, member, by simpa using kept⟩

theorem mem_groupField {field : String × Document} (member : field ∈ groupField name fields) :
    field = (name, .record fields) := by
  unfold groupField at member
  split at member
  · cases member
  · exact List.mem_singleton.mp member

theorem groupField_of_mem (name : String) {field : String × Document} (member : field ∈ fields) :
    (name, .record fields) ∈ groupField name fields := by
  rw [groupField, if_neg]
  · exact List.mem_singleton_self _
  · cases fields with
    | nil => cases member
    | cons => simp

theorem mem_fieldsWithout_of_ne {field : String × Document} (different : field.1 ≠ name) :
    field ∈ fieldsWithout (name :: path) fields ↔ field ∈ fields := by
  cases path with
  | nil => simp [fieldsWithout, different]
  | cons next path =>
    rw [mem_fieldsWithout_cons_iff]
    constructor
    · rintro (⟨member, -⟩ | ⟨member, -⟩ | ⟨inner, -, kept⟩)
      · exact member
      · exact member
      · rw [mem_groupField kept] at different
        exact absurd rfl different
    · exact fun member => .inl ⟨member, different⟩

/-- Nothing stands where a field has been taken out. -/
theorem not_has_without (d : Document) (name : String) (path : List String) :
    ¬ (d.without (name :: path)).Has (name :: path) := by
  rintro ⟨value, there⟩
  induction path generalizing d name with
  | nil =>
    cases d with
    | record fields =>
      obtain ⟨inner, member, -⟩ := there
      simp [fieldsWithout] at member
    | null | bool | int | float | text | list => exact there
  | cons next path ih =>
    cases d with
    | record fields =>
      obtain ⟨inner, member, inside⟩ := there
      rcases mem_fieldsWithout_cons_iff.mp member with
        ⟨-, different⟩ | ⟨-, -, plain⟩ | ⟨fields, -, kept⟩
      · exact different rfl
      · cases inner with
        | record fields => exact plain fields rfl
        | null | bool | int | float | text | list => exact inside
      · obtain ⟨-, rfl⟩ := Prod.mk.inj (mem_groupField kept)
        exact ih (.record fields) next inside
    | null | bool | int | float | text | list => exact there

theorem fieldAt_fieldsWithout_of_ne {key : String} (different : key ≠ name) :
    FieldAt (fieldsWithout (name :: path) fields) key other value ↔
      FieldAt fields key other value := by
  have kept (inner : Document) :
      (key, inner) ∈ fieldsWithout (name :: path) fields ↔ (key, inner) ∈ fields :=
    mem_fieldsWithout_of_ne different
  simp only [FieldAt, kept]

/-- Deeper in a field it is the rest of the path that counts. -/
theorem fieldAt_fieldsWithout_iff {step : String}
    (deeper : ∀ d : Document, (d.without (next :: path)).HasAt (step :: other) value ↔
      d.HasAt (step :: other) value) :
    FieldAt (fieldsWithout (name :: next :: path) fields) name (step :: other) value ↔
      FieldAt fields name (step :: other) value := by
  constructor
  · rintro ⟨inner, member, inside⟩
    rcases mem_fieldsWithout_cons_iff.mp member with
      ⟨-, different⟩ | ⟨kept, -⟩ | ⟨fields, whole, kept⟩
    · exact absurd rfl different
    · exact ⟨inner, kept, inside⟩
    · obtain ⟨-, rfl⟩ := Prod.mk.inj (mem_groupField kept)
      exact ⟨_, whole, (deeper (.record fields)).mp inside⟩
  · rintro ⟨inner, member, inside⟩
    cases inner with
    | record inner =>
      obtain ⟨d, written, left⟩ := (deeper (.record inner)).mpr inside
      have kept := groupField_of_mem name written
      exact ⟨_, mem_fieldsWithout_cons_iff.mpr (.inr (.inr ⟨inner, member, kept⟩)),
        d, written, left⟩
    | null | bool | int | float | text | list => exact inside.elim

/-- What stands neither under the path nor above it stays. -/
theorem hasAt_without_iff (below : ¬ path <+: other) (above : ¬ other <+: path) :
    (d.without path).HasAt other value ↔ d.HasAt other value := by
  induction path generalizing d other with
  | nil => exact absurd List.nil_prefix below
  | cons name path ih =>
    cases other with
    | nil => exact absurd List.nil_prefix above
    | cons key other =>
      cases d with
      | null | bool | int | float | text | list => rfl
      | record fields =>
        by_cases same : key = name
        · subst same
          rw [List.cons_prefix_cons] at below above
          replace below : ¬ path <+: other := fun leads => below ⟨rfl, leads⟩
          replace above : ¬ other <+: path := fun leads => above ⟨rfl, leads⟩
          obtain ⟨next, path, rfl⟩ : ∃ next rest, path = next :: rest :=
            List.exists_cons_of_ne_nil fun ends => below (ends ▸ List.nil_prefix)
          obtain ⟨step, other, rfl⟩ : ∃ step rest, other = step :: rest :=
            List.exists_cons_of_ne_nil fun ends => above (ends ▸ List.nil_prefix)
          exact fieldAt_fieldsWithout_iff fun d => ih below above
        · exact fieldAt_fieldsWithout_of_ne same

/-! ### Fields that are written -/

theorem fieldsWithout_record :
    fieldsWithout (name :: next :: path) [(name, .record inner)] =
      groupField name (fieldsWithout (next :: path) inner) := by
  simp [fieldsWithout]

theorem groupField_trigger (trigger : name ∈ Trigger.wireNames) :
    groupField name fields = [(name, .record fields)] := by
  simp [groupField, trigger]

@[simp] theorem fieldsWithout_nil : fieldsWithout path [] = [] := by
  rcases path with _ | ⟨name, _ | ⟨next, path⟩⟩ <;> rfl

theorem groupField_of_not_trigger (group : name ∉ Trigger.wireNames) :
    groupField name fields = if fields.isEmpty then [] else [(name, .record fields)] := by
  simp [groupField, group]

/-- A group without one of its fields is a group again. -/
@[simp] theorem fieldsWithout_groupField :
    fieldsWithout (name :: next :: path) (groupField name fields) =
      groupField name (fieldsWithout (next :: path) fields) := by
  by_cases hollow : fields.isEmpty && !Trigger.wireNames.contains name
  · obtain rfl := List.isEmpty_iff.mp (Bool.and_eq_true_iff.mp hollow).1
    have left : groupField name [] = [] := if_pos hollow
    simp only [left, fieldsWithout_nil]
  · rw [groupField, if_neg hollow, fieldsWithout_record]

variable {α : Type} {write : α → Document} {given : Option α} {key : String}

@[simp] theorem fieldsWithout_groupField_self :
    fieldsWithout [name] (groupField name fields) = [] :=
  List.filter_eq_nil_iff.mpr fun field member => by simp [mem_groupField member]

@[simp] theorem fieldsWithout_groupField_of_ne (other : name ≠ key) :
    fieldsWithout (key :: path) (groupField name fields) = groupField name fields :=
  fieldsWithout_of_ne fun field member => by simpa [mem_groupField member] using other

@[simp] theorem fieldsWithout_cons_of_ne (other : name ≠ key) :
    fieldsWithout (key :: path) ((name, d) :: fields) =
      (name, d) :: fieldsWithout (key :: path) fields := by
  have here : fieldsWithout (key :: path) [(name, d)] = [(name, d)] :=
    fieldsWithout_of_ne (by simpa using other)
  change fieldsWithout (key :: path) ([(name, d)] ++ fields) = _
  rw [fieldsWithout_append, here]
  rfl

@[simp] theorem fieldsWithout_field?_self :
    fieldsWithout [name] (field? name write given) = [] := by
  cases given <;> simp [field?, fieldsWithout]

@[simp] theorem fieldsWithout_field?_of_ne (other : name ≠ key) :
    fieldsWithout (key :: path) (field? name write given) = field? name write given :=
  fieldsWithout_of_ne <| by cases given <;> simp [field?, other]

@[simp] theorem fieldsWithout_setting_self {setting : Option Setting} :
    fieldsWithout [name] (Setting.field name setting) = [] := fieldsWithout_field?_self

@[simp] theorem fieldsWithout_setting_of_ne {setting : Option Setting} (other : name ≠ key) :
    fieldsWithout (key :: path) (Setting.field name setting) = Setting.field name setting :=
  fieldsWithout_field?_of_ne other

/-- A group that is there unless nothing would be written in it. -/
theorem field?_ite {isEmpty : Bool} {a : α} (group : name ∉ Trigger.wireNames)
    (whole : write a = .record fields) (empty : isEmpty = true ↔ fields = []) :
    field? name write (if isEmpty then none else some a) = groupField name fields := by
  rw [groupField_of_not_trigger group, ← whole]
  cases isEmpty with
  | true => simp [empty.mp rfl, field?]
  | false =>
    have filled : fields ≠ [] := fun none => absurd (empty.mpr none) Bool.false_ne_true
    simp [filled, field?]

end Document

end DeployManifest
