import DeployManifest.Proofs.Json
import DeployManifest.Proofs.Typing.Endpoint
import Mathlib.Data.List.Nodup

/-! # Values that are written as `null`

Of the values that a field can hold, only a floating point number that is not finite has no form of
its own. A typed field holds one only if its type is that of a number
(`Content.printsNull_written`), and the same goes for a side of a choice
(`Content.hasNullBranch_iff`).
-/

namespace DeployManifest

/-! ### Assignments -/

/-- A value of the kind. -/
def ParamKind.sample : ParamKind → Literal
  | .string => .text ""
  | .secret => .text ""
  | .int => .int 0
  | .float => .int 0
  | .boolean => .bool false
  | .list => .list []

theorem ParamKind.admits_sample (kind : ParamKind) : kind.admits kind.sample = true := by
  cases kind <;> rfl

namespace Assignment

variable {params : List Param}

/-- Parameters with distinct names can be given values of their kinds. -/
theorem exists_respects (distinct : (params.map (·.name)).Nodup) :
    ∃ σ : Assignment, σ.Respects params := by
  refine ⟨fun name => ((params.find? (·.name == name)).map (·.kind.sample)).getD (.bool false), ?_⟩
  intro p member
  have first : params.find? (·.name == p.name) = some p := by
    cases found : params.find? (·.name == p.name) with
    | none => exact absurd (List.find?_eq_none.mp found p member) (by simp)
    | some q =>
      have same : q.name = p.name := by simpa using List.find?_some found
      rw [List.inj_on_of_nodup_map distinct (List.mem_of_find?_eq_some found) member same]
  dsimp only
  rw [first]
  exact p.kind.admits_sample

/-- A parameter that chooses can have either value. -/
theorem exists_respects_choosing (distinct : (params.map (·.name)).Nodup) {condition : String}
    (chosen : Names params (· = .boolean) condition) (b : Bool) :
    ∃ σ : Assignment, σ.Respects params ∧ σ condition = .bool b := by
  obtain ⟨σ, respects⟩ := exists_respects distinct
  refine ⟨fun name => if name = condition then .bool b else σ name, ?_, if_pos rfl⟩
  intro p member
  by_cases same : p.name = condition
  · have kind : p.kind = .boolean := chosen.2 p member same
    dsimp only
    rw [if_pos same, kind]
    rfl
  · dsimp only
    rw [if_neg same]
    exact respects p member

end Assignment

/-! ### Literals -/

/-- The numbers that fields hold. -/
def ValueType.isNumeric : ValueType → Bool
  | .number => true
  | .processors => true
  | _ => false

namespace Literal

theorem not_printsNull_of_isText {l : Literal} (text : l.isText = true) :
    ¬ l.document.PrintsNull := by
  cases l with
  | text s => simp [document]
  | bool | int | float | list | map => cases text

theorem not_printsNull_texts {items : List Literal} (texts : ∀ l ∈ items, l.isText = true) :
    ∀ d ∈ documents items, ¬ d.PrintsNull := by
  induction items with
  | nil => simp [documents]
  | cons l items ih =>
    obtain ⟨first, rest⟩ := List.forall_mem_cons.mp texts
    rw [documents]
    exact List.forall_mem_cons.mpr ⟨not_printsNull_of_isText first, ih rest⟩

theorem not_printsNull_entries {entries : List (String × Literal)}
    (texts : ∀ entry ∈ entries, entry.2.isText = true) :
    ∀ field ∈ entryDocuments entries, ¬ field.2.PrintsNull := by
  induction entries with
  | nil => simp [entryDocuments]
  | cons entry entries ih =>
    obtain ⟨key, l⟩ := entry
    obtain ⟨first, rest⟩ := List.forall_mem_cons.mp texts
    rw [entryDocuments]
    exact List.forall_mem_cons.mpr ⟨not_printsNull_of_isText first, ih rest⟩

theorem isText_of_has_list {T : ValueType} {items : List Literal}
    (ofType : T.has (.list items) = true) : ∀ l ∈ items, l.isText = true := by
  cases T with
  | texts => exact List.all_eq_true.mp ofType
  | integer | number | processors | boolean | text | textMap => cases ofType

theorem isText_of_has_map {T : ValueType} {entries : List (String × Literal)}
    (ofType : T.has (.map entries) = true) : ∀ entry ∈ entries, entry.2.isText = true := by
  cases T with
  | textMap => exact List.all_eq_true.mp ofType
  | integer | number | processors | boolean | text | texts => cases ofType

theorem isNumeric_of_has_float {T : ValueType} {x : Binary64} (ofType : T.has (.float x) = true) :
    T.isNumeric = true := by
  cases T with
  | number | processors => rfl
  | integer | boolean | text | texts | textMap => cases ofType

/-- Of the values of a type, only a number that is not finite is written as `null`. -/
theorem printsNull_of_has {T : ValueType} {l : Literal} (ofType : T.has l = true) :
    l.document.PrintsNull ↔ ∃ x, l = .float x ∧ x.isFinite = false := by
  cases l with
  | bool b => simp [document]
  | int n => simp [document]
  | float x => simp [document]
  | text s => simp [document]
  | list items =>
    have none := not_printsNull_texts (isText_of_has_list ofType)
    rw [document, Document.printsNull_list]
    simpa using none
  | map entries =>
    have none := not_printsNull_entries (isText_of_has_map ofType)
    rw [document, Document.printsNull_record, Document.AnyNull]
    simpa using none

theorem ofList_numeric_ne_null {cs : List Char} (numeric : ∀ c ∈ cs, Json.isNumeric c = true) :
    String.ofList cs ≠ "null" := by
  intro same
  have chars : cs = ['n', 'u', 'l', 'l'] := by
    rw [← String.toList_ofList (l := cs), same]
    rfl
  have first : 'n' ∈ cs := by
    rw [chars]
    simp
  exact absurd (numeric 'n' first) (by decide)

/-- A value without parts is `null` in a substitution text only if it has no other form. -/
theorem wireText_eq_null_iff {l : Literal} (scalar : l.isScalar = true) :
    l.wireText = "null" ↔ ∃ x, l = .float x ∧ x.isFinite = false := by
  cases l with
  | bool b => cases b <;> simp [wireText, document, Json.compact, Json.compactChars, Json.scalar]
  | int n =>
    have other := ofList_numeric_ne_null (Json.isNumeric_signed (n := n))
    simpa [wireText, document, Json.compact, Json.compactChars, Json.scalar] using other
  | float x =>
    simp only [wireText, document, Json.compact, Json.compactChars, Json.scalar, Json.float]
    split
    · rename_i finite
      have numeric : ∀ c ∈ Json.floatText.write x, Json.isNumeric c = true := Json.isNumeric_write
      simpa [finite] using ofList_numeric_ne_null numeric
    · rename_i endless
      simpa using endless
  | text s =>
    have other : String.ofList (Json.quote s.toList) ≠ "null" := by
      intro same
      have chars := congrArg String.toList same
      rw [String.toList_ofList, Json.quote] at chars
      exact absurd (List.cons.inj chars).1 (by decide)
    simpa [wireText, document, Json.compact, Json.compactChars, Json.scalar] using other
  | list | map => cases scalar

end Literal

/-! ### Settings -/

namespace Setting

variable {params : List Param} {allowed : ParamKind → Prop} {v : Setting}

/-- The setting is a number that is not finite. -/
def IsEndless (v : Setting) : Prop := ∃ x, v = .literal (.float x) ∧ x.isFinite = false

instance : DecidablePred IsEndless
  | .literal (.float x) => decidable_of_iff (x.isFinite = false) (by simp [IsEndless])
  | .literal (.bool _) => .isFalse (by simp [IsEndless])
  | .literal (.int _) => .isFalse (by simp [IsEndless])
  | .literal (.text _) => .isFalse (by simp [IsEndless])
  | .literal (.list _) => .isFalse (by simp [IsEndless])
  | .literal (.map _) => .isFalse (by simp [IsEndless])
  | .param _ => .isFalse (by simp [IsEndless])
  | .choice _ _ _ => .isFalse (by simp [IsEndless])
  | .reset => .isFalse (by simp [IsEndless])

/-- A side of the choice is `null` in the substitution text. -/
def HasNullBranch (v : Setting) : Prop :=
  ∃ condition yes no, v = .choice condition yes no ∧
    (yes.branchText = "null" ∨ no.branchText = "null")

/-- A side of the choice is a number that is not finite. -/
def HasEndlessBranch (v : Setting) : Prop :=
  ∃ condition yes no, v = .choice condition yes no ∧ (yes.IsEndless ∨ no.IsEndless)

theorem IsSide.branchText_eq_null_iff (side : v.IsSide params allowed) :
    v.branchText = "null" ↔ v.IsEndless := by
  cases side with
  | literal scalar =>
    rw [branchText, Literal.wireText_eq_null_iff scalar, IsEndless]
    simp only [literal.injEq]
  | @param name _ =>
    constructor
    · intro same
      have chars := congrArg String.toList same
      rw [branchText, String.toList_append] at chars
      exact absurd (List.cons.inj chars).1 (by decide)
    · rintro ⟨x, same, -⟩
      cases same

theorem IsClosed.hasNullBranch_iff (closed : v.IsClosed params allowed) :
    v.HasNullBranch ↔ v.HasEndlessBranch := by
  constructor
  · rintro ⟨condition, yes, no, rfl, null⟩
    cases closed with
    | choice _ first second =>
      rw [first.branchText_eq_null_iff, second.branchText_eq_null_iff] at null
      exact ⟨condition, yes, no, rfl, null⟩
  · rintro ⟨condition, yes, no, rfl, endless⟩
    cases closed with
    | choice _ first second =>
      rw [← first.branchText_eq_null_iff, ← second.branchText_eq_null_iff] at endless
      exact ⟨condition, yes, no, rfl, endless⟩

theorem IsEndless.printsNull (endless : v.IsEndless) : v.document.PrintsNull := by
  obtain ⟨x, rfl, infinite⟩ := endless
  exact .float infinite

/-- A setting that depends on a parameter is written as a text. -/
theorem exists_literal_of_printsNull (leaf : v.document.PrintsNull) (given : v ≠ .reset) :
    ∃ l, v = .literal l ∧ l.document.PrintsNull := by
  cases v with
  | literal l => exact ⟨l, rfl, leaf⟩
  | param name => cases leaf
  | choice condition yes no => cases leaf
  | reset => exact absurd rfl given

end Setting

/-! ### What fields hold -/

namespace Content

variable {params : List Param} {T : ValueType} {content : Content}

/-- What a field of a type holds is written as `null` exactly if it is a number that is not finite,
and the type is that of a number then. -/
theorem printsNull_written (distinct : (params.map (·.name)).Nodup)
    (typed : content.IsTyped params T) (given : content.written ≠ .reset)
    (leaf : content.written.document.PrintsNull) :
    content.written.IsEndless ∧ T.isNumeric = true := by
  obtain ⟨-, reset | value⟩ := typed
  · rw [reset] at given
    exact absurd rfl given
  · obtain ⟨l, written, leaf⟩ := Setting.exists_literal_of_printsNull leaf given
    cases content with
    | single v =>
      cases written
      exact absurd leaf (by simp [Literal.texts, Literal.document, Literal.documents])
    | plain v =>
      obtain ⟨σ, respects⟩ := Assignment.exists_respects distinct
      obtain ⟨l', found, ofType⟩ := value σ respects
      cases written
      obtain rfl := Option.some.inj found
      obtain ⟨x, rfl, endless⟩ := (Literal.printsNull_of_has ofType).mp leaf
      exact ⟨⟨x, rfl, endless⟩, Literal.isNumeric_of_has_float ofType⟩

/-- Only a field of numbers can depend on a choice with a side that is not finite. -/
theorem isNumeric_of_hasEndlessBranch (distinct : (params.map (·.name)).Nodup)
    (typed : content.IsTyped params T) (endless : content.inner.HasEndlessBranch) :
    T.isNumeric = true := by
  obtain ⟨condition, yes, no, inner, side⟩ := endless
  obtain ⟨closed, reset | value⟩ := typed
  · rw [reset] at inner
    cases inner
  · have chosen : Names params (· = .boolean) condition := by
      rw [inner] at closed
      cases closed
      assumption
    have float : ∃ σ x, σ.Respects params ∧ content.inner.value? σ = some (.float x) := by
      rcases side with ⟨x, rfl, -⟩ | ⟨x, rfl, -⟩
      · obtain ⟨σ, respects, holds⟩ := Assignment.exists_respects_choosing distinct chosen true
        exact ⟨σ, x, respects, by simp [inner, Setting.value?, holds]⟩
      · obtain ⟨σ, respects, holds⟩ := Assignment.exists_respects_choosing distinct chosen false
        exact ⟨σ, x, respects, by simp [inner, Setting.value?, holds]⟩
    obtain ⟨σ, x, respects, found⟩ := float
    obtain ⟨l, value, ofType⟩ := value σ respects
    cases content with
    | plain v =>
      obtain rfl := Option.some.inj (found.symm.trans value)
      exact Literal.isNumeric_of_has_float ofType
    | single v =>
      -- a list of a number is of no type
      change v.value? σ = _ at found
      rw [value?, found, Option.map_some] at value
      obtain rfl := Option.some.inj value
      exact absurd (Literal.isText_of_has_list ofType (.float x) (by simp)) (by simp [Literal.isText])

/-- A substitution text has a side that is `null` exactly if the field is one of numbers and the
side is not finite. -/
theorem hasNullBranch_iff (distinct : (params.map (·.name)).Nodup)
    (typed : content.IsTyped params T) :
    content.inner.HasNullBranch ↔ T.isNumeric = true ∧ content.inner.HasEndlessBranch := by
  rw [typed.1.hasNullBranch_iff]
  constructor
  · intro endless
    exact ⟨isNumeric_of_hasEndlessBranch distinct typed endless, endless⟩
  · exact And.right

end Content

end DeployManifest
