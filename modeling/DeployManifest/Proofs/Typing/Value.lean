import DeployManifest.Param.Basic

/-! # Values at deploy time

The parameters get their values when the functions are deployed, and only then it is known what a
setting stands for. A setting is typed (`Setting.IsTyped`) if it refers to parameters of the
manifest alone and has a value of one type, whatever the values of these are.
-/

namespace DeployManifest

/-- A value for each parameter, by its name. -/
abbrev Assignment := String → Literal

namespace ParamKind

/-- May a parameter have the value? A secret stands for a text. -/
def admits : ParamKind → Literal → Bool
  | .secret, l => l.isText
  | kind, l => kind.accepts l

theorem admits_string (l : Literal) : string.admits l = l.isText := by cases l <;> rfl

theorem admits_int (l : Literal) : int.admits l = l.isInt := by cases l <;> rfl

theorem admits_boolean (l : Literal) : boolean.admits l = l.isBool := by cases l <;> rfl

theorem admits_float (l : Literal) : float.admits l = l.isNumber := by cases l <;> rfl

end ParamKind

/-- Every parameter has a value of its kind. -/
def Assignment.Respects (σ : Assignment) (params : List Param) : Prop :=
  ∀ p ∈ params, p.kind.admits (σ p.name) = true

/-- The types of the fields of a manifest. -/
inductive ValueType where
  | integer
  | number
  /-- A number, or the word for as many processors as the first generation has. -/
  | processors
  | boolean
  | text
  | texts
  | textMap
  deriving DecidableEq

/-- Is the value of the type? -/
def ValueType.has : ValueType → Literal → Bool
  | .integer, l => l.isInt
  | .number, l => l.isNumber
  | .processors, l => l.isNumber || l.text? == some "gcf_gen1"
  | .boolean, l => l.isBool
  | .text, l => l.isText
  | .texts, .list items => items.all Literal.isText
  | .textMap, .map entries => entries.all fun entry => entry.2.isText
  | _, _ => false

theorem ParamKind.admits_list (l : Literal) : list.admits l = ValueType.texts.has l := by
  cases l <;> rfl

/-- A parameter has the name, and all with the name are of an allowed kind. -/
def Names (params : List Param) (allowed : ParamKind → Prop) (name : String) : Prop :=
  (∃ p ∈ params, p.name = name) ∧ ∀ p ∈ params, p.name = name → allowed p.kind

namespace Setting

/-- What stands on a side of a choice: a literal that is no list or map, or a parameter of an
allowed kind. -/
inductive IsSide (params : List Param) (allowed : ParamKind → Prop) : Setting → Prop where
  | literal {l : Literal} (scalar : l.isScalar = true) : IsSide params allowed (.literal l)
  | param {name : String} (named : Names params allowed name) : IsSide params allowed (.param name)

/-- All parameters that the setting refers to are in a list and of an allowed kind, and those that
choose are boolean. -/
inductive IsClosed (params : List Param) (allowed : ParamKind → Prop) : Setting → Prop where
  | literal (l : Literal) : IsClosed params allowed (.literal l)
  | param {name : String} (named : Names params allowed name) :
      IsClosed params allowed (.param name)
  | choice {condition : String} {yes no : Setting}
      (chosen : Names params (· = .boolean) condition)
      (first : IsSide params allowed yes) (second : IsSide params allowed no) :
      IsClosed params allowed (.choice condition yes no)
  | reset : IsClosed params allowed .reset

/-- The value of the setting; a reset has none. -/
def value? (σ : Assignment) : Setting → Option Literal
  | .literal l => some l
  | .param name => some (σ name)
  | .choice condition yes no =>
    match σ condition with
    | .bool true => value? σ yes
    | .bool false => value? σ no
    | _ => none
  | .reset => none

/-- The setting has a value of the type, whatever the parameters are. -/
def HasValue (params : List Param) (type : ValueType) (v : Setting) : Prop :=
  ∀ σ : Assignment, σ.Respects params → ∃ l, v.value? σ = some l ∧ type.has l = true

/-- The setting refers to no secret, and unless it is reset it has a value of the type. -/
def IsTyped (params : List Param) (type : ValueType) (v : Setting) : Prop :=
  v.IsClosed params (· ≠ .secret) ∧ (v = .reset ∨ v.HasValue params type)

theorem isTyped_literal {params : List Param} {type : ValueType} {l : Literal}
    (ofType : type.has l = true) : (Setting.literal l).IsTyped params type :=
  ⟨.literal l, .inr fun _ _ => ⟨l, rfl, ofType⟩⟩

/-- A choice has a value as soon as both sides have one. -/
theorem HasValue.choice {params : List Param} {type : ValueType} {condition : String}
    {yes no : Setting} (chosen : Names params (· = .boolean) condition)
    (first : yes.HasValue params type) (second : no.HasValue params type) :
    (Setting.choice condition yes no).HasValue params type := by
  intro σ respects
  obtain ⟨⟨p, member, rfl⟩, boolean⟩ := chosen
  have admitted := respects p member
  rw [boolean p member rfl, ParamKind.admits_boolean] at admitted
  cases value : σ p.name with
  | bool b =>
    cases b with
    | true => simpa [value?, value] using first σ respects
    | false => simpa [value?, value] using second σ respects
  | int _ | float _ | text _ | list _ | map _ =>
    rw [value] at admitted
    cases admitted

end Setting

/-! ### Values in the form that a field has -/

/-- What a field holds: a setting as it is, or a list whose only item is the substitution text of
one. -/
inductive Content where
  | plain (v : Setting)
  | single (v : Setting)

namespace Content

/-- The setting in the field. -/
def written : Content → Setting
  | .plain v => v
  | .single v => .texts [v.expression?.getD ""]

/-- The setting that the field depends on. -/
def inner : Content → Setting
  | .plain v => v
  | .single v => v

/-- The value of the field. -/
def value? (σ : Assignment) : Content → Option Literal
  | .plain v => v.value? σ
  | .single v => (v.value? σ).map fun l => .list [l]

/-- The field refers to no secret, and unless it is reset it has a value of the type. -/
def IsTyped (params : List Param) (type : ValueType) (c : Content) : Prop :=
  c.inner.IsClosed params (· ≠ .secret) ∧
    (c = .plain .reset ∨ ∀ σ : Assignment, σ.Respects params →
      ∃ l, c.value? σ = some l ∧ type.has l = true)

/-- The field holds what an option has been given: literals may be spelled in another way, but every
reference and choice is still there. -/
inductive Renders : Setting → Content → Prop where
  | literal (given written : Literal) : Renders (.literal given) (.plain (.literal written))
  /-- A literal may be the same as none at all. -/
  | emptied (given : Literal) : Renders (.literal given) (.plain .reset)
  | param (name : String) : Renders (.param name) (.plain (.param name))
  | choice {condition : String} {yes no yes' no' : Setting} (first : Renders yes (.plain yes'))
      (second : Renders no (.plain no')) :
      Renders (.choice condition yes no) (.plain (.choice condition yes' no'))
  | reset : Renders .reset (.plain .reset)
  | single {v : Setting} (dependent : v.expression?.isSome) : Renders v (.single v)

theorem Renders.refl (v : Setting) : Renders v (.plain v) := by
  induction v with
  | literal l => exact .literal l l
  | param name => exact .param name
  | choice condition yes no first second => exact .choice first second
  | reset => exact .reset

theorem isTyped_plain {params : List Param} {type : ValueType} {v : Setting}
    (typed : v.IsTyped params type) : (plain v).IsTyped params type := by
  obtain ⟨closed, reset | value⟩ := typed
  · exact ⟨closed, .inl (congrArg plain reset)⟩
  · exact ⟨closed, .inr value⟩

/-- A text in a list of its own is a list of texts. -/
theorem isTyped_single {params : List Param} {v : Setting}
    (closed : v.IsClosed params (· ≠ .secret)) (value : v.HasValue params .text) :
    (single v).IsTyped params .texts := by
  refine ⟨closed, .inr fun σ respects => ?_⟩
  obtain ⟨l, found, text⟩ := value σ respects
  refine ⟨.list [l], by rw [Content.value?, found, Option.map_some], ?_⟩
  simpa [ValueType.has] using text

/-- A field of a type holds `written` for an option with the value `given`. -/
def Conveys (params : List Param) (type : ValueType) (given written : Setting) : Prop :=
  ∃ content : Content, Renders given content ∧ content.written = written ∧
    content.IsTyped params type

theorem conveys_self {params : List Param} {type : ValueType} {v : Setting}
    (typed : v.IsTyped params type) : Conveys params type v v :=
  ⟨.plain v, .refl v, rfl, isTyped_plain typed⟩

end Content

end DeployManifest
