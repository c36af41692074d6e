import DeployManifest.Proofs.Eval.Literal
import DeployManifest.Proofs.Scope.Lookup

/-! # The grammar of values

The expressions that have a value, as relations beside the functions that compute it: members of
enumerations (`Constants.Member`), literals with such members anywhere inside (`Expr.Means`), and
settings (`Scope.Denotes`). An expression has a value exactly if a relation gives it one
(`Scope.evaluates_iff_denotes`), so nothing else is accepted and nothing is guessed.
-/

namespace DeployManifest

open Outcome

/-! ### Constants -/

namespace Constants

/-- The members of enumerations, with what they stand for. -/
inductive Member : List String → Literal → Prop where
  | ingress {member : String} (known : member ∈ ingressSettings) :
      Member ["IngressSetting", member] (.text member)
  | egress {member : String} (known : member ∈ egressSettings) :
      Member ["VpcEgressSetting", member] (.text member)
  | memory {member : String} {megabytes : Int} (known : (member, megabytes) ∈ memorySizes) :
      Member ["MemoryOption", member] (.int megabytes)
  | region {member : String} (known : member ∈ regions) :
      Member ["SupportedRegion", member] (.text (regionName member))

/-- A path as it is written: the namespace of the options may stand once in front. -/
def Spells (written parts : List String) : Prop := written = parts ∨ written = "options" :: parts

/-- What a path stands for without the namespace of the options. -/
inductive Stands : List String → Setting → Prop where
  | member {parts : List String} {l : Literal} (known : Member parts l) : Stands parts (.literal l)
  | reset : Stands ["RESET_VALUE"] .reset

theorem lookup_memorySizes_iff {member : String} {megabytes : Int} :
    memorySizes.lookup member = some megabytes ↔ (member, megabytes) ∈ memorySizes := by
  constructor
  · intro found
    obtain ⟨front, back, split, -⟩ := List.lookup_eq_some_iff.mp found
    rw [split]
    simp
  · intro known
    simp only [memorySizes, List.mem_cons, Prod.mk.injEq, List.not_mem_nil, or_false] at known
    rcases known with ⟨rfl, rfl⟩ | ⟨rfl, rfl⟩ | ⟨rfl, rfl⟩ | ⟨rfl, rfl⟩ | ⟨rfl, rfl⟩ | ⟨rfl, rfl⟩ |
      ⟨rfl, rfl⟩ | ⟨rfl, rfl⟩ | ⟨rfl, rfl⟩ <;> rfl

/-- Taking the namespace off once leaves what the path spells. -/
theorem spells_of_stripped {written parts : List String}
    (stripped : (match written with | "options" :: rest => rest | parts => parts) = parts) :
    Spells written parts := by
  split at stripped
  · exact .inr (stripped ▸ rfl)
  · exact .inl stripped

theorem value?_eq_ok_iff {written : List String} {v : Setting} :
    value? written = .ok v ↔ ∃ parts, Spells written parts ∧ Stands parts v := by
  constructor
  · intro known
    unfold value? at known
    dsimp only at known
    split at known
    · cases known
      exact ⟨_, spells_of_stripped ‹_›, .reset⟩
    · split at known
      · rename_i member
        cases known
        exact ⟨_, spells_of_stripped ‹_›, .member (.ingress (List.contains_iff_mem.mp member))⟩
      · cases known
    · split at known
      · rename_i member
        cases known
        exact ⟨_, spells_of_stripped ‹_›, .member (.egress (List.contains_iff_mem.mp member))⟩
      · cases known
    · split at known
      · rename_i found
        cases known
        exact ⟨_, spells_of_stripped ‹_›, .member (.memory (lookup_memorySizes_iff.mp found))⟩
      · cases known
    · split at known
      · rename_i member
        cases known
        exact ⟨_, spells_of_stripped ‹_›, .member (.region (List.contains_iff_mem.mp member))⟩
      · cases known
    · cases known
  · rintro ⟨parts, rfl | rfl, stands⟩
    all_goals
      cases stands with
      | reset => rfl
      | member known =>
        cases known with
        | ingress known | egress known | region known =>
          simp [value?, known, Setting.text]
        | memory known => simp [value?, lookup_memorySizes_iff.mpr known]

end Constants

/-! ### Literals -/

namespace Expr

mutual

/-- The literal that an expression means. Members of enumerations stand anywhere in it; names, calls
and resets do not. -/
inductive Means : Expr → Literal → Prop where
  | bool {e : Expr} {b : Bool} (written : e.form = .bool b) : Means e (.bool b)
  | int {e : Expr} {n : Int} (written : e.form = .int n) : Means e (.int n)
  | float {e : Expr} {x : Binary64} (written : e.form = .float x) : Means e (.float x)
  | text {e : Expr} {s : String} (written : e.form = .text s) : Means e (.text s)
  | list {e : Expr} {items : List Expr} {literals : List Literal} (written : e.form = .list items)
      (each : MeanEach items literals) : Means e (.list literals)
  /-- Of entries with one key the last counts. -/
  | dict {e : Expr} {entries : List (Expr × Expr)} {literals : List (String × Literal)}
      (written : e.form = .dict entries) (each : MeanEntries entries literals) :
      Means e (.map (KeyMap.ofList literals))
  | member {e : Expr} {path parts : List String} {l : Literal} (written : e.form = .path path)
      (spells : Constants.Spells path parts) (known : Constants.Member parts l) : Means e l

/-- The literals that the items of a list mean. -/
inductive MeanEach : List Expr → List Literal → Prop where
  | nil : MeanEach [] []
  | cons {item : Expr} {items : List Expr} {l : Literal} {literals : List Literal}
      (first : Means item l) (rest : MeanEach items literals) :
      MeanEach (item :: items) (l :: literals)

/-- The literals that the entries of a mapping mean; the keys are texts. -/
inductive MeanEntries : List (Expr × Expr) → List (String × Literal) → Prop where
  | nil : MeanEntries [] []
  | cons {key value : Expr} {entries : List (Expr × Expr)} {name : String} {l : Literal}
      {literals : List (String × Literal)} (named : key.form = .text name) (first : Means value l)
      (rest : MeanEntries entries literals) :
      MeanEntries ((key, value) :: entries) ((name, l) :: literals)

end

theorem text?_eq_some_iff {e : Expr} {s : String} : e.text? = some s ↔ e.form = .text s := by
  unfold text?
  split
  · rename_i written
    simp [written]
  · rename_i other
    simp only [reduceCtorEq, false_iff]
    exact other s

theorem constant_eq_ok_iff {e : Expr} {path : List String} {v : Setting} :
    e.constant path = .ok v ↔
      ∃ parts, Constants.Spells path parts ∧ Constants.Stands parts v := by
  rw [constant, mapError_eq_ok_iff, Constants.value?_eq_ok_iff]

mutual

theorem literal_eq_ok_iff : ∀ (e : Expr) {l : Literal}, e.literal = .ok l ↔ e.Means l
  | ⟨form, location, offset, text⟩, l => by
    unfold literal
    dsimp only
    constructor
    · intro given
      split at given
      · cases given
        exact .bool rfl
      · cases given
        exact .int rfl
      · cases given
        exact .float rfl
      · cases given
        exact .text rfl
      · simp only [bind_eq_ok_iff, pure_eq_ok_iff] at given
        obtain ⟨literals, each, rfl⟩ := given
        exact .list rfl ((literals_eq_ok_iff _).mp each)
      · simp only [bind_eq_ok_iff, pure_eq_ok_iff] at given
        obtain ⟨literals, each, rfl⟩ := given
        exact .dict rfl ((entryLiterals_eq_ok_iff _).mp each)
      · simp only [bind_eq_ok_iff, constant_eq_ok_iff] at given
        obtain ⟨v, ⟨parts, spells, stands⟩, given⟩ := given
        cases stands with
        | member known =>
          cases given
          exact .member rfl spells known
        | reset => cases given
      · cases given
    · intro means
      cases means with
      | bool written | int written | float written | text written =>
        cases written
        rfl
      | list written each =>
        cases written
        simp only [bind_eq_ok_iff, pure_eq_ok_iff]
        exact ⟨_, (literals_eq_ok_iff _).mpr each, rfl⟩
      | dict written each =>
        cases written
        simp only [bind_eq_ok_iff, pure_eq_ok_iff]
        exact ⟨_, (entryLiterals_eq_ok_iff _).mpr each, rfl⟩
      | member written spells known =>
        cases written
        simp only [bind_eq_ok_iff, constant_eq_ok_iff]
        exact ⟨_, ⟨_, spells, .member known⟩, rfl⟩

theorem literals_eq_ok_iff : ∀ (items : List Expr) {values : List Literal},
    literals items = .ok values ↔ MeanEach items values
  | [], values => by
    rw [literals]
    constructor
    · rintro ⟨⟩
      exact .nil
    · rintro ⟨⟩
      rfl
  | item :: items, values => by
    simp only [literals, bind_eq_ok_iff, pure_eq_ok_iff, literal_eq_ok_iff item,
      literals_eq_ok_iff items]
    constructor
    · rintro ⟨l, first, rest, behind, rfl⟩
      exact .cons first behind
    · rintro (_ | ⟨first, behind⟩)
      exact ⟨_, first, _, behind, rfl⟩

theorem entryLiterals_eq_ok_iff : ∀ (entries : List (Expr × Expr))
    {values : List (String × Literal)},
    entryLiterals entries = .ok values ↔ MeanEntries entries values
  | [], values => by
    rw [entryLiterals]
    constructor
    · rintro ⟨⟩
      exact .nil
    · rintro ⟨⟩
      rfl
  | (key, value) :: entries, values => by
    rw [entryLiterals]
    constructor
    · intro given
      split at given
      · cases given
      · rename_i name named
        simp only [bind_eq_ok_iff, pure_eq_ok_iff, literal_eq_ok_iff value,
          entryLiterals_eq_ok_iff entries] at given
        obtain ⟨l, first, rest, behind, rfl⟩ := given
        exact .cons (text?_eq_some_iff.mp named) first behind
    · rintro (_ | ⟨named, first, behind⟩)
      simp only [text?_eq_some_iff.mpr named, bind_eq_ok_iff, pure_eq_ok_iff,
        literal_eq_ok_iff value, entryLiterals_eq_ok_iff entries]
      exact ⟨_, first, _, behind, rfl⟩

end

/-- The expression is written as a wish for the default. -/
def IsReset (e : Expr) : Prop :=
  e.form = .name "RESET_VALUE" ∨
    ∃ path, e.form = .path path ∧ Constants.Spells path ["RESET_VALUE"]

end Expr

/-! ### Settings -/

namespace Scope

/-- What stands on a side of a choice: a literal that is no list or mapping, or a parameter that can
be seen there. -/
inductive Sides (s : Scope) : Expr → Setting → Prop where
  | literal {e : Expr} {l : Literal} (means : e.Means l) (scalar : l.isScalar = true) :
      Sides s e (.literal l)
  | param {e : Expr} {name : String} {p : Param} (written : e.form = .name name)
      (other : name ≠ "RESET_VALUE") (visible : s.param name e = .ok p) :
      Sides s e (.param p.name)

/-- The setting that an expression denotes. -/
inductive Denotes (s : Scope) : Expr → Setting → Prop where
  | literal {e : Expr} {l : Literal} (means : e.Means l) : Denotes s e (.literal l)
  | reset {e : Expr} (written : e.IsReset) : Denotes s e .reset
  | param {e : Expr} {name : String} {p : Param} (written : e.form = .name name)
      (other : name ≠ "RESET_VALUE") (visible : s.param name e = .ok p) :
      Denotes s e (.param p.name)
  /-- The condition is looked up where the call stands, each side where it stands itself. -/
  | choice {e callee yes no : Expr} {name : String} {p : Param} {v w : Setting}
      (written : e.form = .call callee [.positional yes, .positional no])
      (chooses : callee.form = .path [name, "thenElse"]) (visible : s.param name e = .ok p)
      (boolean : p.kind = .boolean) (first : Sides s yes v) (second : Sides s no w) :
      Denotes s e (.choice p.name v w)

variable {s : Scope} {e : Expr}

theorem chooser?_eq_some_iff {callee : Expr} {name : String} :
    chooser? callee = some name ↔ callee.form = .path [name, "thenElse"] := by
  unfold chooser? Expr.path?
  cases callee.form with
  | path parts =>
    split
    · rename_i split
      simp_all
    · rename_i other
      simpa using fun same : parts = [name, "thenElse"] => other name (congrArg some same)
  | _ => simp

theorem condition_eq_ok_iff {name : String} {p : Param} :
    s.condition name e = .ok p ↔ s.param name e = .ok p ∧ p.kind = .boolean := by
  simp only [condition, bind_eq_ok_iff]
  constructor
  · rintro ⟨q, visible, chosen⟩
    split at chosen
    · rename_i boolean
      cases chosen
      exact ⟨visible, boolean⟩
    · cases chosen
  · rintro ⟨visible, boolean⟩
    exact ⟨p, visible, by rw [if_pos boolean]; rfl⟩

/-! What the grammar gives, evaluation finds. -/

theorem evaluate_of_means {l : Literal} (means : e.Means l) :
    s.evaluate e = .ok (.literal l) := by
  have literal := e.literal_eq_ok_iff.mpr means
  obtain ⟨form, location, offset, text⟩ := e
  cases means with
  | bool written | int written | float written | text written | list written | dict written =>
    cases written
    rw [evaluate, literal]
    · rfl
    all_goals simp
  | member written spells known =>
    cases written
    exact Expr.constant_eq_ok_iff.mpr ⟨_, spells, .member known⟩

theorem evaluate_of_isReset (written : e.IsReset) : s.evaluate e = .ok .reset := by
  rcases written with written | ⟨path, written, spells⟩
  · exact evaluate_reset s written
  · obtain ⟨form, location, offset, text⟩ := e
    cases written
    exact Expr.constant_eq_ok_iff.mpr ⟨_, spells, .reset⟩

theorem evaluate_of_param {name : String} {p : Param} (written : e.form = .name name)
    (other : name ≠ "RESET_VALUE") (visible : s.param name e = .ok p) :
    s.evaluate e = .ok (.param p.name) :=
  (evaluate_eq_param_iff s written).mpr ⟨other, p, visible, rfl⟩

theorem exists_branch_of_sides {side : Setting} (sides : s.Sides e side) :
    ∃ v, s.evaluate e = .ok v ∧ branch e v = .ok side := by
  cases sides with
  | literal means scalar => exact ⟨_, evaluate_of_means means, by rw [branch, if_pos scalar]⟩
  | param written other visible => exact ⟨_, evaluate_of_param written other visible, rfl⟩

theorem evaluate_of_denotes {v : Setting} (denotes : s.Denotes e v) : s.evaluate e = .ok v := by
  cases denotes with
  | literal means => exact evaluate_of_means means
  | reset written => exact evaluate_of_isReset written
  | param written other visible => exact evaluate_of_param written other visible
  | @choice callee yes no name p v w written chooses visible boolean first second =>
    obtain ⟨form, location, offset, text⟩ := e
    cases written
    obtain ⟨yesValue, yesEvaluated, yesTaken⟩ := exists_branch_of_sides first
    obtain ⟨noValue, noEvaluated, noTaken⟩ := exists_branch_of_sides second
    rw [evaluate, chooser?_eq_some_iff.mpr chooses]
    simp only [bind_eq_ok_iff, pure_eq_ok_iff]
    exact ⟨p, condition_eq_ok_iff.mpr ⟨visible, boolean⟩, _, yesEvaluated, _, yesTaken, _,
      noEvaluated, _, noTaken, rfl⟩

/-! What evaluation finds, the grammar gives. -/

/-- Of the settings that an expression denotes, the plain ones can be a side of a choice. -/
theorem sides_of_branch {v side : Setting} (denotes : s.Denotes e v)
    (taken : branch e v = .ok side) : s.Sides e side := by
  cases denotes with
  | literal means =>
    rw [branch] at taken
    split at taken
    · rename_i scalar
      cases taken
      exact .literal means scalar
    · cases taken
  | reset => cases taken
  | param written other visible =>
    cases taken
    exact .param written other visible
  | choice => cases taken

theorem denotes_of_evaluate {v : Setting} (evaluated : s.evaluate e = .ok v) : s.Denotes e v := by
  induction e using Scope.evaluate.induct generalizing v with
  | case1 => cases evaluated
  | case2 =>
    cases evaluated
    exact .reset (.inl rfl)
  | case3 location offset text name notReset =>
    rw [evaluate, if_neg notReset, map_eq_ok_iff] at evaluated
    obtain ⟨p, visible, rfl⟩ := evaluated
    exact .param rfl notReset visible
  | case4 location offset text path =>
    obtain ⟨parts, spells, stands⟩ := Expr.constant_eq_ok_iff.mp evaluated
    cases stands with
    | member known => exact .literal (.member rfl spells known)
    | reset => exact .reset (.inr ⟨path, rfl, spells⟩)
  | case5 location offset text callee args notChooser =>
    rw [evaluate, notChooser] at evaluated
    cases evaluated
  | case6 location offset text callee name chooser yes no first second =>
    rw [evaluate, chooser] at evaluated
    simp only [bind_eq_ok_iff, pure_eq_ok_iff] at evaluated
    obtain ⟨p, chosen, v, yesValue, v', yesTaken, w, noValue, w', noTaken, rfl⟩ := evaluated
    obtain ⟨visible, boolean⟩ := condition_eq_ok_iff.mp chosen
    exact .choice rfl (chooser?_eq_some_iff.mp chooser) visible boolean
      (sides_of_branch (first yesValue) yesTaken) (sides_of_branch (second noValue) noTaken)
  | case7 location offset text callee args name chooser others =>
    rw [evaluate, chooser] at evaluated
    dsimp only at evaluated
    split at evaluated
    · exact (others _ _ rfl).elim
    · cases evaluated
  | case8 => cases evaluated
  | case9 form location offset text notNone notName notPath notCall notUnsupported =>
    rw [evaluate, map_eq_ok_iff] at evaluated
    · obtain ⟨l, literal, rfl⟩ := evaluated
      exact .literal ((Expr.literal_eq_ok_iff _).mp literal)
    all_goals assumption

theorem evaluate_eq_ok_iff {v : Setting} : s.evaluate e = .ok v ↔ s.Denotes e v :=
  ⟨denotes_of_evaluate, evaluate_of_denotes⟩

/-- An expression has a value exactly if the grammar gives it that value; it has a literal exactly
if its value is one. -/
theorem evaluates_iff_denotes (s : Scope) (e : Expr) :
    (∀ v, s.evaluate e = .ok v ↔ s.Denotes e v) ∧
      ∀ l, e.literal = .ok l ↔ s.evaluate e = .ok (.literal l) := by
  refine ⟨fun v => evaluate_eq_ok_iff, fun l => ?_⟩
  rw [e.literal_eq_ok_iff, evaluate_eq_ok_iff]
  constructor
  · exact .literal
  · rintro ⟨means⟩
    exact means

end Scope

end DeployManifest
