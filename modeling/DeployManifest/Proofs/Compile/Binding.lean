import DeployManifest.Proofs.Options.Given

/-! # What the arguments of a registration bind

Arguments with the positional ones in front are known by two lists, the positional values and the
keywords (`arguments_eq_ok_iff`). The address takes the first positional value or its keyword, then
the handler does so with what is left (`Takes`); the other keywords are options. `bound_eq_ok_iff`
says all that binding can do, so that what is given by position and what by keyword can be traded.
-/

namespace DeployManifest

open Outcome

/-! ### Lists with distinct names -/

/-- With distinct keys, a look-up is membership. -/
theorem find?_key_eq_some_iff {α : Type} {key : α → String} {xs : List α}
    (distinct : (xs.map key).Nodup) {name : String} {x : α} :
    xs.find? (key · == name) = some x ↔ x ∈ xs ∧ key x = name := by
  constructor
  · intro found
    exact ⟨List.mem_of_find?_eq_some found, by simpa using List.find?_some found⟩
  · rintro ⟨member, rfl⟩
    cases found : xs.find? (key · == key x) with
    | none => exact absurd (List.find?_eq_none.mp found x member) (by simp)
    | some y =>
      have same : key y = key x := by simpa using List.find?_some found
      rw [List.inj_on_of_nodup_map distinct (List.mem_of_find?_eq_some found) member same]

/-! ### Arguments by kind -/

namespace Argument

/-- The value of a positional argument. -/
def positional? : Argument → Option Expr
  | .positional value => some value
  | .keyword _ _ _ => none
  | .splat _ => none

@[simp] theorem positional?_positional (value : Expr) :
    (Argument.positional value).positional? = some value := rfl

/-- Is the argument unpacked into others? -/
def isSplat : Argument → Bool
  | .splat _ => true
  | .positional _ => false
  | .keyword _ _ _ => false

/-- Arguments in two parts: no keyword is in the first, no positional one in the second. -/
structure Parted (front back : List Argument) : Prop where
  front : ∀ arg ∈ front, arg.keyword? = none
  back : ∀ arg ∈ back, arg.positional? = none

/-- No keyword stands in front of a positional argument. -/
def PositionalsFirst (args : List Argument) : Prop :=
  args.Pairwise fun earlier later => earlier.keyword? = none ∨ later.positional? = none

theorem Parted.positionalsFirst {front back : List Argument} (parted : Parted front back) :
    PositionalsFirst (front ++ back) := by
  refine List.pairwise_append.mpr ⟨?_, ?_, ?_⟩
  · exact List.pairwise_of_forall_mem_list fun arg member _ _ => .inl (parted.front arg member)
  · exact List.pairwise_of_forall_mem_list fun _ _ arg member => .inr (parted.back arg member)
  · exact fun arg member _ _ => .inl (parted.front arg member)

/-- Arguments can be parted exactly if no keyword stands in front of a positional one. -/
theorem exists_parted_iff {args : List Argument} :
    (∃ front back, args = front ++ back ∧ Parted front back) ↔ PositionalsFirst args := by
  constructor
  · rintro ⟨front, back, rfl, parted⟩
    exact parted.positionalsFirst
  · intro first
    induction args with
    | nil => exact ⟨[], [], rfl, by simp, by simp⟩
    | cons arg args ih =>
      obtain ⟨here, first⟩ := List.pairwise_cons.mp first
      cases named : arg.keyword? with
      | none =>
        obtain ⟨front, back, rfl, parted⟩ := ih first
        exact ⟨arg :: front, back, rfl, List.forall_mem_cons.mpr ⟨named, parted.front⟩, parted.back⟩
      | some k =>
        obtain rfl := keyword?_eq_some_iff.mp named
        have rest : ∀ other ∈ args, other.positional? = none :=
          fun other member => (here other member).resolve_left (by simp [keyword?])
        exact ⟨[], _, rfl, by simp, List.forall_mem_cons.mpr ⟨rfl, rest⟩⟩

end Argument

namespace Registration

variable {r : Registration}

/-- The arguments by kind, whatever their order. -/
def Arguments.ofList (args : List Argument) : Arguments :=
  ⟨args.filterMap (·.positional?), args.filterMap (·.keyword?)⟩

theorem foldlM_front {front : List Argument} (bare : ∀ arg ∈ front, arg.keyword? = none)
    {values : List Expr} {given : Arguments} :
    front.foldlM r.addArgument ⟨values, []⟩ = .ok given ↔
      (∀ arg ∈ front, arg.isSplat = false) ∧
        given = ⟨values ++ front.filterMap (·.positional?), []⟩ := by
  induction front generalizing values with
  | nil =>
    rw [List.foldlM_nil, pure_eq_ok_iff, List.filterMap_nil, List.append_nil]
    exact ⟨fun same => ⟨by simp, same.symm⟩, fun whole => whole.2.symm⟩
  | cons arg front ih =>
    obtain ⟨here, others⟩ := List.forall_mem_cons.mp bare
    rw [List.foldlM_cons]
    cases arg with
    | positional value =>
      have step : r.addArgument ⟨values, []⟩ (.positional value) = .ok ⟨values ++ [value], []⟩ := rfl
      rw [step, List.forall_mem_cons]
      exact (ih others).trans (by simp [Argument.isSplat, Argument.positional?])
    | keyword => cases here
    | splat location =>
      constructor
      · intro added
        cases added
      · rintro ⟨plain, -⟩
        cases plain _ (List.mem_cons_self ..)

theorem keyword?_eq_none_iff {given : Arguments} {name : String} :
    given.keyword? name = none ↔ name ∉ given.keywords.map (·.name) := by
  simp [Arguments.keyword?, List.find?_eq_none]

/-- A keyword is taken unless there is one of its name. -/
theorem addKeyword_eq_ok_iff {values : List Expr} {keywords : List OptionArgument} {name : String}
    {value : Expr} {location : Location} {given : Arguments} :
    r.addArgument ⟨values, keywords⟩ (.keyword name value location) = .ok given ↔
      name ∉ keywords.map (·.name) ∧ given = ⟨values, keywords ++ [⟨name, value, location⟩]⟩ := by
  have free : Arguments.keyword? ⟨values, keywords⟩ name = none ↔ name ∉ keywords.map (·.name) :=
    keyword?_eq_none_iff
  rw [← free, addArgument]
  cases Arguments.keyword? ⟨values, keywords⟩ name <;> simp [eq_comm]

theorem foldlM_back {back : List Argument} (bare : ∀ arg ∈ back, arg.positional? = none)
    {values : List Expr} {keywords : List OptionArgument} {given : Arguments}
    (distinct : (keywords.map (·.name)).Nodup) :
    back.foldlM r.addArgument ⟨values, keywords⟩ = .ok given ↔
      (∀ arg ∈ back, arg.isSplat = false) ∧
        ((keywords ++ back.filterMap (·.keyword?)).map (·.name)).Nodup ∧
        given = ⟨values, keywords ++ back.filterMap (·.keyword?)⟩ := by
  induction back generalizing keywords with
  | nil =>
    rw [List.foldlM_nil, pure_eq_ok_iff, List.filterMap_nil, List.append_nil]
    exact ⟨fun same => ⟨by simp, distinct, same.symm⟩, fun whole => whole.2.2.symm⟩
  | cons arg back ih =>
    obtain ⟨here, others⟩ := List.forall_mem_cons.mp bare
    rw [List.foldlM_cons]
    cases arg with
    | positional => cases here
    | keyword name value location =>
      let k : OptionArgument := ⟨name, value, location⟩
      have row : keywords ++ (Argument.keyword name value location :: back).filterMap (·.keyword?) =
          (keywords ++ [k]) ++ back.filterMap (·.keyword?) := by
        rw [List.append_assoc]
        rfl
      have fresh : ((keywords ++ [k]).map (·.name)).Nodup ↔ name ∉ keywords.map (·.name) := by
        rw [List.map_append, List.nodup_append_comm]
        exact List.nodup_cons.trans (and_iff_left distinct)
      rw [row, List.forall_mem_cons, bind_eq_ok_iff]
      simp only [addKeyword_eq_ok_iff]
      constructor
      · rintro ⟨_, ⟨free, rfl⟩, added⟩
        obtain ⟨plain, unique, rest⟩ := (ih others (fresh.mpr free)).mp added
        exact ⟨⟨rfl, plain⟩, unique, rest⟩
      · rintro ⟨⟨-, plain⟩, unique, rest⟩
        have first : ((keywords ++ [k]).map (·.name)).Nodup := by
          rw [List.map_append] at unique
          exact (List.nodup_append.mp unique).1
        exact ⟨_, ⟨fresh.mp first, rfl⟩, (ih others first).mpr ⟨plain, unique, rest⟩⟩
    | splat location =>
      constructor
      · intro added
        cases added
      · rintro ⟨plain, -⟩
        cases plain _ (List.mem_cons_self ..)

theorem Arguments.ofList_append {front back : List Argument}
    (parted : Argument.Parted front back) :
    ofList (front ++ back) = ⟨front.filterMap (·.positional?), back.filterMap (·.keyword?)⟩ := by
  rw [ofList, List.filterMap_append, List.filterMap_append,
    List.filterMap_eq_nil_iff.mpr parted.back, List.filterMap_eq_nil_iff.mpr parted.front,
    List.append_nil, List.nil_append]

/-- Arguments with the positional ones in front are taken if none is to be unpacked and no keyword
is repeated. -/
theorem arguments_eq_ok_iff (first : Argument.PositionalsFirst r.args) {given : Arguments} :
    r.arguments = .ok given ↔ (∀ arg ∈ r.args, arg.isSplat = false) ∧
      ((Arguments.ofList r.args).keywords.map (·.name)).Nodup ∧ given = .ofList r.args := by
  obtain ⟨front, back, whole, parted⟩ := Argument.exists_parted_iff.mpr first
  have initial : (([] : List OptionArgument).map (·.name)).Nodup := List.nodup_nil
  rw [arguments, whole, List.foldlM_append, bind_eq_ok_iff, Arguments.ofList_append parted,
    List.forall_mem_append]
  simp only [foldlM_front parted.front]
  constructor
  · rintro ⟨_, ⟨plainFront, rfl⟩, added⟩
    obtain ⟨plainBack, distinct, rfl⟩ := (foldlM_back parted.back initial).mp added
    exact ⟨⟨plainFront, plainBack⟩, distinct, rfl⟩
  · rintro ⟨⟨plainFront, plainBack⟩, distinct, rfl⟩
    exact ⟨_, ⟨plainFront, rfl⟩,
      (foldlM_back parted.back initial).mpr ⟨plainBack, distinct, rfl⟩⟩

/-! ### The parts of a registration -/

/-- A value that is taken by name among keywords or else from the front of the positional values,
and the positional values behind it. Nothing can be given both ways. -/
inductive Takes (keywords : List OptionArgument) (name : String) :
    List Expr → Expr → List Expr → Prop where
  | position {value : Expr} {rest : List Expr} (free : ∀ k ∈ keywords, k.name ≠ name) :
      Takes keywords name (value :: rest) value rest
  | keyword {k : OptionArgument} (given : k ∈ keywords) (named : k.name = name) :
      Takes keywords name [] k.value []

theorem takeEither_eq_ok_iff {fault : ShapeFault} {given : Arguments} {name : String}
    {values rest : List Expr} {value : Expr} (distinct : (given.keywords.map (·.name)).Nodup) :
    r.takeEither fault values (given.keyword? name) = .ok (some value, rest) ↔
      Takes given.keywords name values value rest := by
  constructor
  · intro taken
    cases found : given.keyword? name with
    | none =>
      rw [found] at taken
      have free : ∀ k ∈ given.keywords, k.name ≠ name := by
        simpa [Arguments.keyword?] using found
      cases values with
      | nil => cases taken
      | cons first others =>
        cases taken
        exact .position free
    | some k =>
      rw [found] at taken
      obtain ⟨member, named⟩ := (find?_key_eq_some_iff distinct).mp found
      cases values with
      | cons first others => cases taken
      | nil =>
        cases taken
        exact .keyword member named
  · intro takes
    cases takes with
    | position free =>
      have missing : given.keyword? name = none := by simpa [Arguments.keyword?] using free
      rw [missing]
      rfl
    | keyword member named =>
      have found : given.keyword? name = some _ :=
        (find?_key_eq_some_iff distinct).mpr ⟨member, named⟩
      rw [found]
      rfl

/-- The address that is taken from arguments, and the positional values behind it. -/
inductive Addresses (family : Family) (given : Arguments) : Option Address → List Expr → Prop where
  | without (bare : family.addressKeyword? = none) : Addresses family given none given.positional
  | given {keyword text : String} {value : Expr} {rest : List Expr}
      (addressed : family.addressKeyword? = some keyword)
      (taken : Takes given.keywords keyword given.positional value rest)
      (constant : value.text? = some text) :
      Addresses family given (some ⟨text, value.location⟩) rest

/-- The name that is exported, with the positional values behind the address: none of them is left
over. -/
inductive Handles (form : RegistrationForm) (keywords : List OptionArgument) :
    Option String → List Expr → Prop where
  | decorated {function : String} (written : form = .decorator function)
      (free : ∀ k ∈ keywords, k.name ≠ "handler") : Handles form keywords (some function) []
  | called {binding : Option String} {value : Expr} {values : List Expr}
      (written : form = .call binding) (taken : Takes keywords "handler" values value [])
      (given : value.isNone = false) : Handles form keywords (binding.or value.name?) values

theorem Handles.called_or_decorated {form : RegistrationForm} {keywords : List OptionArgument}
    {entryPoint : Option String} {values : List Expr}
    (handles : Handles form keywords entryPoint values) (function : String) :
    form ≠ .bareDecorator function := by
  rintro rfl
  cases handles with
  | decorated written | called written => cases written

theorem required_eq_ok_iff {argument : String} {value : Option Expr} {e : Expr} :
    r.required argument value = .ok e ↔ value = some e ∧ e.isNone = false := by
  rw [required]
  split
  · rename_i other kept
    obtain ⟨rfl, given⟩ := Option.filter_eq_some_iff.mp kept
    simp only [Except.ok.injEq, Option.some.injEq]
    exact ⟨fun same => ⟨same, same ▸ by simpa using given⟩, And.left⟩
  · rename_i missing
    constructor
    · intro taken
      cases taken
    · rintro ⟨rfl, given⟩
      simp [Option.filter, given] at missing

theorem isNone_of_text? {e : Expr} {text : String} (constant : e.text? = some text) :
    e.isNone = false := by
  obtain ⟨form, _, _, _⟩ := e
  cases form <;> first | rfl | cases constant

theorem addressOf_eq_ok_iff {given : Arguments} {address : Option Address} {rest : List Expr}
    (distinct : (given.keywords.map (·.name)).Nodup) :
    r.addressOf given = .ok (address, rest) ↔ Addresses r.family given address rest := by
  cases addressed : r.family.addressKeyword? with
  | none =>
    have same : r.addressOf given = .ok (none, given.positional) := by rw [addressOf, addressed]
    rw [same]
    constructor
    · intro taken
      cases taken
      exact .without addressed
    · intro addresses
      cases addresses with
      | without => rfl
      | given other =>
        rw [addressed] at other
        cases other
  | some keyword =>
    simp only [addressOf, addressed, bind_eq_ok_iff, required_eq_ok_iff]
    constructor
    · rintro ⟨⟨_, others⟩, taken, e, ⟨rfl, -⟩, made⟩
      have takes := (takeEither_eq_ok_iff distinct).mp taken
      dsimp only at made
      split at made
      · rename_i text constant
        cases made
        exact .given addressed takes constant
      · cases made
    · intro addresses
      cases addresses with
      | without bare =>
        rw [bare] at addressed
        cases addressed
      | given other taken constant =>
        obtain rfl := Option.some.inj (other.symm.trans addressed)
        refine ⟨_, (takeEither_eq_ok_iff distinct).mpr taken, _, ⟨rfl, isNone_of_text? constant⟩, ?_⟩
        simp only [constant]
        rfl

theorem entryPointOf_eq_ok_iff {given : Arguments} {values : List Expr}
    {entryPoint : Option String} (distinct : (given.keywords.map (·.name)).Nodup)
    (called : ∀ function, r.form ≠ .bareDecorator function) :
    r.entryPointOf given values = .ok (entryPoint, []) ↔
      Handles r.form given.keywords entryPoint values := by
  cases form : r.form with
  | bareDecorator function => exact absurd form (called function)
  | decorator function =>
    constructor
    · intro taken
      rw [entryPointOf, form] at taken
      dsimp only at taken
      split at taken
      · cases taken
      · cases taken
      · rename_i empty missing
        cases taken
        obtain rfl := List.head?_eq_none_iff.mp empty
        exact .decorated rfl (by simpa [Arguments.keyword?] using missing)
    · intro handles
      cases handles with
      | called other => cases other
      | decorated written free =>
        cases written
        have missing : given.keyword? "handler" = none := by simpa [Arguments.keyword?] using free
        rw [entryPointOf, form]
        simp [missing]
  | call binding =>
    simp only [entryPointOf, form, bind_eq_ok_iff, required_eq_ok_iff, pure_eq_ok_iff]
    constructor
    · rintro ⟨⟨_, others⟩, taken, e, ⟨rfl, given⟩, made⟩
      cases made
      exact .called rfl ((takeEither_eq_ok_iff distinct).mp taken) given
    · intro handles
      cases handles with
      | decorated other => cases other
      | called written taken given =>
        cases written
        exact ⟨_, (takeEither_eq_ok_iff distinct).mpr taken, _, ⟨rfl, given⟩, rfl⟩

/-- The options among keywords: those that are neither reserved nor `None`. -/
def chosen (r : Registration) (keywords : List OptionArgument) : List OptionArgument :=
  keywords.filter fun k => !r.isReserved k.name && !k.value.isNone

theorem optionsOf_eq_ok_iff {keywords options : List OptionArgument} :
    r.optionsOf keywords = .ok options ↔
      (∀ k ∈ keywords, r.isReserved k.name = false → r.family.accepts k.name = true) ∧
        options = r.chosen keywords := by
  refine ⟨fun taken => ⟨?_, optionsOf_eq taken⟩, ?_⟩
  · induction keywords generalizing options with
    | nil => simp
    | cons k ks ih =>
      rw [optionsOf] at taken
      split at taken
      · rename_i reserved
        refine List.forall_mem_cons.mpr ⟨fun free => ?_, ih taken⟩
        rw [reserved] at free
        cases free
      · split at taken
        · rename_i accepted
          simp only [bind_eq_ok_iff] at taken
          obtain ⟨rest, others, -⟩ := taken
          exact List.forall_mem_cons.mpr ⟨fun _ => accepted, ih others⟩
        · cases taken
  · rintro ⟨accepted, rfl⟩
    induction keywords with
    | nil => rfl
    | cons k ks ih =>
      obtain ⟨here, accepted⟩ := List.forall_mem_cons.mp accepted
      rw [optionsOf, ih accepted, chosen, chosen, List.filter_cons]
      cases reserved : r.isReserved k.name with
      | true => simp
      | false =>
        rw [here reserved]
        cases k.value.isNone <;> simp [bind, Except.bind, pure, Except.pure]

/-- Arguments by kind give a registration its address and its name, and nothing is wrong with
them. -/
structure Settles (r : Registration) (given : Arguments) (address : Option Address)
    (entryPoint : Option String) : Prop where
  distinct : (given.keywords.map (·.name)).Nodup
  parts : ∃ rest, Addresses r.family given address rest ∧
    Handles r.form given.keywords entryPoint rest
  accepted : ∀ k ∈ given.keywords, r.isReserved k.name = false → r.family.accepts k.name = true

/-- All that binding can do with arguments that have the positional ones in front. -/
theorem bound_eq_ok_iff (first : Argument.PositionalsFirst r.args) {c : BoundCall} :
    r.bound = .ok c ↔
      (∀ arg ∈ r.args, arg.isSplat = false) ∧
        r.Settles (.ofList r.args) c.address c.entryPoint ∧
        c.options = r.chosen (Arguments.ofList r.args).keywords ∧ c.site = r := by
  constructor
  · intro taken
    unfold Registration.bound at taken
    split at taken
    · cases taken
    · rename_i called
      simp only [bind_eq_ok_iff, arguments_eq_ok_iff first] at taken
      obtain ⟨_, ⟨plain, named, rfl⟩, ⟨address, rest⟩, placed, ⟨entryPoint, left⟩, handled,
        taken⟩ := taken
      cases left with
      | cons extra _ => cases taken
      | nil =>
        simp only [bind_eq_ok_iff, optionsOf_eq_ok_iff, pure_eq_ok_iff] at taken
        obtain ⟨_, ⟨accepted, rfl⟩, rfl⟩ := taken
        have addresses := (addressOf_eq_ok_iff named).mp placed
        have handles := (entryPointOf_eq_ok_iff named called).mp handled
        exact ⟨plain, ⟨named, ⟨rest, addresses, handles⟩, accepted⟩, rfl, rfl⟩
  · obtain ⟨site, address, options, entryPoint⟩ := c
    rintro ⟨plain, ⟨named, ⟨rest, addresses, handles⟩, accepted⟩, same, here⟩
    dsimp only at addresses handles same here
    subst same here
    have called := handles.called_or_decorated
    unfold Registration.bound
    split
    · rename_i function bare
      exact absurd bare (called function)
    · simp only [bind_eq_ok_iff, arguments_eq_ok_iff first]
      refine ⟨_, ⟨plain, named, rfl⟩, _, (addressOf_eq_ok_iff named).mpr addresses, _,
        (entryPointOf_eq_ok_iff named called).mpr handles, ?_⟩
      simp only [bind_eq_ok_iff, optionsOf_eq_ok_iff, pure_eq_ok_iff]
      exact ⟨_, ⟨accepted, rfl⟩, rfl⟩

end Registration

end DeployManifest
