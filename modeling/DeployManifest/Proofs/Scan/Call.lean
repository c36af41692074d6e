import DeployManifest.Proofs.Scan

/-! # Calls that register

A call registers an endpoint, declares a parameter or sets options by the last two names of its
callee's path. `exists_recorded?_iff` and `records_of_recorded?` say that the search records such a
call, and what it records of it.
-/

namespace DeployManifest

namespace Finding

/-- Was it found as a call? A decorator alone is none. -/
def isCall : Finding → Bool
  | .registration r =>
    match r.form with
    | .bareDecorator _ => false
    | .decorator _ => true
    | .call _ => true
  | .declaration _ => true
  | .globalCall _ => true
  | .localName _ => false
  | .importedName _ => false

/-- Where the call starts that it was found as. -/
def offset? : Finding → Option Nat
  | .registration r => some r.offset
  | .declaration d => some d.offset
  | .globalCall g => some g.offset
  | .localName _ => none
  | .importedName _ => none

theorem IsName.isCall {found : Finding} (name : found.IsName) : found.isCall = false := by
  cases found with
  | registration _ | declaration _ | globalCall _ => cases name
  | localName _ | importedName _ => rfl

end Finding

namespace SourceModule

variable {m : SourceModule}

/-- The method of a call, and the name in front of it: the last two of the path that is called. -/
def Names (m : SourceModule) (call : Node) (space method : String) : Prop :=
  ∃ callee path, call.child? .function = some callee ∧ (m.lower callee).path? = some path ∧
    [space, method] <:+ path

/-- A method that registers an endpoint, declares a parameter, or sets options. -/
def IsKnown (space method : String) : Prop :=
  (space = "params" ∧ (ParamKind.ofMethod? method).isSome = true) ∨
    (space = "options" ∧ method = "setGlobalOptions") ∨ (Family.find? space method).isSome = true

/-- A call by a known method. -/
structure IsRegistering (m : SourceModule) (n : Node) : Prop where
  call : n.kind = .call
  known : ∃ space method, m.Names n space method ∧ IsKnown space method

/-- What is recorded of a call: the method by which it is known, its arguments and its place. -/
def Records (m : SourceModule) (call : Node) : Finding → Prop
  | .registration r =>
    (∃ space, m.Names call space r.method ∧ Family.find? space r.method = some r.family) ∧
      r.args = m.lowerCall call.children ∧ r.location = m.location call.start ∧
      r.offset = call.start
  | .declaration d =>
    (∃ method, m.Names call "params" method ∧ ParamKind.ofMethod? method = some d.kind) ∧
      d.args = m.lowerCall call.children ∧ d.location = m.location call.start ∧
      d.offset = call.start
  | .globalCall g =>
    m.Names call "options" "setGlobalOptions" ∧
      g.args = m.lowerCall call.children ∧ g.location = m.location call.start ∧
      g.offset = call.start
  | .localName _ => False
  | .importedName _ => False

theorem offset?_of_records {call : Node} {found : Finding} (records : m.Records call found) :
    found.offset? = some call.start := by
  cases found with
  | registration _ | declaration _ | globalCall _ => exact congrArg some records.2.2.2
  | localName _ | importedName _ => cases records

theorem lastTwo?_eq_some_iff {path : List String} {space method : String} :
    lastTwo? path = some (space, method) ↔ [space, method] <:+ path := by
  induction path with
  | nil => simp [lastTwo?]
  | cons first path ih =>
    rw [List.suffix_cons_iff, ← ih]
    cases path with
    | nil => simp [lastTwo?]
    | cons second rest =>
      cases rest with
      | nil => simp [lastTwo?, eq_comm]
      | cons third rest => simp [lastTwo?]

theorem names_iff {call : Node} {space method : String} :
    (call.child? .function).bind m.methodOf? = some (space, method) ↔
      m.Names call space method := by
  simp only [Names, methodOf?, Option.bind_eq_some_iff, lastTwo?_eq_some_iff]
  constructor
  · rintro ⟨callee, called, path, lowered, ends⟩
    exact ⟨callee, path, called, lowered, ends⟩
  · rintro ⟨callee, path, called, lowered, ends⟩
    exact ⟨callee, called, path, lowered, ends⟩

theorem declaring?_eq_some_iff {space method : String} {kind : ParamKind} :
    declaring? space method = some kind ↔
      space = "params" ∧ ParamKind.ofMethod? method = some kind := by
  rw [declaring?]
  split <;> simp_all

/-- The search records the calls by known methods. -/
theorem exists_recorded?_iff {call : Node} {binding : Option String} :
    (∃ found, m.recorded? call binding = some found) ↔
      ∃ space method, m.Names call space method ∧ IsKnown space method := by
  simp only [← names_iff, recorded?]
  cases (call.child? .function).bind m.methodOf? with
  | none => simp
  | some named =>
    obtain ⟨space, method⟩ := named
    have known : (∃ space' method', some (space, method) = some (space', method') ∧
        IsKnown space' method') ↔ IsKnown space method := by
      constructor
      · rintro ⟨_, _, ⟨rfl⟩, known⟩
        exact known
      · intro known
        exact ⟨space, method, rfl, known⟩
    rw [known, IsKnown]
    dsimp only
    split
    · rename_i kind declares
      obtain ⟨rfl, kind⟩ := declaring?_eq_some_iff.mp declares
      simp [kind]
    · rename_i undeclared
      have other : ¬ (space = "params" ∧ (ParamKind.ofMethod? method).isSome = true) := by
        rintro ⟨rfl, declares⟩
        rw [declaring?, if_pos rfl] at undeclared
        rw [undeclared] at declares
        cases declares
      split
      · rename_i sets
        simp [sets]
      · rename_i unset
        rw [or_iff_right other, or_iff_right unset]
        cases Family.find? space method <;> simp

theorem isRegistering_iff {n : Node} (binding : Option String) :
    m.IsRegistering n ↔ n.kind = .call ∧ ∃ found, m.recorded? n binding = some found := by
  rw [exists_recorded?_iff]
  constructor
  · rintro ⟨call, known⟩
    exact ⟨call, known⟩
  · rintro ⟨call, known⟩
    exact ⟨call, known⟩

theorem records_of_recorded? {call : Node} {binding : Option String} {found : Finding}
    (recorded : m.recorded? call binding = some found) :
    found.isCall = true ∧ m.Records call found := by
  rw [recorded?] at recorded
  split at recorded
  · cases recorded
  · rename_i space method named
    rw [names_iff] at named
    dsimp only at recorded
    split at recorded
    · rename_i kind declares
      cases recorded
      obtain ⟨rfl, kind⟩ := declaring?_eq_some_iff.mp declares
      exact ⟨rfl, ⟨method, named, kind⟩, rfl, rfl, rfl⟩
    · split at recorded
      · rename_i sets
        cases recorded
        obtain ⟨rfl, rfl⟩ := sets
        exact ⟨rfl, named, rfl, rfl, rfl⟩
      · obtain ⟨family, known, rfl⟩ := Option.map_eq_some_iff.mp recorded
        exact ⟨rfl, ⟨space, named, known⟩, rfl, rfl, rfl⟩

theorem registering?_eq_some_iff {callee : Node} {family : Family} {method : String} :
    m.registering? callee = some (family, method) ↔
      ∃ space, m.methodOf? callee = some (space, method) ∧
        Family.find? space method = some family := by
  rw [registering?]
  cases m.methodOf? callee with
  | none => simp
  | some named =>
    obtain ⟨space, given⟩ := named
    simp only [Option.map_eq_some_iff, Option.some.injEq, Prod.mk.injEq]
    constructor
    · rintro ⟨_, known, rfl, rfl⟩
      exact ⟨space, ⟨rfl, rfl⟩, known⟩
    · rintro ⟨_, ⟨rfl, rfl⟩, known⟩
      exact ⟨family, known, rfl, rfl⟩

/-- A decorator that is a call is recorded like any other. -/
theorem records_of_calledDecorator? {function : String} {call : Node} {found : Finding}
    (recorded : m.calledDecorator? function call = some found) :
    found.isCall = true ∧ m.Records call found ∧
      ∃ space method, m.Names call space method ∧ IsKnown space method := by
  obtain ⟨⟨family, method⟩, registers, rfl⟩ := Option.map_eq_some_iff.mp recorded
  obtain ⟨callee, called, registers⟩ := Option.bind_eq_some_iff.mp registers
  obtain ⟨space, named, known⟩ := registering?_eq_some_iff.mp registers
  have names : m.Names call space method :=
    names_iff.mp (Option.bind_eq_some_iff.mpr ⟨callee, called, named⟩)
  exact ⟨rfl, ⟨⟨space, names, known⟩, rfl, rfl, rfl⟩, space, method, names,
    .inr (.inr (Option.isSome_iff_exists.mpr ⟨family, known⟩))⟩

/-- The value of an assignment: its first part on the right. -/
theorem find?_right_eq_some_iff {children : List Node} {value : Node} :
    children.find? (·.role == .right) = some value ↔
      ∃ i, children.findIdx? (·.role == .right) = some i ∧ children[i]? = some value := by
  rw [List.find?_eq_bind_findIdx?_getElem?, Option.bind_eq_some_iff]

/-- An assignment records its value, if that is a call by a known method. -/
theorem exists_of_assignedCall? {children : List Node} {found : Finding}
    (recorded : m.assignedCall? children = some found) :
    ∃ i value, children.findIdx? (·.role == .right) = some i ∧ children[i]? = some value ∧
      m.IsRegistering value ∧ found.isCall = true ∧ m.Records value found := by
  rw [assignedCall?] at recorded
  split at recorded
  · rename_i value given
    split at recorded
    · rename_i call
      obtain ⟨i, first, there⟩ := find?_right_eq_some_iff.mp given
      exact ⟨i, value, first, there, (isRegistering_iff _).mpr ⟨call, found, recorded⟩,
        records_of_recorded? recorded⟩
    · cases recorded
  · cases recorded

theorem not_isRegistering_of_assignedCall? {children : List Node}
    (unrecorded : m.assignedCall? children = none) {i : Nat} {value : Node}
    (first : children.findIdx? (·.role == .right) = some i) (there : children[i]? = some value) :
    ¬ m.IsRegistering value := by
  intro registering
  obtain ⟨call, found, recorded⟩ := (isRegistering_iff (m.assignedName? children)).mp registering
  rw [assignedCall?, find?_right_eq_some_iff.mpr ⟨i, first, there⟩] at unrecorded
  simp [call, recorded] at unrecorded

theorem isCall_of_bareDecorator? {function : String} {n : Node} {found : Finding}
    (recorded : m.bareDecorator? function n = some found) : found.isCall = false := by
  obtain ⟨_, _, rfl⟩ := Option.map_eq_some_iff.mp recorded
  rfl

end SourceModule

end DeployManifest
