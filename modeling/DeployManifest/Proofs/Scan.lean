import DeployManifest.Compile.Basic

/-! # What is found

Besides the names that it binds, a module yields only what its calls and its decorators record
(`findings_covered`), so a property of these is one of everything found. Main statements:
`method_mem_of_scan?` for every registration, `file_of_scan?` for every declaration.
-/

namespace DeployManifest

theorem Family.method_mem_of_find? {space method : String} {family : Family}
    (found : Family.find? space method = some family) : method ∈ family.methods := by
  have both := List.find?_some found
  rw [Bool.and_eq_true] at both
  exact List.contains_iff_mem.mp both.2

namespace Finding

/-- Is it a name that the module binds? -/
def IsName : Finding → Prop
  | .localName _ => True
  | .importedName _ => True
  | _ => False

/-- What is found fits the families: a registration is by a method of its own. -/
def Fits : Finding → Prop
  | .registration r => r.method ∈ r.family.methods
  | _ => True

/-- What is found stands in the module: a declaration has its place there. -/
def StandsIn (module : String) : Finding → Prop
  | .declaration d => d.location.file = module
  | _ => True

theorem IsName.fits {found : Finding} (name : found.IsName) : found.Fits := by
  cases found <;> trivial

theorem IsName.standsIn {found : Finding} {module : String} (name : found.IsName) :
    found.StandsIn module := by
  cases found <;> trivial

theorem mem_filterMap_localName? {found : List Finding} {name : String} :
    name ∈ found.filterMap (·.localName?) ↔ .localName name ∈ found := by
  rw [List.mem_filterMap]
  constructor
  · rintro ⟨finding, member, told⟩
    cases finding <;> cases told
    exact member
  · intro member
    exact ⟨_, member, rfl⟩

theorem mem_filterMap_importedName? {found : List Finding} {name : String} :
    name ∈ found.filterMap (·.importedName?) ↔ .importedName name ∈ found := by
  rw [List.mem_filterMap]
  constructor
  · rintro ⟨finding, member, told⟩
    cases finding <;> cases told
    exact member
  · intro member
    exact ⟨_, member, rfl⟩

end Finding

theorem ModuleScan.mem_locals_iff {s : ModuleScan} {name : String} :
    name ∈ s.locals ↔ .localName name ∈ s.findings :=
  Finding.mem_filterMap_localName?

theorem ModuleScan.mem_imports_iff {s : ModuleScan} {name : String} :
    name ∈ s.imports ↔ .importedName name ∈ s.findings :=
  Finding.mem_filterMap_importedName?

namespace SourceModule

variable (m : SourceModule)

/-! ### Names -/

theorem boundIn_isName {role : Role} {nodes : List Node} :
    ∀ found ∈ m.boundIn role nodes, found.IsName := by
  intro found member
  rw [boundIn] at member
  split at member
  · obtain ⟨_, _, rfl⟩ := List.mem_map.mp member
    trivial
  · cases member

theorem boundName_isName {role : Role} {nodes : List Node} :
    ∀ found ∈ m.boundName role nodes, found.IsName := by
  intro found member
  rw [boundName] at member
  split at member
  · cases List.mem_singleton.mp member
    trivial
  · cases member

theorem parameterName_isName {n : Node} : ∀ found ∈ m.parameterName n, found.IsName := by
  intro found member
  rw [parameterName] at member
  split at member
  · cases List.mem_singleton.mp member
    trivial
  · exact m.boundName_isName found member
  · exact m.boundName_isName found member
  · split at member
    · cases List.mem_singleton.mp member
      trivial
    · cases member

theorem importName_isName {n : Node} : ∀ found ∈ m.importName n, found.IsName := by
  intro found member
  rw [importName] at member
  split at member
  · cases member
  · split at member
    · obtain ⟨_, _, rfl⟩ := List.mem_map.mp member
      trivial
    · obtain ⟨_, _, rfl⟩ := List.mem_map.mp member
      trivial
    · cases member

theorem ownNames_isName {kind : NodeKind} {children : List Node} :
    ∀ found ∈ m.ownNames kind children, found.IsName := by
  intro found member
  unfold ownNames at member
  split at member
  · exact m.boundIn_isName found member
  · exact m.boundIn_isName found member
  · exact m.boundIn_isName found member
  · exact m.boundIn_isName found member
  · exact m.boundName_isName found member
  · exact m.boundName_isName found member
  · obtain ⟨_, _, member⟩ := List.mem_flatMap.mp member
    exact m.parameterName_isName found member
  · obtain ⟨_, _, member⟩ := List.mem_flatMap.mp member
    exact m.parameterName_isName found member
  · obtain ⟨_, _, member⟩ := List.mem_flatMap.mp member
    exact m.importName_isName found member
  · obtain ⟨_, _, member⟩ := List.mem_flatMap.mp member
    exact m.importName_isName found member
  · obtain ⟨_, _, rfl⟩ := List.mem_map.mp member
    trivial
  · cases member

/-! ### Everything found -/

/-- A property of every name and of everything that a call or a decorator records. -/
structure Covers (P : Finding → Prop) : Prop where
  names : ∀ found, found.IsName → P found
  recorded : ∀ {call binding found}, m.recorded? call binding = some found → P found
  calledDecorator : ∀ {function call found},
    m.calledDecorator? function call = some found → P found
  bareDecorator : ∀ {function n found}, m.bareDecorator? function n = some found → P found

variable {m} {P : Finding → Prop}

theorem Covers.ownNames (covers : m.Covers P) {kind : NodeKind} {children : List Node} :
    ∀ found ∈ m.ownNames kind children, P found :=
  fun found member => covers.names found (m.ownNames_isName found member)

theorem Covers.assignedCall (covers : m.Covers P) {children : List Node} {found : Finding}
    (recorded : m.assignedCall? children = some found) : P found := by
  rw [assignedCall?] at recorded
  split at recorded
  · split at recorded
    · exact covers.recorded recorded
    · cases recorded
  · cases recorded

mutual

theorem findings_covered (covers : m.Covers P) : ∀ (n : Node), ∀ found ∈ m.findings n, P found
  | .mk kind role start stop children => by
    intro found member
    unfold findings at member
    split at member
    · exact findingsDecorated_covered covers _ children found member
    · split at member
      · cases List.mem_singleton.mp member
        exact covers.recorded ‹_›
      · exact findingsAll_covered covers children found member
    · split at member
      · rcases List.mem_append.mp member with member | member
        · exact covers.ownNames found member
        · cases List.mem_singleton.mp member
          exact covers.assignedCall ‹_›
      · rcases List.mem_append.mp member with member | member
        · exact covers.ownNames found member
        · exact findingsAll_covered covers children found member
    · rcases List.mem_append.mp member with member | member
      · exact covers.ownNames found member
      · exact findingsAll_covered covers children found member

theorem findingsAll_covered (covers : m.Covers P) : ∀ (nodes : List Node),
    ∀ found ∈ m.findingsAll nodes, P found
  | [] => by
    intro found member
    rw [findingsAll] at member
    cases member
  | n :: ns => by
    intro found member
    rw [findingsAll] at member
    rcases List.mem_append.mp member with member | member
    · exact findings_covered covers n found member
    · exact findingsAll_covered covers ns found member

theorem findingsDecorated_covered (covers : m.Covers P) (function : String) :
    ∀ (nodes : List Node), ∀ found ∈ m.findingsDecorated function nodes, P found
  | [] => by
    intro found member
    rw [findingsDecorated] at member
    cases member
  | .mk kind role start stop children :: ns => by
    intro found member
    rw [findingsDecorated] at member
    rcases List.mem_append.mp member with member | member
    · split at member
      · exact findingsDecorator_covered covers function children found member
      · exact findings_covered covers (.mk kind role start stop children) found member
    · exact findingsDecorated_covered covers function ns found member

theorem findingsDecorator_covered (covers : m.Covers P) (function : String) :
    ∀ (nodes : List Node), ∀ found ∈ m.findingsDecorator function nodes, P found
  | [] => by
    intro found member
    rw [findingsDecorator] at member
    cases member
  | n :: _ => by
    intro found member
    rw [findingsDecorator] at member
    split at member
    · split at member
      · cases List.mem_singleton.mp member
        exact covers.calledDecorator ‹_›
      · exact findings_covered covers n found member
    · exact covers.bareDecorator (Option.mem_toList.mp member)
    · exact findings_covered covers n found member

end

theorem covered_of_scan? (covers : m.Covers P) {scan : ModuleScan}
    (searched : m.scan? = some scan) : ∀ found ∈ scan.findings, P found := by
  obtain ⟨tree, _, rfl⟩ := Option.map_eq_some_iff.mp searched
  exact findings_covered covers tree

theorem scan_eq_ok_iff {scan : ModuleScan} : m.scan = .ok scan ↔ m.scan? = some scan := by
  rw [SourceModule.scan]
  cases m.scan? <;> simp

theorem module_of_scan {scan : ModuleScan} (searched : m.scan = .ok scan) :
    scan.module = m.name := by
  obtain ⟨tree, -, rfl⟩ := Option.map_eq_some_iff.mp (scan_eq_ok_iff.mp searched)
  rfl

/-! ### Registrations fit their families -/

theorem registering?_fits {callee : Node} {family : Family} {method : String}
    (found : m.registering? callee = some (family, method)) : method ∈ family.methods := by
  rw [registering?] at found
  split at found
  · obtain ⟨_, known, same⟩ := Option.map_eq_some_iff.mp found
    cases same
    exact Family.method_mem_of_find? known
  · cases found

theorem recorded?_fits {call : Node} {binding : Option String} {found : Finding}
    (recorded : m.recorded? call binding = some found) : found.Fits := by
  rw [recorded?] at recorded
  split at recorded
  · cases recorded
  · dsimp only at recorded
    split at recorded
    · cases recorded
      trivial
    · split at recorded
      · cases recorded
        trivial
      · obtain ⟨_, known, rfl⟩ := Option.map_eq_some_iff.mp recorded
        exact Family.method_mem_of_find? known

theorem covers_fits (m : SourceModule) : m.Covers Finding.Fits where
  names _ := Finding.IsName.fits
  recorded := recorded?_fits
  calledDecorator := by
    intro function call found recorded
    obtain ⟨⟨_, _⟩, named, rfl⟩ := Option.map_eq_some_iff.mp recorded
    obtain ⟨_, _, registering⟩ := Option.bind_eq_some_iff.mp named
    exact registering?_fits registering
  bareDecorator := by
    intro function n found recorded
    obtain ⟨⟨_, _⟩, registering, rfl⟩ := Option.map_eq_some_iff.mp recorded
    exact registering?_fits registering

/-- Every registration of a module is by a method of its family. -/
theorem method_mem_of_scan? {m : SourceModule} {scan : ModuleScan} {r : Registration}
    (searched : m.scan? = some scan) (member : r ∈ scan.registrations) :
    r.method ∈ r.family.methods := by
  obtain ⟨found, inside, same⟩ := List.mem_filterMap.mp member
  have fits := covered_of_scan? m.covers_fits searched found inside
  cases found with
  | registration _ =>
    cases same
    exact fits
  | declaration _ | globalCall _ | localName _ | importedName _ => cases same

/-! ### Declarations stand in their module -/

theorem recorded?_standsIn {call : Node} {binding : Option String} {found : Finding}
    (recorded : m.recorded? call binding = some found) : found.StandsIn m.name := by
  rw [recorded?] at recorded
  split at recorded
  · cases recorded
  · dsimp only at recorded
    split at recorded
    · cases recorded
      rfl
    · split at recorded
      · cases recorded
        trivial
      · obtain ⟨_, _, rfl⟩ := Option.map_eq_some_iff.mp recorded
        trivial

theorem covers_standsIn (m : SourceModule) : m.Covers (Finding.StandsIn m.name) where
  names _ := Finding.IsName.standsIn
  recorded := recorded?_standsIn
  calledDecorator := by
    intro function call found recorded
    obtain ⟨_, _, rfl⟩ := Option.map_eq_some_iff.mp recorded
    trivial
  bareDecorator := by
    intro function n found recorded
    obtain ⟨_, _, rfl⟩ := Option.map_eq_some_iff.mp recorded
    trivial

/-- Every declaration of a module has its place there. -/
theorem file_of_scan? {scan : ModuleScan} {d : Declaration} (searched : m.scan? = some scan)
    (member : d ∈ scan.declarations) : d.location.file = m.name := by
  obtain ⟨found, inside, same⟩ := List.mem_filterMap.mp member
  have stands := covered_of_scan? m.covers_standsIn searched found inside
  cases found with
  | declaration _ =>
    cases same
    exact stands
  | registration _ | globalCall _ | localName _ | importedName _ => cases same

end SourceModule

end DeployManifest
