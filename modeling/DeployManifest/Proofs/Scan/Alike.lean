import DeployManifest.Proofs.Scan.Unplaced

/-! # Scans that differ in places alone

Two scans are alike if they hold the same calls, each kind in the same order and up to places, and
the same names. `Finding.alike_iff_of_more` says when what is found stays alike although something
is found besides.
-/

namespace DeployManifest

/-- The same calls up to places, each kind in the same order, and the same names. -/
structure ModuleScan.IsAlike (s s' : ModuleScan) : Prop where
  registrations : s'.registrations.map (·.unplaced) = s.registrations.map (·.unplaced)
  declarations : s'.declarations.map (·.unplaced) = s.declarations.map (·.unplaced)
  globalCalls : s'.globalCalls.map (·.unplaced) = s.globalCalls.map (·.unplaced)
  locals : ∀ name, name ∈ s'.locals ↔ name ∈ s.locals
  imports : ∀ name, name ∈ s'.imports ↔ name ∈ s.imports

namespace Finding

variable {found found' before after names calls calls' more later : List Finding}

/-- What is found apart from names. -/
def recorded (found : List Finding) : List Finding := found.filter (·.offset?.isSome)

theorem isName_iff {found : Finding} : found.IsName ↔ found.offset? = none := by
  cases found <;> simp [IsName, offset?]

theorem IsName.noCall {finding : Finding} (isName : finding.IsName) : finding.registration? = none ∧
    finding.declaration? = none ∧ finding.globalCall? = none := by
  cases finding with
  | registration _ | declaration _ | globalCall _ => cases isName
  | localName _ | importedName _ => exact ⟨rfl, rfl, rfl⟩

theorem mem_recorded_iff {finding : Finding} :
    finding ∈ recorded found ↔ finding ∈ found ∧ ¬finding.IsName := by
  rw [recorded, List.mem_filter, isName_iff]
  cases finding.offset? <;> simp

theorem recorded_append : recorded (found ++ found') = recorded found ++ recorded found' :=
  List.filter_append ..

theorem recorded_eq_nil_iff : recorded found = [] ↔ ∀ finding ∈ found, finding.IsName := by
  simp only [List.eq_nil_iff_forall_not_mem, mem_recorded_iff, not_and, not_not]

theorem map_unplaced_eq_self (areNames : ∀ finding ∈ names, finding.IsName) :
    names.map (·.unplaced) = names := by
  rw [List.map_congr_left fun finding member => (areNames finding member).unplaced]
  exact List.map_id' names

theorem isName_unplaced_iff {finding : Finding} : finding.unplaced.IsName ↔ finding.IsName := by
  cases finding <;> exact Iff.rfl

/-- Names are the same without their places, and anything else is no name then either. -/
theorem forall_mem_map_unplaced {known : List Finding} :
    (∀ finding ∈ found.map (·.unplaced), finding.IsName ∧ finding ∈ known) ↔
      ∀ finding ∈ found, finding.IsName ∧ finding ∈ known := by
  rw [List.forall_mem_map]
  refine forall₂_congr fun finding _ => ?_
  rw [isName_unplaced_iff]
  exact and_congr_right fun isName => by rw [isName.unplaced]

theorem recorded_eq_self (areCalls : ∀ finding ∈ found, ¬finding.IsName) : recorded found = found :=
  List.filter_eq_self.mpr fun finding member =>
    (List.mem_filter.mp (mem_recorded_iff.mpr ⟨member, areCalls finding member⟩)).2

/-! ### The same calls -/

/-- The same registrations, declarations and calls for global options, each in the same order. -/
structure SameCalls (found found' : List Finding) : Prop where
  registrations : found'.filterMap (·.registration?) = found.filterMap (·.registration?)
  declarations : found'.filterMap (·.declaration?) = found.filterMap (·.declaration?)
  globalCalls : found'.filterMap (·.globalCall?) = found.filterMap (·.globalCall?)

/-- What is around the calls does not matter. -/
theorem sameCalls_around : SameCalls (before ++ found ++ after) (before ++ found' ++ after) ↔
    SameCalls found found' := by
  constructor
  · rintro ⟨registrations, declarations, globalCalls⟩
    simp only [List.filterMap_append, List.append_assoc, List.append_cancel_left_eq] at *
    simp only [List.append_cancel_right_eq] at *
    exact ⟨registrations, declarations, globalCalls⟩
  · rintro ⟨registrations, declarations, globalCalls⟩
    exact ⟨by simp only [List.filterMap_append, registrations],
      by simp only [List.filterMap_append, declarations],
      by simp only [List.filterMap_append, globalCalls]⟩

/-- A kind of calls is one of what is recorded. -/
theorem filterMap_recorded {α : Type} {kind? : Finding → Option α}
    (noName : ∀ finding, finding.IsName → kind? finding = none) :
    (recorded found).filterMap kind? = found.filterMap kind? := by
  rw [recorded, List.filterMap_filter]
  refine List.filterMap_congr fun finding _ => ?_
  cases given : finding.offset? with
  | none => simp [noName finding (isName_iff.mpr given)]
  | some offset => rfl

theorem sameCalls_recorded :
    SameCalls (recorded found) (recorded found') ↔ SameCalls found found' := by
  have registrations {found : List Finding} : (recorded found).filterMap (·.registration?) =
      found.filterMap (·.registration?) := filterMap_recorded fun _ isName => isName.noCall.1
  have declarations {found : List Finding} : (recorded found).filterMap (·.declaration?) =
      found.filterMap (·.declaration?) := filterMap_recorded fun _ isName => isName.noCall.2.1
  have globalCalls {found : List Finding} : (recorded found).filterMap (·.globalCall?) =
      found.filterMap (·.globalCall?) := filterMap_recorded fun _ isName => isName.noCall.2.2
  constructor
  · rintro ⟨first, second, third⟩
    simp only [registrations, declarations, globalCalls] at first second third
    exact ⟨first, second, third⟩
  · rintro ⟨first, second, third⟩
    exact ⟨by simpa only [registrations], by simpa only [declarations],
      by simpa only [globalCalls]⟩

theorem length_eq_add (areCalls : ∀ finding ∈ calls, ¬finding.IsName) :
    calls.length = (calls.filterMap (·.registration?)).length +
      (calls.filterMap (·.declaration?)).length + (calls.filterMap (·.globalCall?)).length := by
  induction calls with
  | nil => rfl
  | cons first calls ih =>
    rw [List.forall_mem_cons] at areCalls
    have rest := ih areCalls.2
    rw [List.length_cons, rest]
    cases first with
    | registration _ | declaration _ | globalCall _ =>
      simp only [List.filterMap_cons, registration?, declaration?, globalCall?, List.length_cons]
      omega
    | localName _ | importedName _ => exact absurd trivial areCalls.1

theorem eq_of_sameCalls {first second : Finding} (isCall : ¬first.IsName)
    (same : SameCalls [first] [second]) : second = first := by
  obtain ⟨registrations, declarations, globalCalls⟩ := same
  cases first with
  | registration r =>
    cases second <;> cases registrations
    rfl
  | declaration d =>
    cases second <;> cases declarations
    rfl
  | globalCall g =>
    cases second <;> cases globalCalls
    rfl
  | localName _ | importedName _ => exact absurd trivial isCall

/-- If one call at most is recorded, its kind need not be told apart. -/
theorem sameCalls_iff (short : (recorded found).length ≤ 1) :
    SameCalls found found' ↔ recorded found' = recorded found := by
  rw [← sameCalls_recorded]
  have areCalls (found : List Finding) : ∀ finding ∈ recorded found, ¬finding.IsName :=
    fun finding member => (mem_recorded_iff.mp member).2
  have given := areCalls found
  have given' := areCalls found'
  generalize recorded found = calls, recorded found' = calls' at short given given' ⊢
  constructor
  · intro same
    have length : calls'.length = calls.length := by
      rw [length_eq_add given, length_eq_add given', same.registrations, same.declarations,
        same.globalCalls]
    rcases calls with _ | ⟨first, _ | ⟨second, rest⟩⟩
    · exact List.length_eq_zero_iff.mp length
    · obtain ⟨second, rfl⟩ := List.length_eq_one_iff.mp length
      rw [eq_of_sameCalls (given first (List.mem_singleton_self _)) same]
    · exact absurd short (by simp)
  · rintro rfl
    exact ⟨rfl, rfl, rfl⟩

/-! ### The same calls and names -/

/-- The same calls, each kind in the same order, and the same names. -/
structure Alike (found found' : List Finding) : Prop where
  calls : SameCalls found found'
  names : ∀ finding, finding.IsName → (finding ∈ found' ↔ finding ∈ found)

theorem Alike.refl (found : List Finding) : Alike found found :=
  ⟨⟨rfl, rfl, rfl⟩, fun _ _ => Iff.rfl⟩

theorem mem_around {finding : Finding} : finding ∈ before ++ (names ++ found) ++ after ↔
    finding ∈ found ∨ finding ∈ before ++ names ++ after := by
  simp only [List.mem_append]
  constructor
  · rintro ((inBefore | inNames | inFound) | inAfter)
    · exact .inr (.inl (.inl inBefore))
    · exact .inr (.inl (.inr inNames))
    · exact .inl inFound
    · exact .inr (.inr inAfter)
  · rintro (inFound | (inBefore | inNames) | inAfter)
    · exact .inl (.inr (.inr inFound))
    · exact .inl (.inl inBefore)
    · exact .inl (.inr (.inl inNames))
    · exact .inr inAfter

/-- What is found stays alike, with more found around other calls, if these and all calls in what is
more are the ones that they replace, and all names in what is more are known. -/
theorem alike_iff_of_more (areNames : ∀ finding ∈ names, finding.IsName)
    (areCalls : ∀ finding ∈ calls, ¬finding.IsName) (short : calls.length ≤ 1)
    (areCalls' : ∀ finding ∈ calls', ¬finding.IsName) :
    Alike (before ++ (names ++ calls) ++ after)
        (before ++ (names ++ (more ++ calls' ++ later)) ++ after) ↔
      recorded more ++ calls' ++ recorded later = calls ∧ ∀ finding ∈ more ++ later,
        finding.IsName → finding ∈ before ++ (names ++ calls) ++ after := by
  have none : recorded names = [] := recorded_eq_nil_iff.mpr areNames
  have first : recorded (names ++ calls) = calls := by
    rw [recorded_append, none, recorded_eq_self areCalls, List.nil_append]
  have second : recorded (names ++ (more ++ calls' ++ later)) =
      recorded more ++ calls' ++ recorded later := by
    rw [recorded_append, none, recorded_append, recorded_append, recorded_eq_self areCalls',
      List.nil_append]
  have same : SameCalls (before ++ (names ++ calls) ++ after)
      (before ++ (names ++ (more ++ calls' ++ later)) ++ after) ↔
      recorded more ++ calls' ++ recorded later = calls := by
    rw [sameCalls_around, sameCalls_iff (first.symm ▸ short), first, second]
  have mem_more {finding : Finding} : finding ∈ more ++ calls' ++ later ↔
      finding ∈ calls' ∨ finding ∈ more ++ later := by
    rw [List.append_assoc, List.mem_append, List.mem_append, List.mem_append, or_left_comm]
  constructor
  · intro alike
    exact ⟨same.mp alike.calls, fun finding member isName =>
      (alike.names finding isName).mp (mem_around.mpr (.inl (mem_more.mpr (.inr member))))⟩
  · rintro ⟨replaced, known⟩
    refine ⟨same.mpr replaced, fun finding isName => ⟨fun member => ?_, fun member => ?_⟩⟩
    · rcases mem_around.mp member with inside | outside
      · exact known finding ((mem_more.mp inside).resolve_left
          fun call => areCalls' finding call isName) isName
      · exact mem_around.mpr (.inr outside)
    · exact mem_around.mpr (.inr ((mem_around.mp member).resolve_left
        fun call => areCalls finding call isName))

theorem append_singleton_append_eq {α : Type} {xs ys : List α} {x y : α} :
    xs ++ [x] ++ ys = [y] ↔ xs = [] ∧ ys = [] ∧ x = y := by
  rw [List.append_assoc, List.append_eq_singleton_iff, List.singleton_append, List.cons_eq_cons]
  simp [and_comm]

/-- A call may become another, with more found around it, if it is the same and the rest known. -/
theorem alike_iff_of_beside {first second : Finding} (areNames : ∀ finding ∈ names, finding.IsName)
    (call : ¬first.IsName) (call' : ¬second.IsName) :
    Alike (before ++ (names ++ [first]) ++ after)
        (before ++ (names ++ (more ++ [second] ++ later)) ++ after) ↔
      second = first ∧ ∀ finding ∈ more ++ later,
        finding.IsName ∧ finding ∈ before ++ (names ++ [first]) ++ after := by
  rw [alike_iff_of_more areNames (List.forall_mem_singleton.mpr call) (Nat.le_refl 1)
    (List.forall_mem_singleton.mpr call'), append_singleton_append_eq, recorded_eq_nil_iff,
    recorded_eq_nil_iff]
  constructor
  · rintro ⟨⟨front, back, same⟩, known⟩
    refine ⟨same, fun finding member => ?_⟩
    have isName := (List.mem_append.mp member).elim (front finding) (back finding)
    exact ⟨isName, known finding member isName⟩
  · rintro ⟨same, known⟩
    have isName finding (member : finding ∈ more ++ later) := (known finding member).1
    exact ⟨⟨(List.forall_mem_append.mp isName).1, (List.forall_mem_append.mp isName).2, same⟩,
      fun finding member _ => (known finding member).2⟩

/-- What is found may become more, if the calls in it are the recorded ones and the names known. -/
theorem alike_iff_of_instead (areCalls : ∀ finding ∈ calls, ¬finding.IsName)
    (short : calls.length ≤ 1) :
    Alike (before ++ calls ++ after) (before ++ more ++ after) ↔
      recorded more = calls ∧
        ∀ finding ∈ more, finding.IsName → finding ∈ before ++ calls ++ after := by
  have whole := @alike_iff_of_more before after [] calls [] more [] nofun areCalls short nofun
  simpa [recorded] using whole

end Finding

/-! ### Scans -/

theorem Finding.mem_map_unplaced_iff {finding : Finding} {found : List Finding}
    (isName : finding.IsName) : finding ∈ found.map (·.unplaced) ↔ finding ∈ found := by
  rw [List.mem_map]
  constructor
  · rintro ⟨given, member, rfl⟩
    cases given with
    | registration _ | declaration _ | globalCall _ => cases isName
    | localName _ | importedName _ => exact member
  · intro member
    exact ⟨finding, member, isName.unplaced⟩

theorem ModuleScan.isAlike_iff {s s' : ModuleScan} : s.IsAlike s' ↔
    Finding.Alike (s.findings.map (·.unplaced)) (s'.findings.map (·.unplaced)) := by
  have registrations (s : ModuleScan) : (s.findings.map (·.unplaced)).filterMap (·.registration?) =
      s.registrations.map (·.unplaced) := by
    rw [ModuleScan.registrations, List.map_filterMap, List.filterMap_map]
    exact List.filterMap_congr fun finding _ => by cases finding <;> rfl
  have declarations (s : ModuleScan) : (s.findings.map (·.unplaced)).filterMap (·.declaration?) =
      s.declarations.map (·.unplaced) := by
    rw [ModuleScan.declarations, List.map_filterMap, List.filterMap_map]
    exact List.filterMap_congr fun finding _ => by cases finding <;> rfl
  have globalCalls (s : ModuleScan) : (s.findings.map (·.unplaced)).filterMap (·.globalCall?) =
      s.globalCalls.map (·.unplaced) := by
    rw [ModuleScan.globalCalls, List.map_filterMap, List.filterMap_map]
    exact List.filterMap_congr fun finding _ => by cases finding <;> rfl
  have locals (s : ModuleScan) (name : String) : name ∈ s.locals ↔
      .localName name ∈ s.findings.map (·.unplaced) := by
    have isName : (Finding.localName name).IsName := trivial
    rw [Finding.mem_map_unplaced_iff isName, mem_locals_iff]
  have imports (s : ModuleScan) (name : String) : name ∈ s.imports ↔
      .importedName name ∈ s.findings.map (·.unplaced) := by
    have isName : (Finding.importedName name).IsName := trivial
    rw [Finding.mem_map_unplaced_iff isName, mem_imports_iff]
  constructor
  · intro alike
    refine ⟨⟨?_, ?_, ?_⟩, ?_⟩
    · rw [registrations, registrations, alike.registrations]
    · rw [declarations, declarations, alike.declarations]
    · rw [globalCalls, globalCalls, alike.globalCalls]
    · rintro (_ | _ | _ | name | name) isName
      · cases isName
      · cases isName
      · cases isName
      · rw [← locals, ← locals, alike.locals]
      · rw [← imports, ← imports, alike.imports]
  · rintro ⟨⟨first, second, third⟩, names⟩
    rw [registrations, registrations] at first
    rw [declarations, declarations] at second
    rw [globalCalls, globalCalls] at third
    refine ⟨first, second, third, fun name => ?_, fun name => ?_⟩
    · rw [locals, locals, names (.localName name) trivial]
    · rw [imports, imports, names (.importedName name) trivial]

end DeployManifest
