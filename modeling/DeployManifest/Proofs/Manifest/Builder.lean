import DeployManifest.Manifest.Basic

/-! # The parts of a builder

A builder holds the names of the required interfaces a second time, in the set that decides whether
one is new, and the keys of the endpoints a second time, in the map that decides whether one is
free. Each operation keeps both in step with the interfaces and endpoints (`InStep`), so what the
set and the map decide is what a search would.
-/

namespace DeployManifest

open Family (RequiredApi)

/-- The endpoints of a map stand under their own keys. -/
def IndexMap.IsKeyed (map : IndexMap Endpoint) : Prop :=
  ∀ entry ∈ map.entries, entry.1 = entry.2.key

namespace IndexMap.IsKeyed

variable {map : IndexMap Endpoint}

/-- The endpoints say all about the map. -/
theorem entries_eq (keyed : map.IsKeyed) : map.entries = map.values.map fun e => (e.key, e) := by
  have each : map.entries.map id = map.entries.map fun entry => (entry.2.key, entry.2) :=
    List.map_congr_left fun entry member => Prod.ext (keyed entry member) rfl
  rw [List.map_id] at each
  rw [values, List.map_map]
  exact each

theorem eq_of_values {other : IndexMap Endpoint} (keyed : map.IsKeyed) (keyed' : other.IsKeyed)
    (same : map.values = other.values) : map = other := by
  have entries : map.entries = other.entries := by
    rw [keyed.entries_eq, keyed'.entries_eq, same]
  cases map
  cases other
  cases entries
  rfl

/-- A look-up finds the endpoint that a search through all of them finds. -/
theorem get?_eq_find? (keyed : map.IsKeyed) (key : String) :
    map.get? key = map.values.find? (·.key == key) := by
  have whole := keyed.entries_eq
  rw [get?, whole, List.find?_map, Option.map_map]
  generalize map.values = endpoints
  change Option.map id (endpoints.find? (·.key == key)) = _
  rw [Option.map_id]
  rfl

theorem getElem?_entries_eq_some_iff (keyed : map.IsKeyed) {i : Nat} {entry : String × Endpoint} :
    map.entries[i]? = some entry ↔ ∃ e, map.values[i]? = some e ∧ entry = (e.key, e) := by
  rw [keyed.entries_eq, List.getElem?_map, Option.map_eq_some_iff]
  simp only [eq_comm]

theorem mem_entries (keyed : map.IsKeyed) {e : Endpoint} (member : e ∈ map.values) :
    (e.key, e) ∈ map.entries := by
  rw [keyed.entries_eq]
  exact List.mem_map_of_mem member

end IndexMap.IsKeyed

theorem IndexMap.values_insert {map : IndexMap Endpoint} {e : Endpoint}
    (free : map.get? e.key = none) : (map.insert e.key e).values = map.values ++ [e] := by
  rw [values, entries_insert e free, List.map_append]
  rfl

namespace ManifestBuilder

variable {b : ManifestBuilder}

/-- The names that have been seen are those of the required interfaces, and the endpoints stand
under their own keys. -/
structure InStep (b : ManifestBuilder) : Prop where
  seen : ∀ name, name ∈ b.seenApis ↔ name ∈ b.requiredApis.map (·.api)
  keyed : b.endpoints.IsKeyed

@[simp]
theorem requireApi_params (b : ManifestBuilder) (api : RequiredApi) :
    (b.requireApi api).params = b.params := by
  rw [requireApi]
  split <;> rfl

@[simp]
theorem requireApi_endpoints (b : ManifestBuilder) (api : RequiredApi) :
    (b.requireApi api).endpoints = b.endpoints := by
  rw [requireApi]
  split <;> rfl

/-- An interface is put behind the others, unless one with its name is there. -/
theorem InStep.requireApi_requiredApis (inStep : b.InStep) (api : RequiredApi) :
    (b.requireApi api).requiredApis =
      b.requiredApis ++ if b.requiredApis.any (·.api == api.api) then [] else [api] := by
  have same : b.seenApis.contains api.api = b.requiredApis.any (·.api == api.api) := by
    rw [Bool.eq_iff_iff, List.contains_iff_mem, inStep.seen, List.mem_map, List.any_eq_true]
    simp only [beq_iff_eq]
  rw [requireApi, same]
  split
  · exact (List.append_nil _).symm
  · rfl

theorem InStep.requireApi (inStep : b.InStep) (api : RequiredApi) : (b.requireApi api).InStep where
  seen name := by
    have entered : name ∈ (b.requireApi api).seenApis ↔ name = api.api ∨ name ∈ b.seenApis := by
      rw [ManifestBuilder.requireApi]
      split <;> exact List.mem_insert_iff
    rw [entered, inStep.seen, inStep.requireApi_requiredApis]
    split
    · rename_i taken
      obtain ⟨holder, member, same⟩ := List.any_eq_true.mp taken
      have held : api.api ∈ b.requiredApis.map (·.api) :=
        List.mem_map.mpr ⟨holder, member, beq_iff_eq.mp same⟩
      rw [List.append_nil, or_iff_right_iff_imp]
      rintro rfl
      exact held
    · rw [List.map_append, List.mem_append, List.map_singleton, List.mem_singleton, or_comm]
  keyed := by
    rw [requireApi_endpoints]
    exact inStep.keyed

theorem inStep_new : new.InStep := by
  refine InStep.requireApi ⟨fun name => ?_, ?_⟩ _
  · rfl
  · exact fun entry member => nomatch member

theorem InStep.addParam (inStep : b.InStep) (p : Param) : (b.addParam p).InStep :=
  ⟨inStep.seen, inStep.keyed⟩

@[simp]
theorem addEndpoint_params (b : ManifestBuilder) (e : Endpoint) :
    (b.addEndpoint e).1.params = b.params := by
  rw [addEndpoint]
  split <;> rfl

@[simp]
theorem addEndpoint_requiredApis (b : ManifestBuilder) (e : Endpoint) :
    (b.addEndpoint e).1.requiredApis = b.requiredApis := by
  rw [addEndpoint]
  split <;> rfl

theorem addEndpoint_of_taken {e first : Endpoint} (taken : b.endpoints.get? e.key = some first) :
    b.addEndpoint e = (b, .error ⟨e.key, first.location, e.location⟩) := by
  rw [addEndpoint, taken]

theorem addEndpoint_of_free {e : Endpoint} (free : b.endpoints.get? e.key = none) :
    b.addEndpoint e = ({ b with endpoints := b.endpoints.insert e.key e }, .ok ()) := by
  rw [addEndpoint, free]

theorem InStep.addEndpoint (inStep : b.InStep) (e : Endpoint) : (b.addEndpoint e).1.InStep := by
  cases found : b.endpoints.get? e.key with
  | some first =>
    rw [addEndpoint_of_taken found]
    exact inStep
  | none =>
    rw [addEndpoint_of_free found]
    refine ⟨inStep.seen, fun entry member => ?_⟩
    rw [IndexMap.entries_insert e found, List.mem_append, List.mem_singleton] at member
    rcases member with member | rfl
    · exact inStep.keyed entry member
    · rfl

/-- An endpoint that is refused changes nothing. -/
theorem addEndpoint_of_refused {e : Endpoint} {clash : DuplicateKey}
    (refused : (b.addEndpoint e).2 = .error clash) : (b.addEndpoint e).1 = b := by
  cases found : b.endpoints.get? e.key with
  | some first => rw [addEndpoint_of_taken found]
  | none =>
    rw [addEndpoint_of_free found] at refused
    cases refused

end ManifestBuilder

end DeployManifest
