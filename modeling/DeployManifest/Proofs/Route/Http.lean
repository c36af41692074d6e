import DeployManifest.Proofs.Address.Instance
import DeployManifest.Proofs.Route.Contents
import DeployManifest.Proofs.Route.Manifest

/-! # Requests to keys

A request goes to the key that its path starts with. The key of an endpoint for requests is the name
that it was registered under, and names with slashes are compiled as they are, so not every such
endpoint can be reached (`reachable_iff`).
-/

namespace DeployManifest

open Outcome

namespace Registration

/-- The key of an endpoint for requests is its address, as it is written. -/
theorem key_of_requested {r : Registration} {s : Scope} {globals : GlobalOptions} {e : Endpoint}
    (made : r.endpoint s globals = .ok e) (requested : e.trigger.isRequested = true) :
    ∃ c address, r.bound = .ok c ∧ c.address = some address ∧ address.value = e.key := by
  obtain ⟨c, options, base, bound, -, triggered, -, assembled⟩ := endpoint_eq_ok_iff.mp made
  have explicit : r.family.keyScheme = .explicit ∧ r.family.addressKeyword? = some "name" := by
    have makes := TriggerSource.makes_of_trigger triggered
    generalize e.trigger = trigger at makes requested
    cases makes with
    | https family | callable family =>
      change r.family = _ at family
      rw [family]
      exact ⟨rfl, rfl⟩
    | taskQueue | schedule | blocking | event => cases requested
  obtain ⟨same, addressed⟩ := of_bound bound
  rw [explicit.2, Option.isSome_some, Option.isSome_iff_exists] at addressed
  obtain ⟨address, given⟩ := addressed
  refine ⟨c, address, bound, given, ?_⟩
  rw [(BaseOptions.of_endpoint assembled).1, BoundCall.key, same, explicit.1, given]
  rfl

end Registration

namespace RouteTable

variable {table : RouteTable} {m : Manifest}

/-- What stands in front of the second slash of a path, the slashes at its start apart. -/
def firstPart (path : String) : List Char :=
  (path.toList.dropWhile (· == '/')).takeWhile (· != '/')

theorem slash_not_mem_firstPart (path : String) : '/' ∉ firstPart path := by
  intro member
  have passes := List.mem_takeWhile_imp member
  simp at passes

theorem firstPart_of_isPart {path : String} {part : List Char} (rest : List Char)
    (isPart : IsPart part) (written : path.toList = '/' :: part ++ rest)
    (ends : ∀ c ∈ rest.head?, c = '/') : firstPart path = part := by
  obtain ⟨some, free⟩ := isPart
  have noSlash : ∀ c ∈ part, (c != '/') = true := by
    intro c member
    rw [bne_iff_ne]
    rintro rfl
    exact free member
  have behind : rest.takeWhile (· != '/') = [] := by
    cases rest with
    | nil => rfl
    | cons c rest => simp [ends c rfl]
  obtain ⟨c, cs, rfl⟩ := List.exists_cons_of_ne_nil some
  have kept : (c == '/') = false := by simpa [bne] using noSlash c (List.mem_cons_self ..)
  rw [firstPart, written, List.cons_append, List.cons_append, List.dropWhile_cons,
    if_pos (by decide), List.dropWhile_cons, if_neg (by simp [kept]), ← List.cons_append,
    List.takeWhile_append_of_pos noSlash, behind, List.append_nil]

/-- A request goes to the key that its path starts with, if an endpoint has it. -/
theorem routeHttp?_eq_some_iff (built : ofManifest m = .ok table) {path key : String} :
    table.routeHttp? path = some key ↔
      firstPart path = key.toList ∧
        ∃ e, (key, e) ∈ m.endpoints.entries ∧ e.trigger.isRequested = true := by
  have held : key ∈ table.http ↔
      ∃ e, (key, e) ∈ m.endpoints.entries ∧ e.trigger.isRequested = true := by
    simp [(http_of_ofManifest built).mem_iff]
  rw [← held]
  change table.http.find? (fun key => key.toList == firstPart path) = some key ↔ _
  constructor
  · intro found
    have same := List.find?_some found
    exact ⟨(beq_iff_eq.mp same).symm, List.mem_of_find?_eq_some found⟩
  · rintro ⟨first, member⟩
    cases found : table.http.find? (fun key => key.toList == firstPart path) with
    | none =>
      rw [List.find?_eq_none] at found
      exact absurd (beq_iff_eq.mpr first.symm) (found key member)
    | some other =>
      have same := List.find?_some found
      rw [beq_iff_eq, first, String.toList_inj] at same
      rw [same]

/-- An endpoint for requests has the name as its key that it was registered under, and it is reached
below this key exactly if the name can be one part of a path. -/
theorem reachable_iff {modules : List SourceModule} (compiled : Manifest.ofModules modules = .ok m)
    (built : ofManifest m = .ok table) :
    ∀ e ∈ m.endpoints.values, e.trigger.isRequested = true →
      (∃ source ∈ modules, ∃ scan, source.scan = .ok scan ∧ ∃ r ∈ scan.registrations,
        ∃ c address, r.bound = .ok c ∧ c.address = some address ∧ address.value = e.key) ∧
      ((table.routeHttp? ("/" ++ e.key) = some e.key ∧
          ∀ rest, table.routeHttp? ("/" ++ e.key ++ "/" ++ rest) = some e.key) ↔
        IsPart e.key.toList) ∧
      ('/' ∈ e.key.toList → ∀ path, table.routeHttp? path ≠ some e.key) := by
  intro e member requested
  obtain ⟨scans, params, globals, searched, -, -, assembled⟩ := Manifest.of_ofModules compiled
  have reached (path : String) :
      table.routeHttp? path = some e.key ↔ firstPart path = e.key.toList := by
    rw [routeHttp?_eq_some_iff built,
      and_iff_left ⟨e, assembled.keyed.mem_entries member, requested⟩]
  refine ⟨?_, ?_, ?_⟩
  · obtain ⟨i, here⟩ := List.getElem?_of_mem member
    obtain ⟨site, there, made⟩ := assembled.registered.item_getElem? here
    obtain ⟨source, inside, scanned, found⟩ :=
      Manifest.exists_module_of_mem_sites searched (List.mem_of_getElem? there)
    exact ⟨source, inside, site.1, scanned, site.2, found,
      Registration.key_of_requested made requested⟩
  · simp only [reached]
    constructor
    · rintro ⟨first, below⟩
      refine ⟨?_, first ▸ slash_not_mem_firstPart _⟩
      -- Below an empty key, the path starts with whatever comes next.
      intro empty
      have next := below "a"
      rw [String.toList_eq_nil_iff.mp empty] at next
      exact absurd next (by decide)
    · intro isPart
      refine ⟨firstPart_of_isPart [] isPart (by simp) (by simp), fun rest => ?_⟩
      exact firstPart_of_isPart ('/' :: rest.toList) isPart (by simp) (by simp)
  · intro slashed path routed
    exact slash_not_mem_firstPart path ((reached path).mp routed ▸ slashed)

/-- A handler for requests whose name has a slash. -/
def nested : SourceModule :=
  ⟨"main.py", "@https.onRequest(\"a/b\")\ndef f(r): pass\n".toList⟩

set_option maxRecDepth 100000 in
/-- The module compiles and has a table, and no request goes to its endpoint. -/
theorem not_reachable_nested :
    ∃ m table e, Manifest.ofModules [nested] = .ok m ∧ ofManifest m = .ok table ∧
      e ∈ m.endpoints.values ∧ e.trigger.isRequested = true ∧ e.key = "a/b" ∧
      table.routeHttp? "/a/b" = none ∧ ¬ IsPart e.key.toList ∧
      ∀ path, table.routeHttp? path ≠ some "a/b" := by
  have computed : (Manifest.ofModules [nested]).toOption.map (fun m =>
      (m.endpoints.values[0]?.map fun e => (e.key, e.trigger.isRequested),
        (ofManifest m).toOption.map fun table => table.routeHttp? "/a/b")) =
      some (some ("a/b", true), some none) := by
    decide +kernel
  obtain ⟨m, compiled, computed⟩ := exists_ok_of_toOption computed
  obtain ⟨first, computed⟩ := Prod.mk.inj computed
  obtain ⟨table, built, unrouted⟩ := exists_ok_of_toOption computed
  obtain ⟨e, here, computed⟩ := Option.map_eq_some_iff.mp first
  obtain ⟨named, requested⟩ := Prod.mk.inj computed
  have member := List.mem_of_getElem? here
  obtain ⟨-, below, never⟩ := reachable_iff compiled built e member requested
  rw [named] at below never
  refine ⟨m, table, e, compiled, built, member, requested, named, unrouted, ?_, never (by decide)⟩
  rw [named, ← below]
  rintro ⟨routed, -⟩
  exact never (by decide) _ routed

end RouteTable

end DeployManifest
