import DeployManifest.Proofs.Compile.Manifest
import DeployManifest.Proofs.Route.Site
import DeployManifest.Proofs.Scan

/-! # Route tables of compiled manifests

A compiled manifest has a route table unless one of its registrations cannot be routed to, and the
first such registration decides the error. There are two kinds of them: `keyMismatch_iff` and
`invalidPattern_iff`.
-/

namespace DeployManifest

open Outcome

namespace Manifest

variable {scans : List ModuleScan} {table : ParamTable} {globals : GlobalOptions} {m : Manifest}

theorem mem_sites {site : ModuleScan × Registration} :
    site ∈ sites scans ↔ site.1 ∈ scans ∧ site.2 ∈ site.1.registrations := by
  simp only [sites, List.mem_flatMap, List.mem_map]
  constructor
  · rintro ⟨scan, searched, r, found, rfl⟩
    exact ⟨searched, found⟩
  · rintro ⟨searched, found⟩
    exact ⟨site.1, searched, site.2, found, rfl⟩

/-- Every registration of searched modules was found in one of them. -/
theorem exists_module_of_mem_sites {modules : List SourceModule}
    (searched : modules.mapM SourceModule.scan = .ok scans) {site : ModuleScan × Registration}
    (member : site ∈ sites scans) :
    ∃ source ∈ modules, source.scan = .ok site.1 ∧ site.2 ∈ site.1.registrations := by
  obtain ⟨scanned, found⟩ := mem_sites.mp member
  obtain ⟨source, inside, first⟩ := exists_of_mem_of_mapM searched scanned
  exact ⟨source, inside, first, found⟩

end Manifest

namespace SourceModule

theorem method_mem_of_scan {source : SourceModule} {scan : ModuleScan} {r : Registration}
    (searched : source.scan = .ok scan) (found : r ∈ scan.registrations) :
    r.method ∈ r.family.methods :=
  method_mem_of_scan? (scan_eq_ok_iff.mp searched) found

end SourceModule

namespace Manifest

variable {scans : List ModuleScan} {table : ParamTable} {m : Manifest}

theorem method_mem_of_sites {modules : List SourceModule}
    (searched : modules.mapM SourceModule.scan = .ok scans) :
    ∀ site ∈ sites scans, site.2.method ∈ site.2.family.methods := by
  intro site member
  obtain ⟨source, -, scanned, found⟩ := exists_module_of_mem_sites searched member
  exact SourceModule.method_mem_of_scan scanned found

theorem exists_assembled (declared : ParamTable.ofScans scans = .ok table)
    (compiled : ofScans scans = .ok m) : ∃ globals, Assembled scans table globals m := by
  obtain ⟨other, globals, assembled⟩ := ofScans_eq_ok_iff.mp compiled
  have again := ParamTable.ofScans_eq_ok_iff.mpr assembled.declared
  obtain rfl := Except.ok.inj (declared.symm.trans again)
  exact ⟨globals, assembled⟩

theorem of_ofModules {modules : List SourceModule} (compiled : ofModules modules = .ok m) :
    ∃ scans table globals, modules.mapM SourceModule.scan = .ok scans ∧
      ParamTable.ofScans scans = .ok table ∧ ofScans scans = .ok m ∧
      Assembled scans table globals m := by
  obtain ⟨scans, searched, compiled⟩ := bind_eq_ok_iff.mp compiled
  obtain ⟨table, globals, assembled⟩ := ofScans_eq_ok_iff.mp compiled
  exact ⟨scans, table, globals, searched, ParamTable.ofScans_eq_ok_iff.mpr assembled.declared,
    compiled, assembled⟩

end Manifest

namespace RouteTable

variable {scans : List ModuleScan} {table : ParamTable} {globals : GlobalOptions} {m : Manifest}

/-- The first registration that cannot be routed to decides the error, by the kind of its fault. -/
theorem exists_error_iff (assembled : Manifest.Assembled scans table globals m)
    (methods : ∀ site ∈ Manifest.sites scans, site.2.method ∈ site.2.family.methods)
    (ofKind : RouteError → Prop) {faulty : ModuleScan × Registration → Prop}
    (faulty_iff : ∀ site ∈ Manifest.sites scans, ∀ e,
      site.2.endpoint ⟨table, site.1⟩ globals = .ok e →
      ((∃ fault, ofKind fault ∧ e.trigger.Unroutable e.key fault) ↔ faulty site)) :
    (∃ fault, ofKind fault ∧ ofManifest m = .error fault) ↔
      ∃ (i : Nat) (site : ModuleScan × Registration), (Manifest.sites scans)[i]? = some site ∧
        faulty site ∧
        ∀ (j : Nat) (other : ModuleScan × Registration), j < i →
          (Manifest.sites scans)[j]? = some other →
          ¬ other.2.IsMisaddressed ∧ other.2.HasPatternInstance ⟨table, other.1⟩ := by
  have registered := assembled.registered
  have routable {j : Nat} {site : ModuleScan × Registration} {e : Endpoint}
      (there : (Manifest.sites scans)[j]? = some site)
      (made : (Manifest.entering table globals).entry site = .ok e) :
      e.trigger.IsRoutable e.key ↔
        ¬ site.2.IsMisaddressed ∧ site.2.HasPatternInstance ⟨table, site.1⟩ :=
    Registration.isRoutable_of_endpoint (methods site (List.mem_of_getElem? there)) made
  simp only [ofManifest_eq_error_iff, assembled.keyed.getElem?_entries_eq_some_iff]
  constructor
  · rintro ⟨fault, kind, i, _, ⟨e, here, rfl⟩, unroutable, before⟩
    obtain ⟨site, there, made⟩ := registered.item_getElem? here
    refine ⟨i, site, there, ?_, ?_⟩
    · exact (faulty_iff site (List.mem_of_getElem? there) e made).mp ⟨fault, kind, unroutable⟩
    · intro j other earlier at_
      obtain ⟨entry, placed, given⟩ := registered.entry_getElem? at_
      exact (routable at_ given).mp (before j _ earlier ⟨entry, placed, rfl⟩)
  · rintro ⟨i, site, there, isFaulty, before⟩
    obtain ⟨e, here, made⟩ := registered.entry_getElem? there
    obtain ⟨fault, kind, unroutable⟩ :=
      (faulty_iff site (List.mem_of_getElem? there) e made).mpr isFaulty
    refine ⟨fault, kind, i, _, ⟨e, here, rfl⟩, unroutable, ?_⟩
    rintro j _ earlier ⟨other, placed, rfl⟩
    obtain ⟨entry, at_, given⟩ := registered.item_getElem? placed
    exact (routable at_ given).mpr (before j entry earlier at_)

theorem exists_keyMismatch (holds : RouteError → Prop) :
    (∃ fault, (∃ key derived, fault = .keyMismatch key derived) ∧ holds fault) ↔
      ∃ key derived, holds (.keyMismatch key derived) := by
  constructor
  · rintro ⟨_, ⟨key, derived, rfl⟩, found⟩
    exact ⟨key, derived, found⟩
  · rintro ⟨key, derived, found⟩
    exact ⟨_, ⟨key, derived, rfl⟩, found⟩

theorem exists_invalidPattern (holds : RouteError → Prop) :
    (∃ fault, (∃ pattern cause, fault = .invalidPattern pattern cause) ∧ holds fault) ↔
      ∃ pattern cause, holds (.invalidPattern pattern cause) := by
  constructor
  · rintro ⟨_, ⟨pattern, cause, rfl⟩, found⟩
    exact ⟨pattern, cause, found⟩
  · rintro ⟨pattern, cause, found⟩
    exact ⟨_, ⟨pattern, cause, rfl⟩, found⟩

/-- The dispatcher derives the key that the compiler made of the method and the address, unless
custom events have a type of the platform's own. A manifest is refused for its keys exactly if such
a registration comes before all others that cannot be routed to. -/
theorem keyMismatch_iff {modules : List SourceModule}
    (searched : modules.mapM SourceModule.scan = .ok scans) :
    (∀ site ∈ Manifest.sites scans, ∀ (s : Scope) (globals : GlobalOptions) (e : Endpoint),
      site.2.endpoint s globals = .ok e → e.trigger.DerivesKey →
      (∃ c, site.2.bound = .ok c ∧
          e.key = site.2.family.keyScheme.key site.2.method (c.address.map (·.value))) ∧
        (e.trigger.key? = some e.key ↔ ¬ site.2.IsMisaddressed)) ∧
    ∀ (table : ParamTable) (m : Manifest),
      ParamTable.ofScans scans = .ok table → Manifest.ofScans scans = .ok m →
      ((∃ key derived, ofManifest m = .error (.keyMismatch key derived)) ↔
        ∃ (i : Nat) (site : ModuleScan × Registration), (Manifest.sites scans)[i]? = some site ∧
          site.2.IsMisaddressed ∧
          ∀ (j : Nat) (other : ModuleScan × Registration), j < i →
            (Manifest.sites scans)[j]? = some other →
            ¬ other.2.IsMisaddressed ∧ other.2.HasPatternInstance ⟨table, other.1⟩) := by
  have methods := Manifest.method_mem_of_sites searched
  refine ⟨?_, ?_⟩
  · intro site member s globals e made derives
    refine ⟨Registration.key_of_endpoint made, ?_⟩
    rcases Registration.key?_of_endpoint (methods site member) made with
      ⟨-, underived, -⟩ | ⟨derived, some, -, agrees⟩
    · exact absurd derives underived
    · rw [some, Option.some.injEq, agrees]
  · intro table m declared compiled
    obtain ⟨globals, assembled⟩ := Manifest.exists_assembled declared compiled
    rw [← exists_keyMismatch (ofManifest m = .error ·)]
    refine exists_error_iff assembled methods _ fun site member e made => ?_
    rw [exists_keyMismatch (e.trigger.Unroutable e.key)]
    exact Registration.exists_keyMismatch_iff (methods site member) made

/-- Custom events under the type of topics, behind a registration that can be routed to. -/
def misaddressed : SourceModule :=
  ⟨"main.py",
    ("@firestore.onDocumentCreated(\"rooms/\x7broom\x7d\")\ndef created(e): pass\n\n"
      ++ "@eventarc.onCustomEventPublished(\"google.cloud.pubsub.topic.v1.messagePublished\")\n"
      ++ "def published(e): pass\n").toList⟩

/-- The error that a manifest has no table. -/
def refusal? (m : Manifest) : Option RouteError :=
  match ofManifest m with
  | .ok _ => none
  | .error fault => some fault

theorem refusal?_eq_some_iff {fault : RouteError} :
    refusal? m = some fault ↔ ofManifest m = .error fault := by
  rw [refusal?]
  cases ofManifest m <;> simp

set_option maxRecDepth 100000 in
/-- The module compiles, and the second endpoint has the key of a custom event and the trigger of a
topic. -/
theorem keyMismatch_misaddressed :
    ∃ (scans : List ModuleScan) (table : ParamTable) (m : Manifest)
      (site : ModuleScan × Registration) (globals : GlobalOptions) (e : Endpoint),
      [misaddressed].mapM SourceModule.scan = .ok scans ∧
      ParamTable.ofScans scans = .ok table ∧ Manifest.ofScans scans = .ok m ∧
      site ∈ Manifest.sites scans ∧ site.2.endpoint ⟨table, site.1⟩ globals = .ok e ∧
      e.trigger.DerivesKey ∧
      e.key = "onCustomEventPublished_google_cloud_pubsub_topic_v1_messagePublished" ∧
      e.trigger.key? = some "onMessagePublished" ∧ site.2.IsMisaddressed ∧
      (∃ key derived, ofManifest m = .error (.keyMismatch key derived)) ∧
      ∃ (i : Nat) (other : ModuleScan × Registration), (Manifest.sites scans)[i]? = some other ∧
        other.2.IsMisaddressed := by
  have computed : (Manifest.ofModules [misaddressed]).toOption.map
      (fun m => (m.endpoints.values[1]?.map fun e => (e.key, e.trigger.key?), refusal? m)) =
      some (some ("onCustomEventPublished_google_cloud_pubsub_topic_v1_messagePublished",
        some "onMessagePublished"), some (.keyMismatch
          "onCustomEventPublished_google_cloud_pubsub_topic_v1_messagePublished"
          "onMessagePublished")) := by
    decide +kernel
  obtain ⟨m, compiled, computed⟩ := exists_ok_of_toOption computed
  obtain ⟨second, refused⟩ := Prod.mk.inj computed
  obtain ⟨e, here, computed⟩ := Option.map_eq_some_iff.mp second
  obtain ⟨named, derived⟩ := Prod.mk.inj computed
  rw [refusal?_eq_some_iff] at refused
  obtain ⟨scans, table, globals, searched, declared, compiled, assembled⟩ :=
    Manifest.of_ofModules compiled
  obtain ⟨site, there, made⟩ := assembled.registered.item_getElem? here
  have member := List.mem_of_getElem? there
  have derives := Trigger.derivesKey_of_key? derived
  have agrees := ((keyMismatch_iff searched).1 site member _ globals e made derives).2
  have mistaken : site.2.IsMisaddressed := by
    by_contra addressed
    rw [derived, named] at agrees
    exact absurd (agrees.mpr addressed) (by decide)
  have somewhere := ((keyMismatch_iff searched).2 table m declared compiled).mp ⟨_, _, refused⟩
  obtain ⟨i, other, at_, misaddressed, -⟩ := somewhere
  exact ⟨scans, table, m, site, globals, e, searched, declared, compiled, member, made, derives,
    named, derived, mistaken, ⟨_, _, refused⟩, i, other, at_, misaddressed⟩

/-- All path patterns of a compiled endpoint are patterns for the dispatcher, unless the instance of
a database is neither reset nor written out as a pattern. A manifest is refused for its patterns
exactly if such a registration comes before all others that cannot be routed to. -/
theorem invalidPattern_iff {modules : List SourceModule}
    (searched : modules.mapM SourceModule.scan = .ok scans) :
    (∀ (r : Registration) (s : Scope) (globals : GlobalOptions) (e : Endpoint)
        (filter : EventFilter),
      r.endpoint s globals = .ok e → e.trigger = .event filter →
      ((∀ entry ∈ filter.patterns, ∃ p, PathPattern.parse entry.2 = .ok p) ↔
        r.HasPatternInstance s)) ∧
    ∀ (table : ParamTable) (m : Manifest),
      ParamTable.ofScans scans = .ok table → Manifest.ofScans scans = .ok m →
      ((∃ pattern cause, ofManifest m = .error (.invalidPattern pattern cause)) ↔
        ∃ (i : Nat) (site : ModuleScan × Registration), (Manifest.sites scans)[i]? = some site ∧
          ¬ site.2.HasPatternInstance ⟨table, site.1⟩ ∧
          ∀ (j : Nat) (other : ModuleScan × Registration), j < i →
            (Manifest.sites scans)[j]? = some other →
            ¬ other.2.IsMisaddressed ∧ other.2.HasPatternInstance ⟨table, other.1⟩) := by
  refine ⟨?_, ?_⟩
  · intro r s globals e filter made listens
    rw [← Registration.isPattern_of_endpoint made]
    constructor
    · intro read other again
      obtain rfl := Trigger.event.inj (listens.symm.trans again)
      exact read
    · intro read
      exact read filter listens
  · intro table m declared compiled
    obtain ⟨globals, assembled⟩ := Manifest.exists_assembled declared compiled
    have methods := Manifest.method_mem_of_sites searched
    rw [← exists_invalidPattern (ofManifest m = .error ·)]
    refine exists_error_iff assembled methods _ fun site member e made => ?_
    rw [exists_invalidPattern (e.trigger.Unroutable e.key)]
    exact Registration.exists_invalidPattern_iff (methods site member) made

/-- Events of a database instance that is no pattern. -/
def brokenInstance : SourceModule :=
  ⟨"main.py",
    ("@database.onValueWritten(\"rooms/\x7broomId\x7d\", instance=\"a//b\")\n"
      ++ "def f(e): pass\n").toList⟩

set_option maxRecDepth 100000 in
/-- The module compiles, and its manifest has no table. -/
theorem invalidPattern_brokenInstance :
    ∃ (scans : List ModuleScan) (table : ParamTable) (m : Manifest)
      (site : ModuleScan × Registration) (globals : GlobalOptions) (e : Endpoint)
      (filter : EventFilter),
      [brokenInstance].mapM SourceModule.scan = .ok scans ∧
      ParamTable.ofScans scans = .ok table ∧ Manifest.ofScans scans = .ok m ∧
      site.2.endpoint ⟨table, site.1⟩ globals = .ok e ∧ e.trigger = .event filter ∧
      ¬ (∀ entry ∈ filter.patterns, ∃ p, PathPattern.parse entry.2 = .ok p) ∧
      ¬ site.2.HasPatternInstance ⟨table, site.1⟩ ∧
      (∃ pattern cause, ofManifest m = .error (.invalidPattern pattern cause)) ∧
      ∃ (i : Nat) (other : ModuleScan × Registration), (Manifest.sites scans)[i]? = some other ∧
        ¬ other.2.HasPatternInstance ⟨table, other.1⟩ := by
  have computed : (Manifest.ofModules [brokenInstance]).toOption.map
      (fun m => refusal? m) = some (some (.invalidPattern "a//b" .emptySegment)) := by
    decide +kernel
  obtain ⟨m, compiled, refused⟩ := exists_ok_of_toOption computed
  rw [refusal?_eq_some_iff] at refused
  obtain ⟨scans, table, globals, searched, declared, compiled, assembled⟩ :=
    Manifest.of_ofModules compiled
  obtain ⟨i, site, at_, broken, -⟩ :=
    ((invalidPattern_iff searched).2 table m declared compiled).mp ⟨_, _, refused⟩
  obtain ⟨e, -, made⟩ := assembled.registered.entry_getElem? at_
  obtain ⟨filter, listens⟩ := Registration.exists_event_of_not_hasPatternInstance made broken
  have unread := mt ((invalidPattern_iff searched).1 _ _ _ _ _ made listens).mp broken
  exact ⟨scans, table, m, site, globals, e, filter, searched, declared, compiled, made, listens,
    unread, broken, ⟨_, _, refused⟩, i, site, at_, broken⟩

end RouteTable

end DeployManifest
