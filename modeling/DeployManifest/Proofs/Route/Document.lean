import DeployManifest.Proofs.Route.Event
import DeployManifest.Proofs.Route.Site

/-! # Events of documents

The document that a registration listens to is a path pattern. If the pattern has captures, events
are compared with it; if it has none, they are compared with its text, which leaves one spelling of
the path. Main statement: `follows_document`, by which such a route takes exactly the events whose
document the pattern matches if and only if there are captures.
-/

namespace DeployManifest

open Outcome

/-- The entry of a filter under a name, if there is a value for it. -/
def EventFilter.entry (name : String) (value : Option String) : KeyMap String :=
  (value.map fun text => (name, text)).toList

/-- A filter for one document or all documents of a pattern, in a database and a namespace. -/
inductive EventFilter.ListensTo (p : PathPattern) : EventFilter → Prop where
  | one {type : String} {database space channel : Option String} {retry : Option Setting}
      (exact : p.hasCaptures = false) :
      ListensTo p ⟨type, entry "database" database ++ [("document", p.text)]
        ++ entry "namespace" space, [], channel, retry⟩
  | all {type : String} {database space channel : Option String} {retry : Option Setting}
      (captures : p.hasCaptures = true) :
      ListensTo p ⟨type, entry "database" database ++ entry "namespace" space,
        [("document", p.text)], channel, retry⟩

/-- The event is of the type of the filter, and in its database and namespace. -/
structure EventFilter.Reaches (filter : EventFilter) (event : InboundEvent) : Prop where
  type : filter.eventType = event.eventType
  filters : ∀ entry ∈ filter.filters, entry.1 = "database" ∨ entry.1 = "namespace" →
    event.attributes.get? entry.1 = some entry.2

/-- The event is about a document that the pattern matches. -/
def PathPattern.MatchesDocument (p : PathPattern) (event : InboundEvent) : Prop :=
  ∃ path captures, event.attributes.get? "document" = some path ∧ p.match? path = some captures

/-- The route accepts the event. -/
def EventRoute.Takes (route : EventRoute) (event : InboundEvent) : Prop :=
  ∃ params, route.match? event = some params

/-- How the route of a filter for documents goes by the pattern. -/
structure EventRoute.Follows (route : EventRoute) (p : PathPattern) (filter : EventFilter) :
    Prop where
  /-- Without captures the path has to be spelled like the text of the pattern. -/
  takes_iff : ∀ event, filter.Reaches event → (route.Takes event ↔ p.MatchesDocument event ∧
    (p.hasCaptures = false → event.attributes.get? "document" = some p.text))
  /-- The pattern alone decides if and only if it has captures. -/
  pattern_iff : (∀ event, filter.Reaches event → (route.Takes event ↔ p.MatchesDocument event)) ↔
    p.hasCaptures = true

namespace PathPattern

variable {p : PathPattern} {pattern : String}

/-- A pattern matches the text that it is read from. -/
theorem matches_of_parse (read : parse pattern = .ok p) : p.Matches pattern := by
  refine (parse_eq_ok_iff.mp read).flip.imp fun s raw taken => ?_
  cases s with
  | literal text => exact toList_segmentText taken
  | capture name => trivial
  | wildcard => trivial

/-- A slash in front makes no difference to what is read. -/
theorem parse_slash (read : parse pattern = .ok p) : parse ("/" ++ p.text) = .ok p := by
  have stripped : Text.stripEnds (· == '/') (['/'] ++ p.text.toList ++ []) =
      Text.stripEnds (· == '/') p.text.toList := Text.stripEnds_append (by simp) (by simp)
  rw [List.append_nil] at stripped
  rw [← parse_text read]
  apply parse_congr
  rw [String.toList_append]
  exact stripped

end PathPattern

namespace EventFilter

variable {p : PathPattern} {filter : EventFilter}

theorem name_of_mem_entry {name : String} {value : Option String} :
    ∀ given ∈ entry name value, given.1 = name := by
  intro given member
  obtain ⟨text, -, rfl⟩ := Option.map_eq_some_iff.mp (Option.mem_toList.mp member)
  rfl

theorem Reaches.asked {event : InboundEvent} (reaches : filter.Reaches event) (name : String)
    (value : Option String) (named : name = "database" ∨ name = "namespace")
    (part : entry name value ⊆ filter.filters) :
    ∀ given ∈ entry name value, event.attributes.get? given.1 = some given.2 := fun given member =>
  reaches.filters given (part member) (name_of_mem_entry given member ▸ named)

namespace ListensTo

/-- The entries of the filter have names of their own. -/
theorem nodup (listens : ListensTo p filter) : (filter.filters.map (·.1)).Nodup := by
  cases listens with
  | @one _ database space => cases database <;> cases space <;> simp [entry]
  | @all _ database space => cases database <;> cases space <;> simp [entry]

/-- An event about the document of the pattern, with a slash in front of its path. -/
def respelled (filter : EventFilter) (p : PathPattern) : InboundEvent :=
  ⟨filter.eventType, filter.filters.insert "document" ("/" ++ p.text)⟩

theorem reaches_respelled (listens : ListensTo p filter) : filter.Reaches (respelled filter p) where
  type := rfl
  filters := by
    intro given member named
    have other : "document" ≠ given.1 := by
      rcases named with named | named <;> simp [named]
    rw [respelled, KeyMap.get?_insert, if_neg other]
    exact KeyMap.get?_of_mem listens.nodup member

/-- In reach of the filter only the document is left to ask for. -/
theorem filters_iff (listens : ListensTo p filter) {event : InboundEvent}
    (reaches : filter.Reaches event) :
    (∀ given ∈ filter.filters, event.attributes.get? given.1 = some given.2) ↔
      (p.hasCaptures = false → event.attributes.get? "document" = some p.text) := by
  cases listens with
  | @one _ database space _ _ exact =>
    have inDatabase := reaches.asked "database" database (.inl rfl) (by simp)
    have inSpace := reaches.asked "namespace" space (.inr rfl) (by simp)
    simp only [List.forall_mem_append, List.forall_mem_singleton]
    exact ⟨fun ⟨⟨_, found⟩, _⟩ _ => found, fun found => ⟨⟨inDatabase, found exact⟩, inSpace⟩⟩
  | @all _ database space _ _ captures =>
    have inDatabase := reaches.asked "database" database (.inl rfl) (by simp)
    have inSpace := reaches.asked "namespace" space (.inr rfl) (by simp)
    simp only [List.forall_mem_append]
    exact ⟨fun _ exact => absurd (captures.symm.trans exact) (by simp),
      fun _ => ⟨inDatabase, inSpace⟩⟩

/-- The route reads the pattern of the filter, if there is one. -/
theorem exists_readPatterns (listens : ListensTo p filter)
    (read : PathPattern.parse p.text = .ok p) :
    ∃ patterns, RouteTable.readPatterns filter.patterns = .ok patterns ∧
      patterns = if p.hasCaptures then [("document", p)] else [] := by
  cases listens with
  | one exact => exact ⟨[], rfl, by simp [exact]⟩
  | all captures =>
    refine ⟨[("document", p)], ?_, by simp [captures]⟩
    rw [RouteTable.readPatterns_eq_mapM, mapM_eq_ok_iff]
    refine .cons ?_ .nil
    rw [RouteTable.readPattern, read]

theorem takes_iff (listens : ListensTo p filter) (read : PathPattern.parse p.text = .ok p)
    (route : EventRoute) (type : route.eventType = filter.eventType)
    (filters : route.filters = filter.filters)
    (patterns : route.patterns = if p.hasCaptures then [("document", p)] else [])
    {event : InboundEvent} (reaches : filter.Reaches event) :
    route.Takes event ↔ p.MatchesDocument event ∧
      (p.hasCaptures = false → event.attributes.get? "document" = some p.text) := by
  have matching : p.MatchesDocument event ↔
      ∃ path, event.attributes.get? "document" = some path ∧ p.Matches path := by
    simp only [PathPattern.MatchesDocument, exists_and_left, PathPattern.exists_match?_iff]
  rw [EventRoute.Takes, EventRoute.exists_match?_iff, type, filters, listens.filters_iff reaches,
    matching, patterns]
  cases captures : p.hasCaptures with
  | true => simp [reaches.type]
  | false =>
    have own : p.Matches p.text := PathPattern.matches_of_parse read
    simp only [reaches.type, forall_const, true_and, Bool.false_eq_true, if_false]
    constructor
    · rintro ⟨found, -⟩
      exact ⟨⟨_, found, own⟩, found⟩
    · rintro ⟨-, found⟩
      exact ⟨found, by simp⟩

/-- The filter gives an endpoint a route that follows the pattern. -/
theorem exists_route (listens : ListensTo p filter) (read : PathPattern.parse p.text = .ok p)
    (key : String) :
    ∃ route, (Trigger.event filter).eventRoute? key = some route ∧ route.Follows p filter := by
  obtain ⟨patterns, done, given⟩ := listens.exists_readPatterns read
  have follows {event : InboundEvent} (reaches : filter.Reaches event) :=
    listens.takes_iff read ⟨key, filter.eventType, filter.filters, patterns⟩ rfl rfl given reaches
  refine ⟨_, RouteTable.eventRoute?_of_event.mpr ⟨patterns, done, rfl⟩,
    fun event reaches => follows reaches, ?_, ?_⟩
  · intro always
    by_contra exact
    have reaches := listens.reaches_respelled
    have exact : p.hasCaptures = false := by simpa using exact
    have document : (respelled filter p).attributes.get? "document" = some ("/" ++ p.text) := by
      rw [respelled, KeyMap.get?_insert, if_pos rfl]
    obtain ⟨captures, matched⟩ := PathPattern.exists_match?_iff.mpr
      (PathPattern.matches_of_parse (PathPattern.parse_slash read))
    have taken := (always _ reaches).mpr ⟨_, captures, document, matched⟩
    have same := ((follows reaches).mp taken).2 exact
    rw [document] at same
    have length := congrArg String.length (Option.some.inj same)
    simp at length
  · intro captures event reaches
    rw [follows reaches]
    simp [captures]

end ListensTo

end EventFilter

namespace TriggerSource

variable {s : TriggerSource} {name default : String} {entries : KeyMap String}

theorem filterOr_eq_entry (made : s.read (.filterOr name default) = .ok entries) :
    ∃ value, entries = EventFilter.entry name value := by
  rcases filterOr_eq_ok made with ⟨-, rfl⟩ | ⟨_, text, -, -, rfl⟩
  · exact ⟨some default, rfl⟩
  · exact ⟨text, rfl⟩

theorem listensTo_of_listens {retry : Option Setting} {filter : EventFilter}
    (family : s.family = .firestore) (addressed : s.address.isSome)
    (listens : s.Listens retry filter) :
    ∃ address p, s.address = some address ∧ PathPattern.parse address.value = .ok p ∧
      filter.ListensTo p := by
  cases listens with
  | topic other | bucket other | reference other | custom other => cases family.symm.trans other
  | @document address p _ _ _ given read exact databaseGiven spaceGiven =>
    obtain ⟨database, rfl⟩ := filterOr_eq_entry databaseGiven
    obtain ⟨space, rfl⟩ := filterOr_eq_entry spaceGiven
    exact ⟨address, p, given, read, .one exact⟩
  | @documents address p _ _ _ given read captures databaseGiven spaceGiven =>
    obtain ⟨database, rfl⟩ := filterOr_eq_entry databaseGiven
    obtain ⟨space, rfl⟩ := filterOr_eq_entry spaceGiven
    exact ⟨address, p, given, read, .all captures⟩
  | all _ unaddressed =>
    rcases unaddressed with unaddressed | other | other
    · rw [unaddressed] at addressed
      cases addressed
    · cases family.symm.trans other
    · cases family.symm.trans other

end TriggerSource

namespace Registration

variable {r : Registration} {s : Scope} {globals : GlobalOptions} {e : Endpoint}

/-- The endpoint of a registration for documents has a route, which follows the pattern that the
address is. -/
theorem follows_document (family : r.family = .firestore) (made : r.endpoint s globals = .ok e) :
    ∃ c address p filter route, r.bound = .ok c ∧ c.address = some address ∧
      PathPattern.parse address.value = .ok p ∧ e.trigger = .event filter ∧ filter.ListensTo p ∧
      e.trigger.eventRoute? e.key = some route ∧ route.Follows p filter ∧
      ∀ m table, (e.key, e) ∈ m.endpoints.entries → RouteTable.ofManifest m = .ok table →
        route ∈ table.events := by
  obtain ⟨c, options, _, bound, -, triggered, -, -⟩ := endpoint_eq_ok_iff.mp made
  obtain ⟨-, addressed⟩ := of_bound bound
  have source : (r.triggerSource c options s.params).family = .firestore := family
  rw [family] at addressed
  have makes := TriggerSource.makes_of_trigger triggered
  generalize invoked : e.trigger = trigger at makes
  cases makes with
  | https other | callable other | taskQueue other | schedule other | blocking other =>
    cases source.symm.trans other
  | event _ _ listens =>
    obtain ⟨address, p, given, read, document⟩ :=
      TriggerSource.listensTo_of_listens source addressed listens
    obtain ⟨route, routed, follows⟩ :=
      document.exists_route (PathPattern.parse_text read) e.key
    refine ⟨c, address, p, _, route, bound, given, read, rfl, document, routed, follows, ?_⟩
    intro m table member built
    rw [RouteTable.events_of_ofManifest built, List.mem_filterMap]
    refine ⟨_, member, ?_⟩
    dsimp only
    rw [invoked, routed]

/-- A handler for one document, whose path is written with a slash in front. -/
def fixedDocument : SourceModule :=
  ⟨"main.py", "@firestore.onDocumentCreated(\"/config/site\")\ndef f(e): pass\n".toList⟩

/-- The document is created, and its path is spelled as the handler spells it. -/
def slashed : InboundEvent :=
  ⟨"google.cloud.firestore.document.v1.created",
    [("database", "(default)"), ("document", "/config/site"), ("namespace", "(default)")]⟩

set_option maxRecDepth 100000 in
/-- The module compiles, and its table has no route for the event. -/
theorem exists_fixedDocument :
    ∃ (m : Manifest) (table : RouteTable) (r : Registration) (s : Scope) (globals : GlobalOptions)
      (e : Endpoint) (c : BoundCall) (address : Address) (channel : Option String)
      (retry : Option Setting),
      Manifest.ofModules [fixedDocument] = .ok m ∧ RouteTable.ofManifest m = .ok table ∧
      table.route? slashed = none ∧ (e.key, e) ∈ m.endpoints.entries ∧ r.endpoint s globals = .ok e ∧
      r.family = .firestore ∧ r.bound = .ok c ∧ c.address = some address ∧
      address.value = "/config/site" ∧
      e.trigger = .event ⟨"google.cloud.firestore.document.v1.created", [("database", "(default)"),
        ("document", "config/site"), ("namespace", "(default)")], [], channel, retry⟩ := by
  have computed : (Manifest.ofModules [fixedDocument]).toOption.map (fun m =>
      (m.endpoints.values[0]?.bind RouteTable.asked? ==
        some ("google.cloud.firestore.document.v1.created",
          [("database", "(default)"), ("document", "config/site"), ("namespace", "(default)")], []),
        (RouteTable.ofManifest m).toOption.map fun table => table.route? slashed)) =
      some (true, some none) := by
    decide +kernel
  have written : ([fixedDocument].mapM SourceModule.scan).toOption.map (fun scans =>
      (Manifest.sites scans).map fun site => (site.2.family,
        (site.2.bound.toOption.bind (·.address)).map (·.value))) =
      some [(.firestore, some "/config/site")] := by
    decide +kernel
  obtain ⟨m, compiled, computed⟩ := exists_ok_of_toOption computed
  obtain ⟨first, computed⟩ := Prod.mk.inj computed
  obtain ⟨table, built, unrouted⟩ := exists_ok_of_toOption computed
  obtain ⟨e, here, asked⟩ := Option.bind_eq_some_iff.mp (beq_iff_eq.mp first)
  obtain ⟨channel, retry, listens⟩ := RouteTable.exists_event_of_asked? asked
  obtain ⟨scans, params, globals, searched, -, -, assembled⟩ := Manifest.of_ofModules compiled
  obtain ⟨site, there, made⟩ := assembled.registered.item_getElem? here
  obtain ⟨_, again, sites⟩ := exists_ok_of_toOption written
  obtain rfl := Except.ok.inj (searched.symm.trans again)
  have member := List.mem_map_of_mem (List.mem_of_getElem? there) (f := fun site => (site.2.family,
    (site.2.bound.toOption.bind (·.address)).map (·.value)))
  rw [sites, List.mem_singleton] at member
  obtain ⟨family, addressed⟩ := Prod.mk.inj member
  obtain ⟨address, given, value⟩ := Option.map_eq_some_iff.mp addressed
  obtain ⟨c, bound, given⟩ := Option.bind_eq_some_iff.mp given
  exact ⟨m, table, site.2, ⟨params, site.1⟩, globals, e, c, address, channel, retry, compiled,
    built, unrouted, assembled.keyed.mem_entries (List.mem_of_getElem? here), made, family,
    eq_ok_of_toOption bound, given, value, listens⟩

theorem matchesDocument_slashed :
    PathPattern.parse "/config/site" = .ok ⟨[.literal "config", .literal "site"]⟩ ∧
      PathPattern.MatchesDocument ⟨[.literal "config", .literal "site"]⟩ slashed := by
  refine ⟨by decide +kernel, "/config/site", [], rfl, ?_⟩
  decide +kernel

theorem reaches_slashed (channel : Option String) (retry : Option Setting) :
    EventFilter.Reaches ⟨"google.cloud.firestore.document.v1.created", [("database", "(default)"),
      ("document", "config/site"), ("namespace", "(default)")], [], channel, retry⟩ slashed where
  type := rfl
  filters := by
    intro given member named
    simp only [List.mem_cons, List.not_mem_nil, or_false] at member
    rcases member with rfl | rfl | rfl
    · rfl
    · exact absurd named (by decide)
    · rfl

/-- The event spells its path as the registration does, and the pattern matches it, but the route
does not take it. -/
theorem follows_document_fixed :
    ∃ (m : Manifest) (table : RouteTable) (r : Registration) (s : Scope) (globals : GlobalOptions)
      (e : Endpoint) (c : BoundCall) (address : Address) (p : PathPattern) (filter : EventFilter)
      (route : EventRoute),
      Manifest.ofModules [fixedDocument] = .ok m ∧ RouteTable.ofManifest m = .ok table ∧
      (e.key, e) ∈ m.endpoints.entries ∧ r.family = .firestore ∧ r.endpoint s globals = .ok e ∧
      r.bound = .ok c ∧ c.address = some address ∧ address.value = "/config/site" ∧
      PathPattern.parse address.value = .ok p ∧ e.trigger = .event filter ∧
      e.trigger.eventRoute? e.key = some route ∧ route.Follows p filter ∧ route ∈ table.events ∧
      filter.Reaches slashed ∧ slashed.attributes.get? "document" = some address.value ∧
      p.MatchesDocument slashed ∧ ¬ route.Takes slashed ∧ table.route? slashed = none := by
  obtain ⟨m, table, r, s, globals, e, c, address, channel, retry, compiled, built, unrouted, member,
    made, family, bound, given, value, listens⟩ := exists_fixedDocument
  obtain ⟨c', address', p, filter, route, bound', given', read, invoked, -, routed, follows,
    entered⟩ := follows_document family made
  obtain rfl := Except.ok.inj (bound.symm.trans bound')
  obtain rfl := Option.some.inj (given.symm.trans given')
  obtain rfl := Trigger.event.inj (listens.symm.trans invoked)
  obtain ⟨parsed, matched⟩ := matchesDocument_slashed
  have same := read
  rw [value, parsed] at same
  obtain rfl := Except.ok.inj same
  have reaches := reaches_slashed channel retry
  refine ⟨m, table, r, s, globals, e, c, address, _, _, route, compiled, built, member, family,
    made, bound, given, value, read, invoked, routed, follows, entered m table member built,
    reaches, ?_, matched, fun taken => ?_, unrouted⟩
  · rw [value]
    rfl
  · have spelled := ((follows.takes_iff slashed reaches).mp taken).2 rfl
    exact absurd spelled (by decide +kernel)

end Registration

end DeployManifest
