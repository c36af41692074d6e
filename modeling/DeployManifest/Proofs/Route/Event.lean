import DeployManifest.Proofs.Address.Instance
import DeployManifest.Proofs.Route.Contents
import DeployManifest.Proofs.Route.Manifest

/-! # Routes of events

An event goes to the first endpoint whose trigger accepts it. What a trigger accepts is said of the
manifest alone (`Trigger.Accepts`), and an event made of the patterns of an endpoint comes with the
values they were filled in with. Main statement: `routesEvents_of_ofManifest`.
-/

namespace DeployManifest

open Outcome

/-- Events that invoke an endpoint: those of its type, with the attributes that it asks for. -/
inductive Trigger.Accepts (event : InboundEvent) : Trigger → Prop where
  | event {filter : EventFilter} (type : filter.eventType = event.eventType)
      (filters : ∀ entry ∈ filter.filters, event.attributes.get? entry.1 = some entry.2)
      (patterns : ∀ entry ∈ filter.patterns, ∃ p value, PathPattern.parse entry.2 = .ok p ∧
        event.attributes.get? entry.1 = some value ∧ p.Matches value) :
      Accepts event (.event filter)
  | blocking {eventType : String} {tokens : KeyMap Setting} (type : eventType = event.eventType) :
      Accepts event (.blocking eventType tokens)

namespace EventFilter

/-- A name that a pattern binds. -/
def Captures (filter : EventFilter) (name : String) : Prop :=
  ∃ entry ∈ filter.patterns, ∃ p, PathPattern.parse entry.2 = .ok p ∧ name ∈ p.captureNames

/-- The event has the attributes of the filter, and instances of its patterns. -/
structure Carries (filter : EventFilter) (values : String → String) (event : InboundEvent) :
    Prop where
  type : filter.eventType = event.eventType
  filters : ∀ entry ∈ filter.filters, event.attributes.get? entry.1 = some entry.2
  patterns : ∀ entry ∈ filter.patterns, ∀ p, PathPattern.parse entry.2 = .ok p →
    ∃ value, event.attributes.get? entry.1 = some value ∧ p.IsInstance values value

/-- Where no attribute is both a filter and a pattern, an event can be made of the filter, of an
instance of each pattern, and of whatever else. -/
theorem carries_of_distinct {filter : EventFilter} {values : String → String}
    (distinct : ((filter.filters ++ filter.patterns).map (·.1)).Nodup) (texts : KeyMap String)
    (instanced : List.Forall₂ (fun entry text => text.1 = entry.1 ∧
      ∀ p, PathPattern.parse entry.2 = .ok p → p.IsInstance values text.2) filter.patterns texts)
    (extra : KeyMap String) :
    filter.Carries values ⟨filter.eventType, extra.union (filter.filters ++ texts)⟩ := by
  have named : texts.map (·.1) = filter.patterns.map (·.1) := by
    generalize filter.patterns = patterns at instanced ⊢
    induction instanced with
    | nil => rfl
    | cons first _ ih => rw [List.map_cons, List.map_cons, first.1, ih]
  rw [List.map_append, ← named, ← List.map_append] at distinct
  have given : ∀ entry ∈ filter.filters ++ texts,
      (extra.union (filter.filters ++ texts)).get? entry.1 = some entry.2 := by
    intro entry member
    rw [KeyMap.get?_union distinct, KeyMap.get?_of_mem distinct member, Option.some_or]
  refine ⟨rfl, fun entry member => given entry (List.mem_append_left _ member), ?_⟩
  intro entry member p parsed
  obtain ⟨text, inside, same, instances⟩ := exists_of_mem_of_forall₂ instanced.flip member
  exact ⟨text.2, same ▸ given text (List.mem_append_right _ inside), instances p parsed⟩

end EventFilter

namespace EventRoute

variable {event : InboundEvent} {route : EventRoute} {patterns : List (String × PathPattern)}
  {values : String → String}

theorem exists_bindings?_iff {bound : KeyMap String} :
    (∃ captures, bindings? event patterns bound = some captures) ↔
      ∀ entry ∈ patterns, ∃ value,
        event.attributes.get? entry.1 = some value ∧ entry.2.Matches value := by
  induction patterns generalizing bound with
  | nil => simp [bindings?]
  | cons head patterns ih =>
    obtain ⟨name, pattern⟩ := head
    rw [List.forall_mem_cons, bindings?]
    cases there : event.attributes.get? name with
    | none => simp
    | some value =>
      simp only [Option.some.injEq, exists_eq_left', ← PathPattern.exists_match?_iff (p := pattern)]
      cases matched : pattern.match? value with
      | none => simp
      | some captures => simp [ih]

theorem exists_match?_iff :
    (∃ params, route.match? event = some params) ↔ route.eventType = event.eventType ∧
      (∀ entry ∈ route.filters, event.attributes.get? entry.1 = some entry.2) ∧
      ∀ entry ∈ route.patterns, ∃ value,
        event.attributes.get? entry.1 = some value ∧ entry.2.Matches value := by
  have asked : (route.eventType = event.eventType
      && route.filters.all fun entry => event.attributes.get? entry.1 == some entry.2) = true ↔
      route.eventType = event.eventType ∧
        ∀ entry ∈ route.filters, event.attributes.get? entry.1 = some entry.2 := by
    simp
  rw [match?, ← and_assoc, ← asked]
  split
  · rename_i accepted
    rw [exists_bindings?_iff]
    simp only [accepted, true_and]
  · rename_i refused
    simp only [refused, false_and, reduceCtorEq, exists_false]

/-- The bindings of instances are the values that they were filled in with. -/
theorem bindings?_of_graphs {bound : KeyMap String} {names : String → Prop}
    (each : ∀ entry ∈ patterns, ∃ value captures, event.attributes.get? entry.1 = some value ∧
      entry.2.match? value = some captures ∧
      captures.IsGraph values (· ∈ entry.2.captureNames))
    (graph : bound.IsGraph values names) :
    ∃ captures, bindings? event patterns bound = some captures ∧
      captures.IsGraph values fun name =>
        names name ∨ ∃ entry ∈ patterns, name ∈ entry.2.captureNames := by
  induction patterns generalizing bound names with
  | nil => exact ⟨bound, rfl, by simpa using graph⟩
  | cons head patterns ih =>
    obtain ⟨⟨value, first, there, matched, found⟩, each⟩ := List.forall_mem_cons.mp each
    obtain ⟨captures, rest, whole⟩ := ih each (graph.union found)
    refine ⟨captures, ?_, by simpa [or_assoc] using whole⟩
    simp only [bindings?, there, matched, rest]

end EventRoute

namespace RouteTable

variable {table : RouteTable} {t : Trigger} {key : String} {entry : String × Endpoint}
  {m : Manifest} {event : InboundEvent} {filter : EventFilter} {values : String → String}

theorem mem_of_readPatterns {patterns : KeyMap String} {read : List (String × PathPattern)}
    (done : readPatterns patterns = .ok read) {name : String} {p : PathPattern} :
    (name, p) ∈ read ↔ ∃ entry ∈ patterns, entry.1 = name ∧ PathPattern.parse entry.2 = .ok p := by
  have each (entry : String × String) :
      readPattern entry = .ok (name, p) ↔ entry.1 = name ∧ PathPattern.parse entry.2 = .ok p := by
    rw [readPattern]
    cases PathPattern.parse entry.2 <;> simp
  rw [readPatterns_eq_mapM] at done
  constructor
  · intro member
    obtain ⟨entry, inside, given⟩ := exists_of_mem_of_mapM done member
    exact ⟨entry, inside, (each entry).mp given⟩
  · rintro ⟨entry, inside, given⟩
    exact mem_of_mapM done inside ((each entry).mpr given)

/-- Where an endpoint sends an event, if it accepts it. -/
def delivery? (event : InboundEvent) (entry : String × Endpoint) : Option RouteMatch :=
  (entry.2.trigger.eventRoute? entry.1).bind fun route =>
    (route.match? event).map fun params => ⟨route.key, params⟩

theorem findSome?_filterMap {α β γ : Type} (f : α → Option β) (g : β → Option γ) (xs : List α) :
    (xs.filterMap f).findSome? g = xs.findSome? fun x => (f x).bind g := by
  induction xs with
  | nil => rfl
  | cons x xs ih =>
    cases found : f x <;> simp [found, ih, List.findSome?_cons]

theorem route?_of_ofManifest (built : ofManifest m = .ok table) (event : InboundEvent) :
    table.route? event = m.endpoints.entries.findSome? (delivery? event) := by
  rw [route?, events_of_ofManifest built, findSome?_filterMap]
  rfl

theorem delivery?_eq_some_iff {r : RouteMatch} :
    delivery? event entry = some r ↔
      ∃ route params, entry.2.trigger.eventRoute? entry.1 = some route ∧
      route.match? event = some params ∧ r = ⟨route.key, params⟩ := by
  simp only [delivery?, Option.bind_eq_some_iff, Option.map_eq_some_iff]
  constructor
  · rintro ⟨route, routed, params, matched, rfl⟩
    exact ⟨route, params, routed, matched, rfl⟩
  · rintro ⟨route, params, routed, matched, rfl⟩
    exact ⟨route, routed, params, matched, rfl⟩

theorem eventRoute?_of_event {route : EventRoute} :
    (Trigger.event filter).eventRoute? key = some route ↔
      ∃ patterns, readPatterns filter.patterns = .ok patterns ∧
        route = ⟨key, filter.eventType, filter.filters, patterns⟩ := by
  simp only [Trigger.eventRoute?, Option.map_eq_some_iff]
  constructor
  · rintro ⟨patterns, read, rfl⟩
    exact ⟨patterns, eq_ok_of_toOption read, rfl⟩
  · rintro ⟨patterns, read, rfl⟩
    exact ⟨patterns, by rw [read]; rfl, rfl⟩

theorem key_of_eventRoute? {route : EventRoute} (routed : t.eventRoute? key = some route) :
    route.key = key := by
  rw [Trigger.eventRoute?.eq_def] at routed
  split at routed
  · obtain ⟨patterns, -, rfl⟩ := Option.map_eq_some_iff.mp routed
    rfl
  · cases routed
    rfl
  · cases routed

theorem key_of_delivery? {r : RouteMatch} (delivered : delivery? event entry = some r) :
    r.key = entry.1 := by
  obtain ⟨route, params, routed, -, rfl⟩ := delivery?_eq_some_iff.mp delivered
  exact key_of_eventRoute? routed

theorem exists_delivery?_iff :
    (∃ r, delivery? event entry = some r) ↔
      ∃ route, entry.2.trigger.eventRoute? entry.1 = some route ∧
        ∃ params, route.match? event = some params := by
  simp only [delivery?_eq_some_iff]
  constructor
  · rintro ⟨r, route, params, routed, matched, -⟩
    exact ⟨route, routed, params, matched⟩
  · rintro ⟨route, routed, params, matched⟩
    exact ⟨_, route, params, routed, matched, rfl⟩

/-- An endpoint sends the events on that its trigger accepts, once its patterns are read. -/
theorem exists_delivery?_iff_accepts (routable : entry.2.trigger.IsRoutable entry.1) :
    (∃ r, delivery? event entry = some r) ↔ entry.2.trigger.Accepts event := by
  rw [exists_delivery?_iff]
  generalize entry.2.trigger = trigger at routable ⊢
  cases trigger with
  | event filter =>
    obtain ⟨patterns, read⟩ := exists_readPatterns_ok_iff.mpr (routable.2 filter rfl)
    have routed : (Trigger.event filter).eventRoute? entry.1 = _ :=
      eventRoute?_of_event.mpr ⟨patterns, read, rfl⟩
    simp only [routed, Option.some.injEq, exists_eq_left', EventRoute.exists_match?_iff]
    constructor
    · rintro ⟨type, filters, matching⟩
      refine .event type filters fun entry member => ?_
      obtain ⟨p, parsed⟩ := routable.2 filter rfl entry member
      obtain ⟨value, there, matched⟩ :=
        matching (entry.1, p) ((mem_of_readPatterns read).mpr ⟨entry, member, rfl, parsed⟩)
      exact ⟨p, value, parsed, there, matched⟩
    · intro accepted
      cases accepted with
      | event type filters matching =>
        refine ⟨type, filters, fun entry member => ?_⟩
        obtain ⟨written, inside, named, parsed⟩ := (mem_of_readPatterns read).mp member
        obtain ⟨p, value, again, there, matched⟩ := matching written inside
        obtain rfl := Except.ok.inj (parsed.symm.trans again)
        exact ⟨value, named ▸ there, matched⟩
  | blocking eventType tokens =>
    simp only [Trigger.eventRoute?, Option.some.injEq, exists_eq_left',
      EventRoute.exists_match?_iff]
    constructor
    · rintro ⟨type, -⟩
      exact .blocking type
    · intro accepted
      cases accepted with
      | blocking type => exact ⟨type, by simp, by simp⟩
  | https _ | callable | schedule _ _ _ | taskQueue _ _ _ =>
    simp only [Trigger.eventRoute?]
    constructor
    · rintro ⟨_, routed, -⟩
      cases routed
    · intro accepted
      cases accepted

/-- An endpoint finds in an event that was made of its patterns what they were filled in with. -/
theorem delivery?_of_carries (routable : entry.2.trigger.IsRoutable entry.1)
    (listens : entry.2.trigger = .event filter)
    (proper : ∀ name, filter.Captures name → IsPart (values name).toList)
    (carries : filter.Carries values event) :
    ∃ r, delivery? event entry = some r ∧ r.params.IsGraph values filter.Captures := by
  obtain ⟨patterns, read⟩ := exists_readPatterns_ok_iff.mpr (routable.2 filter listens)
  have captured (name : String) :
      filter.Captures name ↔ ∃ entry ∈ patterns, name ∈ entry.2.captureNames := by
    constructor
    · rintro ⟨entry, member, p, parsed, bound⟩
      exact ⟨(entry.1, p), (mem_of_readPatterns read).mpr ⟨entry, member, rfl, parsed⟩, bound⟩
    · rintro ⟨entry, member, bound⟩
      obtain ⟨written, inside, -, parsed⟩ := (mem_of_readPatterns read).mp member
      exact ⟨written, inside, entry.2, parsed, bound⟩
  have each : ∀ entry ∈ patterns, ∃ value captures, event.attributes.get? entry.1 = some value ∧
      entry.2.match? value = some captures ∧
      captures.IsGraph values (· ∈ entry.2.captureNames) := by
    intro entry member
    obtain ⟨written, inside, named, parsed⟩ := (mem_of_readPatterns read).mp member
    obtain ⟨value, there, instanced⟩ := carries.patterns written inside entry.2 parsed
    obtain ⟨captures, matched, graph⟩ := PathPattern.match?_of_isInstance parsed
      (fun name bound => proper name ((captured name).mpr ⟨entry, member, bound⟩)) instanced
    exact ⟨value, captures, named ▸ there, matched, graph⟩
  obtain ⟨captures, bound, graph⟩ := EventRoute.bindings?_of_graphs each KeyMap.IsGraph.nil
  have accepted : (filter.eventType = event.eventType
      && filter.filters.all fun entry => event.attributes.get? entry.1 == some entry.2) = true := by
    simpa [carries.type] using fun name value => carries.filters (name, value)
  refine ⟨⟨entry.1, captures⟩, ?_, ?_⟩
  · refine delivery?_eq_some_iff.mpr ⟨_, captures,
      listens ▸ eventRoute?_of_event.mpr ⟨patterns, read, rfl⟩, ?_, rfl⟩
    rw [EventRoute.match?, if_pos accepted, bound]
  · intro entry
    rw [graph entry, captured]
    simp only [false_or]

/-- A table sends an event to the first endpoint that accepts it, under the key that it is deployed
as, and finds in an event that was made of the patterns of this endpoint what they were filled in
with. -/
structure RoutesEvents (m : Manifest) (table : RouteTable) : Prop where
  accepted : ∀ event, (∃ r, table.route? event = some r) ↔
    ∃ e ∈ m.endpoints.values, e.trigger.Accepts event
  first : ∀ event r, table.route? event = some r →
    ∃ earlier key e later, m.endpoints.entries = earlier ++ (key, e) :: later ∧
      e.trigger.Accepts event ∧ (∀ other ∈ earlier, ¬ other.2.trigger.Accepts event) ∧ r.key = key
  instances : ∀ key e, (key, e) ∈ m.endpoints.entries → ∀ filter, e.trigger = .event filter →
    ∀ values, (∀ name, filter.Captures name → IsPart (values name).toList) →
    ∀ event, filter.Carries values event →
      e.trigger.Accepts event ∧ (∃ r, table.route? event = some r) ∧
        ∀ earlier later, m.endpoints.entries = earlier ++ (key, e) :: later →
          (∀ other ∈ earlier, ¬ other.2.trigger.Accepts event) →
          ∃ r, table.route? event = some r ∧ r.key = key ∧
            ∀ name value, r.params.get? name = some value ↔
              filter.Captures name ∧ value = values name
  size : table.size = m.endpoints.values.countP (·.trigger.isRouted)

theorem routesEvents_of_ofManifest (built : ofManifest m = .ok table) : RoutesEvents m table := by
  have routable := isRoutable_of_ofManifest built
  have accepts {entry : String × Endpoint} (member : entry ∈ m.endpoints.entries)
      (event : InboundEvent) :
      (∃ r, delivery? event entry = some r) ↔ entry.2.trigger.Accepts event :=
    exists_delivery?_iff_accepts (routable entry member)
  have refuses {entry : String × Endpoint} (member : entry ∈ m.endpoints.entries)
      (event : InboundEvent) :
      delivery? event entry = none ↔ ¬ entry.2.trigger.Accepts event := by
    rw [← accepts member, ← Option.isSome_iff_exists, Option.not_isSome_iff_eq_none]
  have accepted (event : InboundEvent) : (∃ r, table.route? event = some r) ↔
      ∃ e ∈ m.endpoints.values, e.trigger.Accepts event := by
    rw [route?_of_ofManifest built, ← Option.isSome_iff_exists, List.findSome?_isSome_iff]
    constructor
    · rintro ⟨entry, member, delivered⟩
      exact ⟨entry.2, List.mem_map_of_mem member,
        (accepts member event).mp (Option.isSome_iff_exists.mp delivered)⟩
    · rintro ⟨e, member, invoked⟩
      obtain ⟨entry, inside, rfl⟩ := List.mem_map.mp member
      exact ⟨entry, inside, Option.isSome_iff_exists.mpr ((accepts inside event).mpr invoked)⟩
  refine ⟨accepted, ?_, ?_, size_of_ofManifest built⟩
  · intro event r routed
    rw [route?_of_ofManifest built, List.findSome?_eq_some_iff] at routed
    obtain ⟨earlier, ⟨key, e⟩, later, split, delivered, before⟩ := routed
    have member : (key, e) ∈ m.endpoints.entries := by simp [split]
    refine ⟨earlier, key, e, later, split, (accepts member event).mp ⟨r, delivered⟩, ?_,
      key_of_delivery? delivered⟩
    intro other inside
    exact (refuses (by simp [split, inside]) event).mp (before other inside)
  · intro key e member filter listens values proper event carries
    obtain ⟨r, delivered, graph⟩ :=
      delivery?_of_carries (routable (key, e) member) listens proper carries
    have invoked : e.trigger.Accepts event := (accepts member event).mp ⟨r, delivered⟩
    refine ⟨invoked, (accepted event).mpr ⟨e, List.mem_map_of_mem member, invoked⟩, ?_⟩
    intro earlier later split others
    refine ⟨r, ?_, key_of_delivery? delivered, fun name value => graph.get?_eq_some_iff⟩
    rw [route?_of_ofManifest built, List.findSome?_eq_some_iff]
    refine ⟨earlier, (key, e), later, split, delivered, fun other inside => ?_⟩
    exact (refuses (by simp [split, inside]) event).mpr (others other inside)

/-- New documents below rooms, and requests. -/
def rooms : SourceModule :=
  ⟨"main.py",
    ("@https.onRequest(\"rooms\")\ndef list(r): pass\n\n"
      ++ "@firestore.onDocumentCreated(\"rooms/\x7broom\x7d/*\")\ndef created(e): pass\n").toList⟩

/-- A new document, in a room of its own. -/
def created : InboundEvent :=
  ⟨"google.cloud.firestore.document.v1.created",
    [("database", "(default)"), ("document", "/rooms/hall/7/"), ("namespace", "(default)")]⟩

/-- The filter of an endpoint for events, by what it asks of them. -/
def asked? (e : Endpoint) : Option (String × KeyMap String × KeyMap String) :=
  match e.trigger with
  | .event filter => some (filter.eventType, filter.filters, filter.patterns)
  | _ => none

theorem exists_event_of_asked? {type : String} {filters patterns : KeyMap String}
    (asked : asked? e = some (type, filters, patterns)) :
    ∃ channel retry, e.trigger = .event ⟨type, filters, patterns, channel, retry⟩ := by
  rw [asked?] at asked
  split at asked
  · rename_i filter listens
    cases asked
    exact ⟨filter.channel, filter.retry, listens⟩
  · cases asked

/-- The document stands for an instance of the pattern. -/
theorem carries_created (channel : Option String) (retry : Option Setting) :
    EventFilter.Carries ⟨"google.cloud.firestore.document.v1.created",
      [("database", "(default)"), ("namespace", "(default)")],
      [("document", "rooms/\x7broom\x7d/*")], channel, retry⟩ (fun _ => "hall") created := by
  have read : PathPattern.parse "rooms/\x7broom\x7d/*" =
      .ok ⟨[.literal "rooms", .capture "room", .wildcard]⟩ := by
    decide +kernel
  have filled : List.Forall₂ (Segment.Fills fun _ => "hall")
      [.literal "rooms", .capture "room", .wildcard] ["rooms".toList, "hall".toList, ['7']] :=
    .cons (.literal "rooms") (.cons (.capture "room")
      (.cons (.wildcard ⟨by decide, by decide⟩) .nil))
  have distinct : ([("database", "(default)"), ("namespace", "(default)"),
      ("document", "rooms/\x7broom\x7d/*")].map (·.1)).Nodup := by
    decide
  have attributes : created.attributes = KeyMap.union []
      ([("database", "(default)"), ("namespace", "(default)")] ++
        [("document", "/rooms/hall/7/")]) := by
    decide +kernel
  have slashes : ∀ c ∈ ['/'], c = '/' := by simp
  have made : created = ⟨created.eventType, created.attributes⟩ := rfl
  rw [made, attributes]
  refine EventFilter.carries_of_distinct ?_ _ (.cons ⟨rfl, fun p again => ?_⟩ .nil) []
  · exact distinct
  · obtain rfl := Except.ok.inj (read.symm.trans again)
    exact .of slashes slashes filled

set_option maxRecDepth 100000 in
theorem routesEvents_rooms :
    ∃ m table e filter, Manifest.ofModules [rooms] = .ok m ∧ ofManifest m = .ok table ∧
      RoutesEvents m table ∧ e ∈ m.endpoints.values ∧ e.trigger = .event filter ∧
      filter.Carries (fun _ => "hall") created ∧ table.size = 2 ∧
      table.route? created = some ⟨"onDocumentCreated_rooms_room_", [("room", "hall")]⟩ := by
  have computed : (Manifest.ofModules [rooms]).toOption.map (fun m =>
      (m.endpoints.values[1]?.bind asked? == some ("google.cloud.firestore.document.v1.created",
          [("database", "(default)"), ("namespace", "(default)")],
          [("document", "rooms/\x7broom\x7d/*")]),
        (ofManifest m).toOption.map fun table => (table.size, table.route? created))) =
      some (true, some (2, some ⟨"onDocumentCreated_rooms_room_", [("room", "hall")]⟩)) := by
    decide +kernel
  obtain ⟨m, compiled, computed⟩ := exists_ok_of_toOption computed
  obtain ⟨second, computed⟩ := Prod.mk.inj computed
  obtain ⟨table, built, computed⟩ := exists_ok_of_toOption computed
  obtain ⟨size, routed⟩ := Prod.mk.inj computed
  obtain ⟨e, here, asked⟩ := Option.bind_eq_some_iff.mp (beq_iff_eq.mp second)
  obtain ⟨channel, retry, listens⟩ := exists_event_of_asked? asked
  exact ⟨m, table, e, _, compiled, built, routesEvents_of_ofManifest built,
    List.mem_of_getElem? here, listens, carries_created channel retry, size, routed⟩

end RouteTable

end DeployManifest
