import DeployManifest.Proofs.Address.Capture
import DeployManifest.Proofs.Route.Event

/-! # Captures of routed events

The patterns of an endpoint bind their captures together, one attribute after the other. What is
bound gives the attributes of an event back if and only if the places of a capture, in whatever
patterns they are, hold equal parts. Main statement: `keeps_coherent_bindings`.
-/

namespace DeployManifest

namespace EventRoute

open PathPattern (Coherent lastHeld?)

variable {event : InboundEvent} {patterns : List (String × PathPattern)} {params : KeyMap String}

/-- The parts of the attributes of an event in the places of the patterns for them. -/
def placed (event : InboundEvent) (patterns : List (String × PathPattern)) :
    List (Segment × List Char) :=
  patterns.flatMap fun entry => ((event.attributes.get? entry.1).map entry.2.placed).getD []

/-- The attributes of an accepted event are what the patterns match. -/
def Matches (event : InboundEvent) (patterns : List (String × PathPattern)) : Prop :=
  ∀ entry ∈ patterns, ∃ value,
    event.attributes.get? entry.1 = some value ∧ entry.2.Matches value

/-- The values give the attributes back that the patterns are for. -/
def Restores (params : KeyMap String) (event : InboundEvent)
    (patterns : List (String × PathPattern)) : Prop :=
  ∀ entry ∈ patterns, ∃ value,
    event.attributes.get? entry.1 = some value ∧ entry.2.Restores params value

theorem placed_cons {name value : String} {pattern : PathPattern}
    (there : event.attributes.get? name = some value) :
    placed event ((name, pattern) :: patterns) = pattern.placed value ++ placed event patterns := by
  simp [placed, there]

/-- A name is bound to what stands in the last place of its capture, of all patterns. -/
theorem get?_of_bindings? {bound : KeyMap String}
    (matched : bindings? event patterns bound = some params) (name : String) :
    params.get? name = (lastHeld? (placed event patterns) name).or (bound.get? name) := by
  induction patterns generalizing bound with
  | nil =>
    cases matched
    rfl
  | cons head patterns ih =>
    obtain ⟨key, pattern⟩ := head
    rw [bindings?] at matched
    split at matched
    · cases matched
    · rename_i value there
      split at matched
      · cases matched
      · rename_i captures found
        have distinct : (captures.map (·.1)).Nodup :=
          (PathPattern.isAscending_of_bind? List.Pairwise.nil found).nodup
        -- What this pattern binds replaces what the patterns before it have bound.
        rw [ih matched, KeyMap.get?_union distinct, PathPattern.get?_of_match? found,
          placed_cons there, PathPattern.lastHeld?_append, Option.or_assoc]

theorem mem_placed_iff {place : Segment × List Char} :
    place ∈ placed event patterns ↔ ∃ entry ∈ patterns, ∃ value,
      event.attributes.get? entry.1 = some value ∧ place ∈ entry.2.placed value := by
  rw [placed, List.mem_flatMap]
  refine exists_congr fun entry => and_congr_right fun _ => ?_
  cases event.attributes.get? entry.1 <;> simp

theorem restores_iff_placed (accepted : Matches event patterns) :
    Restores params event patterns ↔
      ∀ place ∈ placed event patterns, place.1.Restores params place.2 := by
  constructor
  · intro restored place member
    obtain ⟨entry, inside, value, there, here⟩ := mem_placed_iff.mp member
    obtain ⟨again, same, gives⟩ := restored entry inside
    cases there.symm.trans same
    obtain ⟨_, same, takes⟩ := accepted entry inside
    cases there.symm.trans same
    exact (PathPattern.restores_iff_placed takes).mp gives place here
  · intro each entry inside
    obtain ⟨value, there, takes⟩ := accepted entry inside
    refine ⟨value, there, (PathPattern.restores_iff_placed takes).mpr fun place here => ?_⟩
    exact each place (mem_placed_iff.mpr ⟨entry, inside, value, there, here⟩)

theorem restores_iff_coherent (matched : bindings? event patterns [] = some params) :
    Restores params event patterns ↔ Coherent (placed event patterns) := by
  have accepted : Matches event patterns := exists_bindings?_iff.mp ⟨params, matched⟩
  have taken : ∀ place ∈ placed event patterns, place.1.Takes place.2 := by
    intro place member
    obtain ⟨entry, inside, value, there, here⟩ := mem_placed_iff.mp member
    obtain ⟨_, same, takes⟩ := accepted entry inside
    cases there.symm.trans same
    exact PathPattern.takes_of_mem_placed takes place here
  rw [restores_iff_placed accepted,
    PathPattern.restores_places_iff taken fun name => by simp [get?_of_bindings? matched, KeyMap.get?]]

theorem captured_placed (accepted : Matches event patterns) :
    (placed event patterns).filterMap (·.1.captured?) =
      patterns.flatMap (·.2.captureNames) := by
  induction patterns with
  | nil => rfl
  | cons head patterns ih =>
    obtain ⟨⟨value, there, takes⟩, others⟩ := List.forall_mem_cons.mp accepted
    rw [placed_cons there, List.filterMap_append, PathPattern.captured_placed takes, ih others,
      List.flatMap_cons]

end EventRoute

namespace PathPattern

/-- What a pattern binds gives a path back that it matches if and only if the places of a capture
hold equal parts; it does so for all paths if and only if no name is captured twice. -/
structure KeepsCoherent (p : PathPattern) : Prop where
  restores_iff : ∀ path captures, p.match? path = some captures →
    (p.Restores captures path ↔ Coherent (p.placed path))
  always_iff : (∀ path captures, p.match? path = some captures → p.Restores captures path) ↔
    p.captureNames.Nodup

end PathPattern

namespace RouteTable

open EventRoute (placed Restores)

variable {table : RouteTable} {m : Manifest}

/-- The values that come with a routed event give the attributes back that the patterns of its
endpoint are for, if and only if the places of a capture hold equal parts; so they do where no name
is captured twice. -/
def KeepsCoherent (table : RouteTable) (m : Manifest) : Prop :=
  ∀ event r, table.route? event = some r → ∃ e, (r.key, e) ∈ m.endpoints.entries ∧
    e.trigger.Accepts event ∧ ∀ filter, e.trigger = .event filter →
      ∃ patterns, readPatterns filter.patterns = .ok patterns ∧
        (Restores r.params event patterns ↔ PathPattern.Coherent (placed event patterns)) ∧
        ((patterns.flatMap (·.2.captureNames)).Nodup → Restores r.params event patterns)

theorem keepsCoherent_of_ofManifest (built : ofManifest m = .ok table) : table.KeepsCoherent m := by
  intro event r routed
  rw [route?_of_ofManifest built] at routed
  obtain ⟨earlier, ⟨key, e⟩, later, split, delivered, -⟩ := List.findSome?_eq_some_iff.mp routed
  have member : (key, e) ∈ m.endpoints.entries := by simp [split]
  have accepted := (exists_delivery?_iff_accepts (isRoutable_of_ofManifest built _ member)).mp
    ⟨r, delivered⟩
  refine ⟨e, key_of_delivery? delivered ▸ member, accepted, fun filter listens => ?_⟩
  obtain ⟨route, params, found, matched, rfl⟩ := delivery?_eq_some_iff.mp delivered
  dsimp only at found
  rw [listens] at found
  obtain ⟨patterns, read, rfl⟩ := eventRoute?_of_event.mp found
  rw [EventRoute.match?] at matched
  split at matched
  · have restores := EventRoute.restores_iff_coherent matched
    refine ⟨patterns, read, restores, fun distinct => restores.mpr ?_⟩
    have captured := EventRoute.captured_placed (EventRoute.exists_bindings?_iff.mp ⟨_, matched⟩)
    exact PathPattern.coherent_of_nodup (captured ▸ distinct)
  · cases matched

/-- Bindings are kept by a pattern that is read and by the table of a manifest, exactly as far as
the places of a capture hold equal parts. -/
theorem keeps_coherent_bindings (pattern : String) (m : Manifest) :
    (∀ p, PathPattern.parse pattern = .ok p → p.KeepsCoherent) ∧
      ∀ table, ofManifest m = .ok table → table.KeepsCoherent m := by
  refine ⟨fun p read => ⟨fun path captures matched => ?_, ?_⟩, fun table built => ?_⟩
  · exact PathPattern.restores_iff_coherent matched
  · exact PathPattern.always_restores_iff read
  · exact keepsCoherent_of_ofManifest built

/-- A handler whose path and instance are captured under one name. -/
def shared : SourceModule :=
  ⟨"main.py", ("@database.onValueWritten(\"rooms/\x7bid\x7d\", instance=\"\x7bid\x7d\")\n"
    ++ "def written(e): pass\n").toList⟩

/-- A room is written to in the main database. -/
def writtenRoom : InboundEvent :=
  ⟨"google.firebase.database.ref.v1.written", [("instance", "main"), ("ref", "/rooms/hall")]⟩

set_option maxRecDepth 100000 in
/-- Of a name that is captured twice only the last part is left, in a path as in an event. -/
theorem not_restores_shared :
    (∃ p, PathPattern.parse "\x7ba\x7d/\x7ba\x7d" = .ok p ∧
      p.match? "x/y" = some [("a", "y")] ∧ ¬ p.Restores [("a", "y")] "x/y") ∧
    ∃ m table, Manifest.ofModules [shared] = .ok m ∧ ofManifest m = .ok table ∧
      table.route? writtenRoom = some ⟨"onValueWritten_rooms_id", [("id", "hall")]⟩ ∧
      ∃ e filter patterns, e ∈ m.endpoints.values ∧ e.trigger = .event filter ∧
        e.trigger.Accepts writtenRoom ∧ readPatterns filter.patterns = .ok patterns ∧
        ¬ Restores [("id", "hall")] writtenRoom patterns := by
  have computed : (Manifest.ofModules [shared]).toOption.map (fun m =>
      (m.endpoints.values.map asked? == [some ("google.firebase.database.ref.v1.written", [],
          [("instance", "\x7bid\x7d"), ("ref", "rooms/\x7bid\x7d")])],
        (ofManifest m).toOption.map fun table => table.route? writtenRoom)) =
      some (true, some (some ⟨"onValueWritten_rooms_id", [("id", "hall")]⟩)) := by
    decide +kernel
  obtain ⟨m, compiled, computed⟩ := Outcome.exists_ok_of_toOption computed
  obtain ⟨asked, computed⟩ := Prod.mk.inj computed
  obtain ⟨table, built, routed⟩ := Outcome.exists_ok_of_toOption computed
  obtain ⟨ofPattern, ofTable⟩ := keeps_coherent_bindings "\x7ba\x7d/\x7ba\x7d" m
  constructor
  · have read : PathPattern.parse "\x7ba\x7d/\x7ba\x7d" = .ok ⟨[.capture "a", .capture "a"]⟩ := by
      decide +kernel
    have matched : PathPattern.match? ⟨[.capture "a", .capture "a"]⟩ "x/y" = some [("a", "y")] := by
      decide +kernel
    refine ⟨_, read, matched, ?_⟩
    rw [(ofPattern _ read).restores_iff _ _ matched]
    intro coherent
    exact absurd (coherent "a" ['x'] ['y'] (by decide +kernel) (by decide +kernel)) (by decide)
  · obtain ⟨e, entered, accepted, kept⟩ := ofTable table built _ _ routed
    have member : e ∈ m.endpoints.values := List.mem_map_of_mem entered
    have here : asked? e ∈ m.endpoints.values.map asked? := List.mem_map_of_mem member
    rw [beq_iff_eq.mp asked, List.mem_singleton] at here
    obtain ⟨channel, retry, listens⟩ := exists_event_of_asked? here
    obtain ⟨patterns, read, restores, -⟩ := kept _ listens
    have again : readPatterns [("instance", "\x7bid\x7d"), ("ref", "rooms/\x7bid\x7d")] =
        .ok [("instance", ⟨[.capture "id"]⟩), ("ref", ⟨[.literal "rooms", .capture "id"]⟩)] := by
      decide +kernel
    obtain rfl := Except.ok.inj (again.symm.trans read)
    refine ⟨m, table, compiled, built, routed, e, _, _, member, listens, accepted, again, ?_⟩
    rw [restores]
    intro coherent
    exact absurd (coherent "id" "main".toList "hall".toList (by decide +kernel) (by decide +kernel))
      (by decide)

end RouteTable

end DeployManifest
