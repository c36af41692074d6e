import DeployManifest.Proofs.Route.Table

/-! # What a route table holds

Endpoints enter a table one after the other (`of_add`): those that events are delivered to as
routes, those that requests are sent to as keys. `events_of_ofManifest`, `http_of_ofManifest` and
`size_of_ofManifest` say what a whole manifest puts into its table.
-/

namespace DeployManifest

open Outcome

/-- Is the endpoint invoked through the table? -/
def Trigger.isRouted : Trigger → Bool
  | .https _ => true
  | .callable => true
  | .event _ => true
  | .blocking _ _ => true
  | .schedule _ _ _ => false
  | .taskQueue _ _ _ => false

/-- Is the endpoint invoked by requests to its key? -/
def Trigger.isRequested : Trigger → Bool
  | .https _ => true
  | .callable => true
  | _ => false

/-- The route of events to an endpoint with the trigger. -/
def Trigger.eventRoute? (t : Trigger) (key : String) : Option EventRoute :=
  match t with
  | .event filter =>
    (RouteTable.readPatterns filter.patterns).toOption.map fun patterns =>
      ⟨key, filter.eventType, filter.filters, patterns⟩
  | .blocking eventType _ => some ⟨key, eventType, [], []⟩
  | _ => none

namespace RouteTable

variable {table next last : RouteTable} {entry : String × Endpoint} {m : Manifest}

/-- What one endpoint puts into the table. -/
theorem of_add (added : table.add entry = .ok next) :
    next.events = table.events ++ (entry.2.trigger.eventRoute? entry.1).toList ∧
      next.http =
        if entry.2.trigger.isRequested then table.http.insert entry.1 else table.http := by
  have routed : add.route table entry entry.2.trigger = .ok next := by
    rw [add] at added
    split at added
    · split at added
      · exact added
      · cases added
    · exact added
  generalize entry.2.trigger = trigger at routed
  cases trigger with
  | event filter =>
    rw [add.route] at routed
    split at routed
    · rename_i patterns read
      cases routed
      simp [Trigger.eventRoute?, read, Except.toOption, Trigger.isRequested]
    · cases routed
  | https _ | callable | blocking _ _ | schedule _ _ _ | taskQueue _ _ _ =>
    cases routed
    simp [Trigger.eventRoute?, Trigger.isRequested]

/-- The keys differ, so every key of requests is put in front of the others. -/
theorem of_foldlM_add {entries : List (String × Endpoint)}
    (reached : entries.foldlM add table = .ok last)
    (fresh : (table.http ++ entries.map (·.1)).Nodup) :
    last.events = table.events ++ entries.filterMap (fun e => e.2.trigger.eventRoute? e.1) ∧
      last.http.Perm
        (table.http ++ (entries.filter (·.2.trigger.isRequested)).map (·.1)) := by
  induction entries generalizing table with
  | nil =>
    cases reached
    simp
  | cons entry entries ih =>
    rw [List.foldlM_cons, bind_eq_ok_iff] at reached
    obtain ⟨next, added, reached⟩ := reached
    obtain ⟨events, http⟩ := of_add added
    rw [List.map_cons, List.perm_middle.nodup_iff] at fresh
    have routes (rest : List EventRoute) : next.events ++ rest =
        table.events ++ ((entry.2.trigger.eventRoute? entry.1).toList ++ rest) := by
      rw [events, List.append_assoc]
    cases requested : entry.2.trigger.isRequested with
    | true =>
      have free : entry.1 ∉ table.http := fun taken =>
        (List.nodup_cons.mp fresh).1 (List.mem_append_left _ taken)
      rw [if_pos requested, List.insert_of_not_mem free] at http
      obtain ⟨eventsLast, httpLast⟩ := ih reached (http ▸ fresh)
      refine ⟨?_, ?_⟩
      · rw [eventsLast, routes]
        cases found : entry.2.trigger.eventRoute? entry.1 <;> simp [found]
      · rw [http] at httpLast
        simpa [requested] using httpLast.trans List.perm_middle.symm
    | false =>
      rw [if_neg (by simp [requested])] at http
      obtain ⟨eventsLast, httpLast⟩ := ih reached (http ▸ fresh.of_cons)
      refine ⟨?_, ?_⟩
      · rw [eventsLast, routes]
        cases found : entry.2.trigger.eventRoute? entry.1 <;> simp [found]
      · rw [http] at httpLast
        simpa [requested] using httpLast

theorem events_of_ofManifest (built : ofManifest m = .ok table) :
    table.events = m.endpoints.entries.filterMap fun e => e.2.trigger.eventRoute? e.1 :=
  (of_foldlM_add built m.endpoints.distinct).1

theorem http_of_ofManifest (built : ofManifest m = .ok table) : table.http.Perm
    ((m.endpoints.entries.filter (·.2.trigger.isRequested)).map (·.1)) :=
  (of_foldlM_add built m.endpoints.distinct).2

/-- An endpoint with a table has a route for its events, if any are delivered to it. -/
theorem isSome_eventRoute? {t : Trigger} {key : String} (routable : t.IsRoutable key) :
    (t.eventRoute? key).isSome = t.eventType?.isSome := by
  cases t with
  | event filter =>
    obtain ⟨patterns, read⟩ := exists_readPatterns_ok_iff.mpr (routable.2 filter rfl)
    simp [Trigger.eventRoute?, read, Except.toOption, Trigger.eventType?]
  | https _ | callable | blocking _ _ | schedule _ _ _ | taskQueue _ _ _ =>
    simp [Trigger.eventRoute?, Trigger.eventType?]

theorem isRoutable_of_ofManifest (built : ofManifest m = .ok table) :
    ∀ entry ∈ m.endpoints.entries, entry.2.trigger.IsRoutable entry.1 :=
  exists_foldlM_add_eq_ok_iff.mp ⟨table, built⟩

/-- Events and requests go to different endpoints. -/
theorem isRouted_count (t : Trigger) :
    (if t.eventType?.isSome then 1 else 0) + (if t.isRequested then 1 else 0) =
      if t.isRouted then 1 else 0 := by
  cases t <;> rfl

/-- Each endpoint that is invoked through the table counts once. -/
theorem size_of_ofManifest (built : ofManifest m = .ok table) :
    table.size = m.endpoints.values.countP (·.trigger.isRouted) := by
  rw [size, events_of_ofManifest built, (http_of_ofManifest built).length_eq, List.length_map,
    List.length_filterMap_eq_countP, ← List.countP_eq_length_filter, IndexMap.values,
    List.countP_map]
  have routable := isRoutable_of_ofManifest built
  clear built
  generalize m.endpoints.entries = entries at routable ⊢
  induction entries with
  | nil => rfl
  | cons entry entries ih =>
    obtain ⟨first, others⟩ := List.forall_mem_cons.mp routable
    rw [List.countP_cons, List.countP_cons, List.countP_cons, ← ih others,
      isSome_eventRoute? first, Function.comp_apply, ← isRouted_count entry.2.trigger]
    omega

end RouteTable

end DeployManifest
