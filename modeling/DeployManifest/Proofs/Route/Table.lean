import DeployManifest.Proofs.Outcome
import DeployManifest.Route.Basic

/-! # Which manifests have a route table

Whether an endpoint can be routed to does not depend on the others, so a manifest has a table if all
its endpoints can, and the first one that cannot decides the error (`ofManifest_eq_error_iff`).
-/

namespace DeployManifest

open Outcome

namespace Trigger

/-- Why an endpoint with the trigger cannot be routed to under a key. -/
inductive Unroutable (t : Trigger) (key : String) : RouteError → Prop where
  | misnamed {derived : String} (derives : t.key? = some derived) (differs : derived ≠ key) :
      Unroutable t key (.keyMismatch key derived)
  /-- Of several texts that are no patterns the first is named. -/
  | unread {filter : EventFilter} {earlier later : KeyMap String} {entry : String × String}
      {cause : PatternError} (named : ∀ derived, t.key? = some derived → derived = key)
      (listens : t = .event filter) (split : filter.patterns = earlier ++ entry :: later)
      (before : ∀ other ∈ earlier, ∃ p, PathPattern.parse other.2 = .ok p)
      (unread : PathPattern.parse entry.2 = .error cause) :
      Unroutable t key (.invalidPattern entry.2 cause)

/-- The key is the one that follows from the trigger, if any does, and the patterns of the trigger
are patterns. -/
def IsRoutable (t : Trigger) (key : String) : Prop :=
  (∀ derived, t.key? = some derived → derived = key) ∧
    ∀ filter, t = .event filter →
      ∀ entry ∈ filter.patterns, ∃ p, PathPattern.parse entry.2 = .ok p

end Trigger

namespace RouteTable

variable {table : RouteTable} {t : Trigger} {key : String} {fault : RouteError}
  {entry : String × Endpoint}

/-- Reads a pattern under its name. -/
def readPattern (entry : String × String) : Except RouteError (String × PathPattern) :=
  match PathPattern.parse entry.2 with
  | .ok pattern => .ok (entry.1, pattern)
  | .error cause => .error (.invalidPattern entry.2 cause)

theorem readPatterns_eq_mapM (patterns : KeyMap String) :
    readPatterns patterns = patterns.mapM readPattern := rfl

theorem exists_readPattern_ok_iff {entry : String × String} :
    (∃ read, readPattern entry = .ok read) ↔ ∃ p, PathPattern.parse entry.2 = .ok p := by
  rw [readPattern]
  cases PathPattern.parse entry.2 <;> simp

theorem readPattern_eq_error_iff {entry : String × String} :
    readPattern entry = .error fault ↔
      ∃ cause, PathPattern.parse entry.2 = .error cause ∧
        fault = .invalidPattern entry.2 cause := by
  rw [readPattern]
  cases PathPattern.parse entry.2 <;> simp [eq_comm]

theorem readPatterns_eq_error_iff {patterns : KeyMap String} :
    readPatterns patterns = .error fault ↔
      ∃ earlier entry later cause, patterns = earlier ++ entry :: later ∧
        (∀ other ∈ earlier, ∃ p, PathPattern.parse other.2 = .ok p) ∧
        PathPattern.parse entry.2 = .error cause ∧ fault = .invalidPattern entry.2 cause := by
  rw [readPatterns_eq_mapM, mapM_eq_error_iff]
  simp only [exists_readPattern_ok_iff, readPattern_eq_error_iff]
  constructor
  · rintro ⟨earlier, entry, later, split, before, cause, unread, rfl⟩
    exact ⟨earlier, entry, later, cause, split, before, unread, rfl⟩
  · rintro ⟨earlier, entry, later, cause, split, before, unread, rfl⟩
    exact ⟨earlier, entry, later, split, before, cause, unread, rfl⟩

theorem exists_readPatterns_ok_iff {patterns : KeyMap String} :
    (∃ read, readPatterns patterns = .ok read) ↔
      ∀ entry ∈ patterns, ∃ p, PathPattern.parse entry.2 = .ok p := by
  constructor
  · rintro ⟨read, done⟩ entry member
    exact exists_readPattern_ok_iff.mp (exists_ok_of_mapM done entry member)
  · intro readable
    cases read : readPatterns patterns with
    | ok pairs => exact ⟨pairs, rfl⟩
    | error fault =>
      obtain ⟨earlier, entry, later, cause, rfl, -, unread, -⟩ := readPatterns_eq_error_iff.mp read
      obtain ⟨p, done⟩ := readable entry (by simp)
      cases done.symm.trans unread

/-- Once the key is right, only patterns can stand against an endpoint. -/
theorem route_eq_error_iff :
    add.route table entry t = .error fault ↔
      ∃ filter, t = .event filter ∧ readPatterns filter.patterns = .error fault := by
  cases t with
  | event filter =>
    rw [add.route]
    cases read : readPatterns filter.patterns <;> simp [read]
  | https _ | callable | blocking _ _ | schedule _ _ _ | taskQueue _ _ _ => simp [add.route]

theorem add_eq_error_iff :
    table.add entry = .error fault ↔ entry.2.trigger.Unroutable entry.1 fault := by
  have unreadable (named : ∀ derived, entry.2.trigger.key? = some derived → derived = entry.1) :
      add.route table entry entry.2.trigger = .error fault ↔
        entry.2.trigger.Unroutable entry.1 fault := by
    rw [route_eq_error_iff]
    constructor
    · rintro ⟨filter, listens, failed⟩
      obtain ⟨earlier, entry, later, cause, split, before, read, rfl⟩ :=
        readPatterns_eq_error_iff.mp failed
      exact .unread named listens split before read
    · rintro (⟨derives, differs⟩ | ⟨-, listens, split, before, read⟩)
      · exact absurd (named _ derives) differs
      · exact ⟨_, listens, readPatterns_eq_error_iff.mpr ⟨_, _, _, _, split, before, read, rfl⟩⟩
  rw [add]
  cases derives : entry.2.trigger.key? with
  | none => exact unreadable (by simp [derives])
  | some derived =>
    by_cases named : derived = entry.1
    · simp only [if_pos named]
      exact unreadable (by simp [derives, named])
    · simp only [if_neg named]
      constructor
      · intro failed
        cases failed
        exact .misnamed derives named
      · rintro (⟨again, -⟩ | ⟨agrees, -, -, -, -⟩)
        · cases derives.symm.trans again
          rfl
        · exact absurd (agrees derived derives) named

theorem isRoutable_iff : t.IsRoutable key ↔ ∀ fault, ¬ t.Unroutable key fault := by
  constructor
  · rintro ⟨named, read⟩ fault (⟨derives, differs⟩ | ⟨-, listens, split, -, unread⟩)
    · exact differs (named _ derives)
    · obtain ⟨p, done⟩ := read _ listens _ (split ▸ List.mem_append_right _ (List.mem_cons_self ..))
      cases done.symm.trans unread
  · intro sound
    have named : ∀ derived, t.key? = some derived → derived = key := by
      intro derived derives
      by_contra differs
      exact sound _ (.misnamed derives differs)
    refine ⟨named, fun filter listens => exists_readPatterns_ok_iff.mp ?_⟩
    cases read : readPatterns filter.patterns with
    | ok patterns => exact ⟨patterns, rfl⟩
    | error fault =>
      obtain ⟨earlier, entry, later, cause, split, before, unread, rfl⟩ :=
        readPatterns_eq_error_iff.mp read
      exact absurd (.unread named listens split before unread) (sound _)

theorem exists_add_eq_ok_iff :
    (∃ next, table.add entry = .ok next) ↔ entry.2.trigger.IsRoutable entry.1 := by
  rw [isRoutable_iff]
  cases added : table.add entry with
  | ok next =>
    simp only [Except.ok.injEq, exists_eq', true_iff]
    intro fault unroutable
    cases added.symm.trans (add_eq_error_iff.mpr unroutable)
  | error fault =>
    simp only [reduceCtorEq, exists_false, false_iff, not_forall, not_not]
    exact ⟨fault, add_eq_error_iff.mp added⟩

theorem exists_foldlM_add_eq_ok_iff {entries : List (String × Endpoint)} :
    (∃ last, entries.foldlM add table = .ok last) ↔
      ∀ entry ∈ entries, entry.2.trigger.IsRoutable entry.1 := by
  induction entries generalizing table with
  | nil => exact ⟨fun _ => by simp, fun _ => ⟨table, rfl⟩⟩
  | cons entry entries ih =>
    simp only [List.foldlM_cons, bind_eq_ok_iff, List.forall_mem_cons]
    constructor
    · rintro ⟨last, next, added, reached⟩
      exact ⟨exists_add_eq_ok_iff.mp ⟨next, added⟩, ih.mp ⟨last, reached⟩⟩
    · rintro ⟨routable, rest⟩
      obtain ⟨next, added⟩ : ∃ next, table.add entry = .ok next := exists_add_eq_ok_iff.mpr routable
      obtain ⟨last, reached⟩ : ∃ last, entries.foldlM add next = .ok last := ih.mpr rest
      exact ⟨last, next, added, reached⟩

/-- The first endpoint that cannot be routed to decides the error. -/
theorem ofManifest_eq_error_iff {m : Manifest} :
    ofManifest m = .error fault ↔
      ∃ (i : Nat) (entry : String × Endpoint), m.endpoints.entries[i]? = some entry ∧
        entry.2.trigger.Unroutable entry.1 fault ∧
        ∀ (j : Nat) (other : String × Endpoint), j < i → m.endpoints.entries[j]? = some other →
          other.2.trigger.IsRoutable other.1 := by
  rw [ofManifest, foldlM_eq_error_iff]
  generalize m.endpoints.entries = entries
  constructor
  · rintro ⟨earlier, entry, later, state, split, reached, failed⟩
    refine ⟨earlier.length, entry, by simp [split], add_eq_error_iff.mp failed, ?_⟩
    intro j other before there
    rw [split, List.getElem?_append_left before] at there
    exact exists_foldlM_add_eq_ok_iff.mp ⟨state, reached⟩ other (List.mem_of_getElem? there)
  · rintro ⟨i, entry, here, unroutable, before⟩
    obtain ⟨inside, rfl⟩ := List.getElem?_eq_some_iff.mp here
    have routable : ∀ other ∈ entries.take i, other.2.trigger.IsRoutable other.1 := by
      intro other member
      obtain ⟨j, there⟩ := List.getElem?_of_mem member
      rw [List.getElem?_take] at there
      split at there
      · exact before j other ‹_› there
      · cases there
    obtain ⟨state, reached⟩ := exists_foldlM_add_eq_ok_iff.mpr routable
    refine ⟨entries.take i, entries[i], entries.drop (i + 1), state, ?_, reached,
      add_eq_error_iff.mpr unroutable⟩
    rw [← List.drop_eq_getElem_cons inside, List.take_append_drop]

end RouteTable

end DeployManifest
