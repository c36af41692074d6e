import DeployManifest.Proofs.Compile.Site
import DeployManifest.Proofs.Route.Derived
import DeployManifest.Proofs.Route.Table

/-! # Which registrations can be routed to

Two kinds of registrations compile to endpoints that no route table takes: custom events under a
type of the platform, and database events of an instance that is no path pattern
(`isRoutable_of_endpoint`).
-/

namespace DeployManifest

open Outcome

namespace TriggerSource

variable {s : TriggerSource}

/-- What the patterns of a trigger need: an instance, if one is given, is a pattern or reset. -/
theorem isPattern_of_listens {retry : Option Setting} {filter : EventFilter}
    (addressed : s.address.isSome = s.family.addressKeyword?.isSome)
    (listens : s.Listens retry filter) :
    (∀ entry ∈ filter.patterns, ∃ p, PathPattern.parse entry.2 = .ok p) ↔
      (s.family = .database → ∀ o, s.options.option? "instance" = some o →
        o.value = .reset ∨ ∃ t p, o.value = .text t ∧ PathPattern.parse t = .ok p) := by
  cases listens with
  | topic family | bucket family | document family | custom family => simp [family]
  | documents family _ read =>
    simp only [family, List.forall_mem_singleton, reduceCtorEq, false_implies, iff_true]
    exact ⟨_, PathPattern.parse_text read⟩
  | reference family _ read instGiven =>
    have star : ∃ p, PathPattern.parse "*" = .ok p := ⟨⟨[.wildcard]⟩, by decide⟩
    simp only [family, List.forall_mem_append, List.forall_mem_singleton, forall_true_left]
    rw [filterOr_isPattern_iff instGiven star, and_iff_left ⟨_, PathPattern.parse_text read⟩]
  | all _ unaddressed =>
    have notDatabase : s.family ≠ .database := by
      intro family
      rcases unaddressed with missing | other | other
      · rw [missing, family] at addressed
        cases addressed
      · cases family.symm.trans other
      · cases family.symm.trans other
    simp [notDatabase]

/-- Only event triggers have patterns. -/
theorem isPattern_of_makes {t : Trigger}
    (addressed : s.address.isSome = s.family.addressKeyword?.isSome) (made : s.Makes t) :
    (∀ filter, t = .event filter →
        ∀ entry ∈ filter.patterns, ∃ p, PathPattern.parse entry.2 = .ok p) ↔
      (s.family = .database → ∀ o, s.options.option? "instance" = some o →
        o.value = .reset ∨ ∃ t p, o.value = .text t ∧ PathPattern.parse t = .ok p) := by
  cases made with
  | event _ _ listens => simpa using isPattern_of_listens addressed listens
  | https family | callable family | taskQueue family | schedule family | blocking family =>
    simp [family]

end TriggerSource

namespace Registration

variable {r : Registration} {s : Scope} {globals : GlobalOptions} {e : Endpoint}

/-- The registration is for custom events, and their type is one of the platform's own. -/
def IsMisaddressed (r : Registration) : Prop :=
  r.family = .eventarc ∧ ∃ c address, r.bound = .ok c ∧ c.address = some address ∧
    EventFilter.IsPlatformType address.value

/-- If the registration is for the events of a database instance, the instance is reset or written
out as a path pattern. -/
def HasPatternInstance (r : Registration) (s : Scope) : Prop :=
  r.family = .database → ∀ c arg, r.bound = .ok c → c.option? "instance" = some arg →
    ∃ value, s.evaluate arg.value = .ok value ∧
      (value = .reset ∨ ∃ t p, value = .text t ∧ PathPattern.parse t = .ok p)

/-- The key of an endpoint follows from its trigger, if it is to, unless the registration is
misaddressed. -/
theorem key?_of_endpoint (method : r.method ∈ r.family.methods)
    (made : r.endpoint s globals = .ok e) :
    (e.trigger.key? = none ∧ ¬ e.trigger.DerivesKey ∧ ¬ r.IsMisaddressed) ∨
      ∃ derived, e.trigger.key? = some derived ∧ e.trigger.DerivesKey ∧
        (derived = e.key ↔ ¬ r.IsMisaddressed) := by
  obtain ⟨c, options, base, bound, -, triggered, -, assembled⟩ := endpoint_eq_ok_iff.mp made
  have named : e.key = (r.triggerSource c options s.params).key := by
    rw [(BaseOptions.of_endpoint assembled).1, BoundCall.key, (of_bound bound).1]
    rfl
  have misaddressed : (r.triggerSource c options s.params).IsMisaddressed ↔ r.IsMisaddressed := by
    simp [TriggerSource.IsMisaddressed, IsMisaddressed, triggerSource, bound]
  rw [named, ← misaddressed]
  exact TriggerSource.key?_of_makes method (TriggerSource.makes_of_trigger triggered)

/-- The patterns of an endpoint are patterns exactly if its instance is one. -/
theorem isPattern_of_endpoint (made : r.endpoint s globals = .ok e) :
    (∀ filter, e.trigger = .event filter →
        ∀ entry ∈ filter.patterns, ∃ p, PathPattern.parse entry.2 = .ok p) ↔
      r.HasPatternInstance s := by
  obtain ⟨c, options, base, bound, evaluated, triggered, -, -⟩ := endpoint_eq_ok_iff.mp made
  have triggerMade := TriggerSource.makes_of_trigger triggered
  rw [TriggerSource.isPattern_of_makes (of_bound bound).2 triggerMade]
  change (r.family = .database → ∀ o, options.option? "instance" = some o → _) ↔ _
  rw [Scope.forall_option?_iff evaluated (by decide)
    fun value => value = .reset ∨ ∃ t p, value = .text t ∧ PathPattern.parse t = .ok p]
  simp only [HasPatternInstance, bound, Except.ok.injEq]
  constructor
  · rintro each family _ arg rfl given
    exact each family arg given
  · intro each family arg given
    exact each family c arg rfl given

theorem exists_event_of_not_hasPatternInstance (made : r.endpoint s globals = .ok e)
    (noPattern : ¬ r.HasPatternInstance s) : ∃ filter, e.trigger = .event filter := by
  rw [← isPattern_of_endpoint made] at noPattern
  simp only [not_forall] at noPattern
  obtain ⟨filter, listens, -⟩ := noPattern
  exact ⟨filter, listens⟩

/-- The registrations that can be routed to. -/
theorem isRoutable_of_endpoint (method : r.method ∈ r.family.methods)
    (made : r.endpoint s globals = .ok e) :
    e.trigger.IsRoutable e.key ↔ ¬ r.IsMisaddressed ∧ r.HasPatternInstance s := by
  rw [Trigger.IsRoutable, isPattern_of_endpoint made, and_congr_left_iff]
  intro _
  rcases key?_of_endpoint method made with ⟨none, -, addressed⟩ | ⟨derived, some, -, agrees⟩
  · simp [none, addressed]
  · simp [some, agrees]

/-- The key of an endpoint is refused exactly if the registration is misaddressed. -/
theorem exists_keyMismatch_iff (method : r.method ∈ r.family.methods)
    (made : r.endpoint s globals = .ok e) :
    (∃ key derived, e.trigger.Unroutable e.key (.keyMismatch key derived)) ↔ r.IsMisaddressed := by
  rcases key?_of_endpoint method made with ⟨none, -, addressed⟩ | ⟨derived, some, -, agrees⟩
  · simp only [addressed, iff_false, not_exists]
    rintro _ _ (⟨derives, -⟩ | _)
    cases none.symm.trans derives
  · rw [← not_iff_not, ← agrees]
    constructor
    · intro accepted
      by_contra differs
      exact accepted ⟨_, _, .misnamed some differs⟩
    · rintro named ⟨_, _, ⟨derives, differs⟩ | _⟩
      obtain rfl := Option.some.inj (some.symm.trans derives)
      exact differs named

/-- The patterns of an endpoint are refused exactly if its instance is no pattern. -/
theorem exists_invalidPattern_iff (method : r.method ∈ r.family.methods)
    (made : r.endpoint s globals = .ok e) :
    (∃ pattern cause, e.trigger.Unroutable e.key (.invalidPattern pattern cause)) ↔
      ¬ r.HasPatternInstance s := by
  constructor
  · rintro ⟨_, _, _ | ⟨-, listens, split, -, unread⟩⟩ hasPattern
    obtain ⟨p, read⟩ := (isPattern_of_endpoint made).mpr hasPattern _ listens _
      (split ▸ List.mem_append_right _ (List.mem_cons_self ..))
    cases read.symm.trans unread
  · intro noPattern
    have addressed : ¬ r.IsMisaddressed := by
      rintro ⟨custom, -⟩
      refine noPattern fun family => ?_
      cases custom.symm.trans family
    have unroutable : ¬ e.trigger.IsRoutable e.key := fun routable =>
      noPattern ((isRoutable_of_endpoint method made).mp routable).2
    rw [RouteTable.isRoutable_iff] at unroutable
    simp only [not_forall, not_not] at unroutable
    obtain ⟨fault, refused⟩ := unroutable
    cases fault with
    | keyMismatch key derived =>
      exact absurd ((exists_keyMismatch_iff method made).mp ⟨key, derived, refused⟩) addressed
    | invalidPattern pattern cause => exact ⟨pattern, cause, refused⟩

end Registration

end DeployManifest
