import DeployManifest.Proofs.Outcome
import DeployManifest.Proofs.Scan.Position
import DeployManifest.Proofs.Scope.Statement
import Mathlib.Data.List.Forall2
import Mathlib.Data.List.Nodup

/-! # Recorded calls

The calls that a search comes to are those that it records, each once and in the order of their
positions. Main statement: `scan_records`.
-/

namespace DeployManifest.SourceModule

variable {m : SourceModule}

/-- What is found are the calls that are shown, each at a position of its own. -/
def Traces (m : SourceModule) (shown : List Nat → Node → Prop) (found : List Finding) : Prop :=
  ∃ calls : List (List Nat × Node), (calls.map (·.1)).Nodup ∧
    (∀ position call, (position, call) ∈ calls ↔ shown position call) ∧
    List.Forall₂ (fun entry finding => m.Records entry.2 finding) calls (found.filter (·.isCall))

namespace Traces

variable {first second shown : List Nat → Node → Prop} {found later : List Finding}

theorem congr (traces : m.Traces first found)
    (same : ∀ position call, second position call ↔ first position call) :
    m.Traces second found := by
  obtain ⟨calls, distinct, members, recorded⟩ := traces
  exact ⟨calls, distinct, fun position call => (members position call).trans (same _ _).symm,
    recorded⟩

/-- Nothing is shown where no call is found. -/
theorem none (noCalls : ∀ finding ∈ found, finding.isCall = false) :
    m.Traces (fun _ _ => False) found := by
  have nothing : found.filter (·.isCall) = [] := by
    simpa [List.filter_eq_nil_iff] using noCalls
  exact ⟨[], List.nodup_nil, by simp, nothing ▸ .nil⟩

theorem one {call : Node} {finding : Finding} (position : List Nat)
    (isCall : finding.isCall = true) (records : m.Records call finding) :
    m.Traces (fun other n => other = position ∧ call = n) [finding] := by
  refine ⟨[(position, call)], by simp, ?_, ?_⟩
  · intro other n
    simp [eq_comm]
  · simpa [isCall] using records

/-- Rows of findings whose calls stand apart can be put together. -/
theorem append (traces : m.Traces first found) (others : m.Traces second later)
    (apart : ∀ position call other, first position call → ¬ second position other) :
    m.Traces (fun position call => first position call ∨ second position call)
      (found ++ later) := by
  obtain ⟨calls, distinct, members, recorded⟩ := traces
  obtain ⟨calls', distinct', members', recorded'⟩ := others
  refine ⟨calls ++ calls', ?_, ?_, ?_⟩
  · rw [List.map_append, List.nodup_append]
    refine ⟨distinct, distinct', ?_⟩
    rintro position inside other inside' rfl
    obtain ⟨⟨_, call⟩, member, rfl⟩ := List.mem_map.mp inside
    obtain ⟨⟨_, call'⟩, member', rfl⟩ := List.mem_map.mp inside'
    exact apart _ _ _ ((members _ _).mp member) ((members' _ _).mp member')
  · intro position call
    rw [List.mem_append, members, members']
  · rw [List.filter_append]
    exact List.rel_append recorded recorded'

/-- The same findings, with their calls at positions further down. -/
theorem map (traces : m.Traces shown found) {below : List Nat → List Nat}
    (injective : below.Injective) :
    m.Traces (fun position call => ∃ inner, position = below inner ∧ shown inner call) found := by
  obtain ⟨calls, distinct, members, recorded⟩ := traces
  refine ⟨calls.map fun entry => (below entry.1, entry.2), ?_, ?_, ?_⟩
  · simpa [Function.comp_def] using distinct.map injective
  · intro position call
    simp only [List.mem_map, Prod.mk.injEq, Prod.exists, members]
    constructor
    · rintro ⟨inner, _, found, rfl, rfl⟩
      exact ⟨inner, rfl, found⟩
    · rintro ⟨inner, rfl, found⟩
      exact ⟨inner, call, found, rfl, rfl⟩
  · rw [List.forall₂_map_left_iff]
    exact recorded

/-- The positions of the nodes behind one: the number of the first step is one higher. -/
def next : List Nat → List Nat
  | [] => []
  | i :: rest => (i + 1) :: rest

theorem next_injective : next.Injective := by
  intro first second same
  cases first <;> cases second <;> simp_all [next]

theorem among_cons_iff {shown : Node → List Nat → Node → Prop} {n call : Node} {nodes : List Node}
    {position : List Nat} :
    Among shown (n :: nodes) position call ↔
      (∃ inner, position = 0 :: inner ∧ shown n inner call) ∨
        ∃ inner, position = next inner ∧ Among shown nodes inner call := by
  constructor
  · rintro ⟨i, rest, part, rfl, there, found⟩
    cases i with
    | zero =>
      cases there
      exact .inl ⟨rest, rfl, found⟩
    | succ i => exact .inr ⟨i :: rest, rfl, i, rest, part, rfl, there, found⟩
  · rintro (⟨inner, rfl, found⟩ | ⟨_, rfl, i, rest, part, rfl, there, found⟩)
    · exact ⟨0, inner, n, rfl, rfl, found⟩
    · exact ⟨i + 1, rest, part, rfl, there, found⟩

theorem among_nil {shown : Node → List Nat → Node → Prop} :
    m.Traces (Among shown []) [] := by
  refine (none (by simp)).congr fun position call => ?_
  simp [Among]

theorem among_cons {shown : Node → List Nat → Node → Prop} {n : Node} {nodes : List Node}
    (traces : m.Traces (shown n) found) (others : m.Traces (Among shown nodes) later) :
    m.Traces (Among shown (n :: nodes)) (found ++ later) := by
  have front : Function.Injective (0 :: · : List Nat → List Nat) := List.cons_injective
  refine ((traces.map front).append (others.map next_injective) ?_).congr
    fun position call => among_cons_iff
  rintro position call other ⟨inner, rfl, -⟩ ⟨_, same, i, rest, part, rfl, -⟩
  cases same

/-- Names are found besides, and are no calls. -/
theorem names {names : List Finding} (areNames : ∀ finding ∈ names, finding.IsName)
    (traces : m.Traces shown found) : m.Traces shown (names ++ found) := by
  have noCalls := none (m := m) fun finding member => (areNames finding member).isCall
  refine (noCalls.append traces (by simp)).congr fun position call => ?_
  simp

/-- A decorator that is no attribute shows what its first part does. -/
theorem decorator {n : Node} {nodes : List Node} (traces : m.Traces (m.Shows n) found)
    (notMember : n.kind ≠ .member) : m.Traces (m.ShowsDecorator (n :: nodes)) found := by
  have front : Function.Injective (0 :: · : List Nat → List Nat) := List.cons_injective
  refine (traces.map front).congr fun position call => ?_
  constructor
  · rintro ⟨inner, _, rfl, ⟨rfl⟩, -, shown⟩
    exact ⟨inner, rfl, shown⟩
  · rintro ⟨inner, rfl, shown⟩
    exact ⟨inner, n, rfl, rfl, notMember, shown⟩

end Traces

mutual

theorem traces_findings (m : SourceModule) : ∀ n : Node, m.Traces (m.Shows n) (m.findings n)
  | .mk kind role start stop children => by
    unfold findings
    dsimp only
    split
    · exact (traces_findingsDecorated m _ children).congr fun _ _ => shows_iff_of_decorated rfl
    · split
      · rename_i found recorded
        have registering : m.IsRegistering (.mk .call role start stop children) :=
          (isRegistering_iff none).mpr ⟨rfl, found, recorded⟩
        obtain ⟨isCall, records⟩ := records_of_recorded? recorded
        exact (Traces.one [] isCall records).congr fun _ _ => shows_iff_of_registering registering
      · rename_i unrecorded
        have notRegistering : ¬ m.IsRegistering (.mk .call role start stop children) := by
          intro registering
          obtain ⟨-, found, recorded⟩ := (isRegistering_iff none).mp registering
          cases unrecorded.symm.trans recorded
        exact (traces_findingsAll m children).congr fun _ _ =>
          shows_iff_of_open notRegistering nofun nofun
    · split
      · rename_i found recorded
        obtain ⟨i, value, first, there, registering, isCall, records⟩ :=
          exists_of_assignedCall? recorded
        refine Traces.names m.ownNames_isName ?_
        exact (Traces.one [i] isCall records).congr fun _ _ =>
          shows_iff_of_assigned rfl first there registering
      · rename_i unrecorded
        refine Traces.names m.ownNames_isName ?_
        refine (traces_findingsAll m children).congr fun _ _ => shows_iff_of_open ?_ ?_ nofun
        · exact nofun ∘ IsRegistering.call
        · exact fun _ _ _ => not_isRegistering_of_assignedCall? unrecorded
    · rename_i notDecorated notCall notAssigned
      refine Traces.names m.ownNames_isName ?_
      refine (traces_findingsAll m children).congr fun _ _ => shows_iff_of_open ?_ ?_ notDecorated
      · exact notCall ∘ IsRegistering.call
      · exact fun assigns => absurd assigns notAssigned

theorem traces_findingsAll (m : SourceModule) : ∀ nodes : List Node,
    m.Traces (Among m.Shows nodes) (m.findingsAll nodes)
  | [] => by
    rw [findingsAll]
    exact .among_nil
  | n :: ns => by
    rw [findingsAll]
    exact (traces_findings m n).among_cons (traces_findingsAll m ns)

theorem traces_findingsDecorated (m : SourceModule) (function : String) : ∀ parts : List Node,
    m.Traces (Among m.ShowsDecorated parts) (m.findingsDecorated function parts)
  | [] => by
    rw [findingsDecorated]
    exact .among_nil
  | .mk kind role start stop children :: ns => by
    rw [findingsDecorated]
    refine Traces.among_cons ?_ (traces_findingsDecorated m function ns)
    split
    · rename_i decorates
      refine (traces_findingsDecorator m function children).congr fun position call => ?_
      rw [ShowsDecorated]
      exact (if_pos decorates).to_iff
    · rename_i statement
      refine (traces_findings m (.mk kind role start stop children)).congr fun position call => ?_
      rw [ShowsDecorated]
      exact (if_neg statement).to_iff

theorem traces_findingsDecorator (m : SourceModule) (function : String) : ∀ parts : List Node,
    m.Traces (m.ShowsDecorator parts) (m.findingsDecorator function parts)
  | [] => by
    rw [findingsDecorator]
    refine (Traces.none (by simp)).congr fun position call => ?_
    simp [ShowsDecorator]
  | n :: later => by
    rw [findingsDecorator]
    split
    · rename_i call
      refine Traces.decorator ?_ (by rw [call]; nofun)
      split
      · rename_i found recorded
        obtain ⟨isCall, records, known⟩ := records_of_calledDecorator? recorded
        exact (Traces.one [] isCall records).congr fun _ _ => shows_iff_of_registering ⟨call, known⟩
      · exact traces_findings m n
    · rename_i member
      have noCalls : ∀ finding ∈ (m.bareDecorator? function n).toList, finding.isCall = false :=
        fun finding found => isCall_of_bareDecorator? (Option.mem_toList.mp found)
      refine (Traces.none noCalls).congr fun position call => ?_
      simp [ShowsDecorator, member]
    · rename_i notCall notMember
      exact (traces_findings m n).decorator notMember

end

/-- Of a module without syntax errors, those calls by known methods are recorded, each once and with
its arguments and place, that no node above them hides. Nothing else is recorded as a call. -/
theorem scan_records {tree : Node} (read : Node.ofText? m.text = some tree) :
    ∃ scan, m.scan = .ok scan ∧ ∃ calls : List (List Nat × Node),
      (calls.map (·.1)).Nodup ∧
      (∀ position call, (position, call) ∈ calls ↔
        tree.at? position = some call ∧ m.IsRegistering call ∧ ¬ m.Hidden tree position) ∧
      List.Forall₂ (fun entry finding => m.Records entry.2 finding) calls
        (scan.findings.filter (·.isCall)) := by
  obtain ⟨calls, distinct, members, recorded⟩ := traces_findings m tree
  refine ⟨⟨m.name, m.findings tree⟩, ?_, calls, distinct, fun position call => ?_, recorded⟩
  · rw [scan_eq_ok_iff, scan?, read]
    rfl
  · rw [members]
    constructor
    · rintro ⟨stands, registering, shown⟩
      exact ⟨stands, registering, shown⟩
    · rintro ⟨stands, registering, shown⟩
      exact ⟨stands, registering, shown⟩

/-- An assignment with a registration in the place of its target's type. -/
def typed : SourceModule :=
  ⟨"main.py", "x: https.onRequest(\"a\", f) = params.defineInt(\"A\")\n".toList⟩

set_option maxRecDepth 100000 in
/-- The value of the assignment is recorded, and the registration beside it is not. -/
theorem scan_records_typed :
    ∃ tree scan call, Node.ofText? typed.text = some tree ∧ typed.scan = .ok scan ∧
      scan.registrations.length = 0 ∧ scan.declarations.length = 1 ∧
      tree.at? [0, 0, 1, 0] = some call ∧ typed.IsRegistering call ∧
      typed.Hidden tree [0, 0, 1, 0] := by
  have computed : (Node.ofText? typed.text).map (fun tree =>
      ((tree.at? [0, 0, 1, 0]).map fun call =>
          (call.kind, call.start, (typed.recorded? call none).isSome),
        ((typed.findings tree).filter (·.isCall)).map (·.offset?),
        (ModuleScan.mk typed.name (typed.findings tree)).registrations.length,
        (ModuleScan.mk typed.name (typed.findings tree)).declarations.length)) =
      some (some (.call, 3, true), [some 29], 0, 1) := by
    decide +kernel
  obtain ⟨tree, read, computed⟩ := Option.map_eq_some_iff.mp computed
  simp only [Prod.mk.injEq] at computed
  obtain ⟨here, offsets, registrations, declarations⟩ := computed
  obtain ⟨call, stands, here⟩ := Option.map_eq_some_iff.mp here
  simp only [Prod.mk.injEq] at here
  obtain ⟨kind, start, some⟩ := here
  have registering : typed.IsRegistering call :=
    (isRegistering_iff none).mpr ⟨kind, Option.isSome_iff_exists.mp some⟩
  obtain ⟨scan, searched, calls, -, members, recorded⟩ := scan_records read
  have found := findings_of_scan read searched
  refine ⟨tree, scan, call, read, searched, ?_, ?_, stands, registering, ?_⟩
  · rw [← registrations, ModuleScan.registrations, found]
    rfl
  · rw [← declarations, ModuleScan.declarations, found]
    rfl
  · -- If it were recorded, something would be found where it starts.
    by_contra shown
    have member := (members _ call).mpr ⟨stands, registering, shown⟩
    obtain ⟨finding, inside, records⟩ := Outcome.exists_of_mem_of_forall₂ recorded.flip member
    have placed := List.mem_map_of_mem (f := (·.offset?)) inside
    rw [found, offsets, offset?_of_records records, start] at placed
    simp at placed

end DeployManifest.SourceModule
