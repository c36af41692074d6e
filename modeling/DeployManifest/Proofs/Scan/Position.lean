import DeployManifest.Proofs.Scan.Call
import Mathlib.Tactic.ByContra

/-! # Where calls stand, and which of them are passed over

A node of a tree has a position: the numbers of the children on the way to it. A search does not
come to every position (`Hides`): it passes over what is inside a recorded call, beside the recorded
value of an assignment, behind the first part of a decorator, and below a decorator that is an
attribute. `shows_iff_of_open` and the lemmas behind it say how it goes on from a node.
-/

namespace DeployManifest

namespace Node

/-- The node at a position. -/
def at? : Node → List Nat → Option Node
  | n, [] => some n
  | n, i :: rest =>
    match n.children[i]? with
    | some part => at? part rest
    | none => none

@[simp]
theorem at?_nil (n : Node) : n.at? [] = some n := rfl

theorem at?_cons_eq_some_iff {n target : Node} {i : Nat} {rest : List Nat} :
    n.at? (i :: rest) = some target ↔
      ∃ part, n.children[i]? = some part ∧ part.at? rest = some target := by
  rw [at?]
  cases n.children[i]? <;> simp

end Node

namespace SourceModule

variable {m : SourceModule} {n part call : Node} {i : Nat} {rest : List Nat}

/-- The positions below a node that a search of the node does not come to. -/
inductive Hides (m : SourceModule) (n : Node) : List Nat → Prop where
  /-- Inside a recorded call. -/
  | within {i : Nat} {rest : List Nat} (registering : m.IsRegistering n) : Hides m n (i :: rest)
  /-- In the target or the type of an assignment whose value is recorded. -/
  | beside {i j : Nat} {rest : List Nat} {value : Node} (assigns : n.kind = .assignment)
      (first : n.children.findIdx? (·.role == .right) = some i)
      (there : n.children[i]? = some value) (registering : m.IsRegistering value)
      (apart : j ≠ i) : Hides m n (j :: rest)
  /-- In a decorator, behind the first part of it. -/
  | behind {i j : Nat} {rest : List Nat} {decorator : Node}
      (decorated : n.kind = .decoratedDefinition) (there : n.children[i]? = some decorator)
      (decorates : decorator.kind = .decorator) (later : j ≠ 0) : Hides m n (i :: j :: rest)
  /-- In a decorator that is an attribute. -/
  | below {i : Nat} {rest : List Nat} {decorator first : Node}
      (decorated : n.kind = .decoratedDefinition) (there : n.children[i]? = some decorator)
      (decorates : decorator.kind = .decorator) (starts : decorator.children[0]? = some first)
      (member : first.kind = .member) : Hides m n (i :: 0 :: rest)

/-- A position that a search of the tree does not come to, because of a node above it. -/
def Hidden (m : SourceModule) (tree : Node) (position : List Nat) : Prop :=
  ∃ above inner n, position = above ++ inner ∧ tree.at? above = some n ∧ m.Hides n inner

/-- A node that a search of the tree comes to. -/
structure Visits (m : SourceModule) (tree : Node) (position : List Nat) (n : Node) : Prop where
  stands : tree.at? position = some n
  reached : ¬ m.Hidden tree position

/-- A call by a known method that a search comes to. -/
structure Shows (m : SourceModule) (tree : Node) (position : List Nat) (call : Node) : Prop where
  stands : tree.at? position = some call
  registering : m.IsRegistering call
  shown : ¬ m.Hidden tree position

theorem not_hides_nil : ¬ m.Hides n [] := by
  intro hides
  cases hides

theorem not_hidden_nil : ¬ m.Hidden n [] := by
  rintro ⟨above, inner, other, split, -, hides⟩
  obtain ⟨-, rfl⟩ := List.append_eq_nil_iff.mp split.symm
  exact not_hides_nil hides

/-- A position is hidden by the root, or below one of its children. -/
theorem hidden_cons_iff : m.Hidden n (i :: rest) ↔
    m.Hides n (i :: rest) ∨ ∃ part, n.children[i]? = some part ∧ m.Hidden part rest := by
  constructor
  · rintro ⟨above, inner, other, split, there, hides⟩
    cases above with
    | nil =>
      cases there
      exact .inl (split ▸ hides)
    | cons first above =>
      obtain ⟨rfl, rfl⟩ := List.cons.inj split
      obtain ⟨part, child, there⟩ := Node.at?_cons_eq_some_iff.mp there
      exact .inr ⟨part, child, above, inner, other, rfl, there, hides⟩
  · rintro (hides | ⟨part, child, above, inner, other, rfl, there, hides⟩)
    · exact ⟨[], i :: rest, n, rfl, rfl, hides⟩
    · exact ⟨i :: above, inner, other, rfl,
        Node.at?_cons_eq_some_iff.mpr ⟨part, child, there⟩, hides⟩

/-! ### Nodes that are visited -/

theorem visits_nil_iff : m.Visits n [] part ↔ n = part := by
  constructor
  · rintro ⟨⟨rfl⟩, -⟩
    rfl
  · rintro rfl
    exact ⟨rfl, not_hidden_nil⟩

theorem visits_cons_iff : m.Visits n (i :: rest) part ↔
    ¬ m.Hides n (i :: rest) ∧ ∃ child, n.children[i]? = some child ∧ m.Visits child rest part := by
  constructor
  · rintro ⟨stands, reached⟩
    obtain ⟨child, there, stands⟩ := Node.at?_cons_eq_some_iff.mp stands
    rw [hidden_cons_iff, not_or] at reached
    exact ⟨reached.1, child, there, stands, fun hidden => reached.2 ⟨child, there, hidden⟩⟩
  · rintro ⟨passes, child, there, stands, reached⟩
    refine ⟨Node.at?_cons_eq_some_iff.mpr ⟨child, there, stands⟩, ?_⟩
    rw [hidden_cons_iff]
    rintro (hides | ⟨other, again, hidden⟩)
    · exact passes hides
    · obtain rfl := Option.some.inj (there.symm.trans again)
      exact reached hidden

/-! ### What each kind of node hides -/

/-- Nothing is hidden by a node that is neither recorded, nor an assignment with a recorded value, nor
a decorated definition. -/
theorem not_hides_of_open {position : List Nat} (notRegistering : ¬ m.IsRegistering n)
    (notAssigned : n.kind = .assignment → ∀ i value,
      n.children.findIdx? (·.role == .right) = some i → n.children[i]? = some value →
        ¬ m.IsRegistering value)
    (notDecorated : n.kind ≠ .decoratedDefinition) : ¬ m.Hides n position := by
  intro hides
  cases hides with
  | within registering => exact notRegistering registering
  | beside assigns first there registering =>
    exact notAssigned assigns _ _ first there registering
  | behind decorated | below decorated => exact notDecorated decorated

theorem not_isRegistering_of_kind (other : n.kind ≠ .call) : ¬ m.IsRegistering n :=
  fun registering => other registering.call

theorem not_hides_of_decorator {position : List Nat} (decorates : n.kind = .decorator) :
    ¬ m.Hides n position := by
  refine not_hides_of_open (not_isRegistering_of_kind ?_) (fun assigns => ?_) fun decorated => ?_
  · rw [decorates]
    nofun
  · cases decorates.symm.trans assigns
  · cases decorates.symm.trans decorated

/-- Everything beside a recorded value is hidden by the assignment. -/
theorem hides_iff_of_assigned {value : Node} {j : Nat} (assigns : n.kind = .assignment)
    (first : n.children.findIdx? (·.role == .right) = some i)
    (there : n.children[i]? = some value) (registering : m.IsRegistering value) :
    m.Hides n (j :: rest) ↔ j ≠ i := by
  constructor
  · intro hides
    cases hides with
    | within registering => cases assigns.symm.trans registering.call
    | beside _ again _ _ apart =>
      cases Option.some.inj (first.symm.trans again)
      exact apart
    | behind decorated | below decorated => cases assigns.symm.trans decorated
  · exact .beside assigns first there registering

/-- In a decorator, a decorated definition hides all but the first part, and that if it is an
attribute. -/
theorem hides_iff_of_decorated (decorated : n.kind = .decoratedDefinition) :
    m.Hides n (i :: rest) ↔
      ∃ decorator, n.children[i]? = some decorator ∧ decorator.kind = .decorator ∧
        ∃ j inner, rest = j :: inner ∧ (j ≠ 0 ∨
          ∃ first, decorator.children[0]? = some first ∧ first.kind = .member) := by
  constructor
  · intro hides
    cases hides with
    | within registering => cases decorated.symm.trans registering.call
    | beside assigns => cases decorated.symm.trans assigns
    | behind _ there decorates later =>
      exact ⟨_, there, decorates, _, _, rfl, .inl later⟩
    | below _ there decorates starts member =>
      exact ⟨_, there, decorates, _, _, rfl, .inr ⟨_, starts, member⟩⟩
  · rintro ⟨decorator, there, decorates, j, inner, rfl, hides⟩
    by_cases later : j = 0
    · subst later
      obtain later | ⟨first, starts, member⟩ := hides
      · exact absurd rfl later
      · exact .below decorated there decorates starts member
    · exact .behind decorated there decorates later

/-! ### Calls that are shown -/

theorem shows_iff {position : List Nat} :
    m.Shows n position call ↔ m.Visits n position call ∧ m.IsRegistering call := by
  constructor
  · rintro ⟨stands, registering, shown⟩
    exact ⟨⟨stands, shown⟩, registering⟩
  · rintro ⟨⟨stands, shown⟩, registering⟩
    exact ⟨stands, registering, shown⟩

theorem shows_nil_iff : m.Shows n [] call ↔ n = call ∧ m.IsRegistering n := by
  rw [shows_iff, visits_nil_iff]
  exact and_congr_right fun same => by rw [same]

theorem shows_cons_iff : m.Shows n (i :: rest) call ↔
    ¬ m.Hides n (i :: rest) ∧ ∃ part, n.children[i]? = some part ∧ m.Shows part rest call := by
  simp only [shows_iff, visits_cons_iff, and_assoc, ← exists_and_right]

/-! ### The parts of a node -/

/-- A call that is shown in one of the nodes, at a position that starts with the number of it. -/
def Among (shown : Node → List Nat → Node → Prop) (nodes : List Node) (position : List Nat)
    (call : Node) : Prop :=
  ∃ i rest part, position = i :: rest ∧ nodes[i]? = some part ∧ shown part rest call

/-- A call that a search of a decorator with these parts comes to. -/
def ShowsDecorator (m : SourceModule) (parts : List Node) (position : List Nat) (call : Node) :
    Prop :=
  ∃ rest first, position = 0 :: rest ∧ parts[0]? = some first ∧ first.kind ≠ .member ∧
    m.Shows first rest call

/-- A call that a search of a part of a decorated definition comes to. -/
def ShowsDecorated (m : SourceModule) (part : Node) (position : List Nat) (call : Node) : Prop :=
  if part.kind = .decorator then m.ShowsDecorator part.children position call
  else m.Shows part position call

/-- A search goes on in all children of a node that is neither recorded, nor an assignment with a
recorded value, nor a decorated definition. -/
theorem shows_iff_of_open {position : List Nat} (notRegistering : ¬ m.IsRegistering n)
    (notAssigned : n.kind = .assignment → ∀ i value,
      n.children.findIdx? (·.role == .right) = some i → n.children[i]? = some value →
        ¬ m.IsRegistering value)
    (notDecorated : n.kind ≠ .decoratedDefinition) :
    m.Shows n position call ↔ Among m.Shows n.children position call := by
  cases position with
  | nil => simp [shows_nil_iff, Among, notRegistering]
  | cons i rest =>
    rw [shows_cons_iff, and_iff_right (not_hides_of_open notRegistering notAssigned notDecorated)]
    constructor
    · rintro ⟨part, there, shown⟩
      exact ⟨i, rest, part, rfl, there, shown⟩
    · rintro ⟨_, _, part, ⟨rfl, rfl⟩, there, shown⟩
      exact ⟨part, there, shown⟩

theorem shows_iff_of_registering {position : List Nat} (registering : m.IsRegistering n) :
    m.Shows n position call ↔ position = [] ∧ n = call := by
  cases position with
  | nil => simp [shows_nil_iff, registering]
  | cons i rest => simp [shows_cons_iff, Hides.within registering]

/-- Of an assignment whose value is recorded, a search comes to the value alone. -/
theorem shows_iff_of_assigned {position : List Nat} {value : Node} (assigns : n.kind = .assignment)
    (first : n.children.findIdx? (·.role == .right) = some i)
    (there : n.children[i]? = some value) (registering : m.IsRegistering value) :
    m.Shows n position call ↔ position = [i] ∧ value = call := by
  have notCall : ¬ m.IsRegistering n := not_isRegistering_of_kind (by rw [assigns]; nofun)
  cases position with
  | nil => simp [shows_nil_iff, notCall]
  | cons j rest =>
    rw [shows_cons_iff, hides_iff_of_assigned assigns first there registering]
    by_cases same : j = i
    · subst same
      simp [there, shows_iff_of_registering registering]
    · simp [same]

theorem shows_iff_of_decorator {position : List Nat} (decorates : n.kind = .decorator) :
    m.Shows n position call ↔ Among m.Shows n.children position call := by
  refine shows_iff_of_open (not_isRegistering_of_kind ?_) (fun assigns => ?_) fun decorated => ?_
  · rw [decorates]
    nofun
  · cases decorates.symm.trans assigns
  · cases decorates.symm.trans decorated

/-- In a decorated definition, a search treats the decorators in a way of their own. -/
theorem shows_iff_of_decorated {position : List Nat} (decorated : n.kind = .decoratedDefinition) :
    m.Shows n position call ↔ Among m.ShowsDecorated n.children position call := by
  have notCall : ¬ m.IsRegistering n := not_isRegistering_of_kind (by rw [decorated]; nofun)
  cases position with
  | nil => simp [shows_nil_iff, notCall, Among]
  | cons i rest =>
    rw [shows_cons_iff, hides_iff_of_decorated decorated]
    constructor
    · rintro ⟨reached, part, there, shown⟩
      refine ⟨i, rest, part, rfl, there, ?_⟩
      rw [ShowsDecorated]
      split
      · rename_i decorates
        obtain ⟨j, inner, first, rfl, starts, found⟩ := (shows_iff_of_decorator decorates).mp shown
        have front : j = 0 := by
          by_contra later
          exact reached ⟨part, there, decorates, j, inner, rfl, .inl later⟩
        subst front
        refine ⟨inner, first, rfl, starts, fun member => ?_, found⟩
        exact reached ⟨part, there, decorates, 0, inner, rfl, .inr ⟨first, starts, member⟩⟩
      · exact shown
    · rintro ⟨_, _, part, ⟨rfl, rfl⟩, there, shown⟩
      rw [ShowsDecorated] at shown
      split at shown
      · rename_i decorates
        obtain ⟨inner, first, rfl, starts, noMember, shown⟩ := shown
        refine ⟨?_, part, there, (shows_iff_of_decorator decorates).mpr
          ⟨0, inner, first, rfl, starts, shown⟩⟩
        rintro ⟨other, again, -, _, _, ⟨rfl, rfl⟩, later | ⟨start, starting, member⟩⟩
        · exact later rfl
        · obtain rfl := Option.some.inj (there.symm.trans again)
          obtain rfl := Option.some.inj (starts.symm.trans starting)
          exact noMember member
      · rename_i statement
        refine ⟨?_, part, there, shown⟩
        rintro ⟨other, again, decorates, -⟩
        obtain rfl := Option.some.inj (there.symm.trans again)
        exact statement decorates

end SourceModule

end DeployManifest
