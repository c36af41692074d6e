import DeployManifest.Tree.Node
import Mathlib.Order.Basic

/-! # Trees in source order

The children of a node stand in source order, apart from each other and inside the node. Nodes without
a range of their own are allowed; `AreOrdered.lt_of_mem` says that something that takes room makes
what is around it take room.
-/

namespace DeployManifest

namespace Node

mutual

/-- The children stand in source order and apart, inside the node, and so do theirs. -/
def IsOrdered : Node → Prop
  | mk _ _ start stop children => AreOrdered start stop children

/-- The nodes stand between two offsets, one behind the other. -/
def AreOrdered (start stop : Nat) : List Node → Prop
  | [] => start ≤ stop
  | n :: ns => start ≤ n.start ∧ IsOrdered n ∧ AreOrdered n.stop stop ns

end

mutual

instance decidableIsOrdered : ∀ n : Node, Decidable n.IsOrdered
  | mk _ _ start stop children => decidableAreOrdered start stop children

instance decidableAreOrdered (start stop : Nat) :
    ∀ nodes : List Node, Decidable (AreOrdered start stop nodes)
  | [] => inferInstanceAs (Decidable (start ≤ stop))
  | n :: ns =>
    have := decidableIsOrdered n
    have := decidableAreOrdered n.stop stop ns
    inferInstanceAs (Decidable (start ≤ n.start ∧ n.IsOrdered ∧ AreOrdered n.stop stop ns))

end

theorem isOrdered_iff {n : Node} : n.IsOrdered ↔ AreOrdered n.start n.stop n.children := by
  obtain ⟨kind, role, start, stop, children⟩ := n
  rw [IsOrdered]
  exact Iff.rfl

mutual

theorem IsOrdered.start_le_stop : ∀ {n : Node}, n.IsOrdered → n.start ≤ n.stop
  | mk _ _ _ _ _, ordered => by
    rw [IsOrdered] at ordered
    exact AreOrdered.le ordered

theorem AreOrdered.le : ∀ {nodes : List Node} {start stop : Nat},
    AreOrdered start stop nodes → start ≤ stop
  | [], _, _, ordered => by
    rw [AreOrdered] at ordered
    exact ordered
  | _ :: _, _, _, ordered => by
    rw [AreOrdered] at ordered
    obtain ⟨first, own, rest⟩ := ordered
    have filled := own.start_le_stop
    have behind := rest.le
    omega

end

theorem sizeOf_lt_of_mem {n part : Node} (member : part ∈ n.children) : sizeOf part < sizeOf n := by
  obtain ⟨kind, role, start, stop, children⟩ := n
  have smaller := List.sizeOf_lt_of_mem (show part ∈ children from member)
  rw [mk.sizeOf_spec]
  omega

/-- Each of the nodes stands between the offsets, and is ordered itself. -/
theorem AreOrdered.of_mem {nodes : List Node} {start stop : Nat} {n : Node}
    (ordered : AreOrdered start stop nodes) (member : n ∈ nodes) :
    start ≤ n.start ∧ n.stop ≤ stop ∧ n.IsOrdered := by
  induction nodes generalizing start with
  | nil => cases member
  | cons first rest ih =>
    rw [AreOrdered] at ordered
    obtain ⟨before, own, behind⟩ := ordered
    rcases List.mem_cons.mp member with rfl | member
    · exact ⟨before, behind.le, own⟩
    · obtain ⟨later, inside, own'⟩ := ih behind member
      have filled := own.start_le_stop
      exact ⟨by omega, inside, own'⟩

/-- A node with something in it that is not empty is not empty. -/
theorem AreOrdered.lt_of_mem {nodes : List Node} {start stop : Nat} {n : Node}
    (ordered : AreOrdered start stop nodes) (member : n ∈ nodes) (filled : n.start < n.stop) :
    start < stop := by
  obtain ⟨before, inside, -⟩ := ordered.of_mem member
  omega

end Node

end DeployManifest
